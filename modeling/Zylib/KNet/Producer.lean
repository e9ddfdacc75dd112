import Zylib.KNet.Message

/-! `Producer` of `knet` (detail/kafka/Producer.cpp): `SendTo` queues a message, the send thread takes
    the messages from the queue one by one, and `Flush` takes those that are left once that thread is
    gone. Whether the creation of a topic succeeds is part of a step. -/

namespace Zylib.KNet

/-- What `RdKafka::Producer::produce` is called with. -/
structure Produced where
  topic : ServiceId
  payload : Bytes
  key : Key
deriving DecidableEq

/-- Where `StartSendThread` is. -/
inductive SendThread where
  | loopTest
  | takeMsg
  | sendMsg (msg : SendMsg)
  | exited
deriving DecidableEq

/-- The members, the send thread, the calls of `produce` so far, and the messages that `SendTo` took. -/
structure Producer where
  run : Bool := true
  queue : List SendMsg := []
  topics : List ServiceId := []
  sendThread : SendThread := .loopTest
  produced : List Produced := []
  accepted : List SendMsg := []
deriving DecidableEq

namespace Producer

/-- A step that is not possible in the state. -/
inductive Fault where
  | disabled
deriving DecidableEq

def sendTo (p : Producer) (sendMsg : SendMsg) : Producer :=
  if !p.run then p
  else if sendMsg.invalid then p
  else { p with queue := p.queue ++ [sendMsg], accepted := p.accepted ++ [sendMsg] }

def stop (p : Producer) : Producer := { p with run := false }

/-- `FindOrCreate(to_sid)`: whether there is a topic, and the topics after it. -/
def findOrCreate (p : Producer) (toSid : ServiceId) (created : Bool) : Bool × Producer :=
  if toSid ∈ p.topics then (true, p)
  else if !created then (false, p)
  else (true, { p with topics := p.topics ++ [toSid] })

def sendMessageInternal (p : Producer) (msg : SendMsg) (created : Bool) : Producer :=
  let (topic, p) := p.findOrCreate msg.toSid created
  if !topic then p else { p with produced := p.produced ++ [⟨msg.toSid, msg.buffer, msg.key⟩] }

/-- A step of `StartSendThread`: a test of `m_run`, the part under the lock, or what it does with the
    message that it took. -/
def startSendThread (p : Producer) (created : Bool) : Except Fault Producer :=
  match p.sendThread with
  | .loopTest => .ok { p with sendThread := if p.run then .takeMsg else .exited }
  | .takeMsg =>
    match p.queue with
    | [] => .ok { p with sendThread := .loopTest }
    | msg :: queue => .ok { p with queue, sendThread := .sendMsg msg }
  | .sendMsg msg => .ok { p.sendMessageInternal (MessageDecoder.encode msg) created with sendThread := .loopTest }
  | .exited => .error .disabled

/-- One round of the loop of `Flush`, which is called when the send thread is gone. -/
def flush (p : Producer) (created : Bool) : Except Fault Producer :=
  if p.run then .ok p
  else if p.sendThread ≠ .exited then .error .disabled
  else
    match p.queue with
    | [] => .ok p
    | msg :: queue => .ok ({ p with queue }.sendMessageInternal msg created)

/-- `sendTo` has the arguments of the constructor of the message. -/
inductive Action where
  | sendTo (fromSid toSid : ServiceId) (msgId : MsgId) (payload : MsgType) (key : Key)
  | stop
  | sendThread (created : Bool)
  | flush (created : Bool)

def step (p : Producer) : Action → Except Fault Producer
  | .sendTo fromSid toSid msgId payload key => .ok (p.sendTo { fromSid, toSid, msgId, payload, key })
  | .stop => .ok p.stop
  | .sendThread created => p.startSendThread created
  | .flush created => p.flush created

end Producer

end Zylib.KNet
