import Zylib.KNet.UniformNetwork
import Mathlib.Logic.Function.Basic

/-! Services that send to each other. The thread of a producer encodes what is in its queue and hands it
    to the topic of the receiver (detail/kafka/Producer.cpp); from there it reaches the service that
    reads this topic, its own id (detail/kafka/Consumer.cpp), after any time and in any order. -/

namespace Zylib.KNet

/-- A message in flight: the topic, the payload and the key, as they are handed to the broker. -/
structure Record where
  topic : ServiceId
  payload : Bytes
  key : Key
  origin : Origin

structure System (ι : Type) where
  services : ι → UniformNetwork
  flight : List Record := []

namespace System

variable {ι : Type} [DecidableEq ι]

/-- A step of a service on its own threads, of its producer, or the delivery of a message in flight. -/
inductive Action (ι : Type) where
  | call (d : ι) (c : Call)
  | tick (d : ι)
  | cbEvent (d : ι) (hdl : Nat)
  | produce (d : ι)
  | deliver (d : ι) (k : Nat)

def serviceStep (s : System ι) (d : ι) (a : UniformNetwork.Action) : Except Fault (System ι) :=
  match (s.services d).step a with
  | .error e => .error e
  | .ok w => .ok { s with services := Function.update s.services d w }

/-- `StartSendThread` takes a message from the queue, encodes it and produces it. -/
def produce (s : System ι) (d : ι) : Except Fault (System ι) :=
  match (s.services d).rpc.queue with
  | [] => .error .disabled
  | (msg, o) :: queue =>
    let msg := MessageDecoder.encode msg
    .ok {
      services := Function.update s.services d { s.services d with rpc.queue := queue }
      flight := s.flight ++ [⟨msg.toSid, msg.buffer, msg.key, o⟩] }

/-- The message number `k` of those in flight reaches the service `d`. -/
def deliver (s : System ι) (d : ι) (k : Nat) : Except Fault (System ι) :=
  match s.flight[k]? with
  | none => .error .disabled
  | some r =>
    if r.topic = (s.services d).rpc.serviceId then
      { s with flight := s.flight.eraseIdx k }.serviceStep d
        (.cbReceviedMsg r.payload r.payload.length (some r.key) r.key.length r.origin)
    else .error .disabled

def step (s : System ι) : Action ι → Except Fault (System ι)
  | .call d c => s.serviceStep d (.call c)
  | .tick d => s.serviceStep d .tick
  | .cbEvent d hdl => s.serviceStep d (.cbEvent hdl)
  | .produce d => s.produce d
  | .deliver d k => s.deliver d k

end System

end Zylib.KNet
