import Zylib.KNet.Message
import Zylib.KNet.TimerManager

/-! `RPCManager` of `knet`: the calls by which a service sends (`RouteMessage`, `AsyncRPC`,
    `RPCResponse`), the slots of the RPCs it waits for, and the queue of the messages it received. -/

namespace Zylib.KNet

/-- The call that a message was sent by. No message carries it: it is what the properties are about. -/
inductive Origin where
  | request (sid : ServiceId) (sequenceId : Nat)
  | routed (sid : ServiceId)
  | answer (o : Origin)
deriving DecidableEq

/-- The service that sent the first message of a chain of answers, and the number of its RPC, or 0
    for a routed message. -/
def Origin.root : Origin → ServiceId × Nat
  | request sid n => (sid, n)
  | routed sid => (sid, 0)
  | answer o => o.root

/-- Which callbacks of an `RPCContext` are set. -/
structure RPCContext where
  successCb : Bool
  timeoutCb : Bool
deriving Inhabited, DecidableEq

/-- A slot, and the number of the RPC that it was made for, which the code does not store. -/
structure ContextSlot where
  timerHdl : Option Nat
  context : RPCContext
  sequenceId : Nat
deriving Inhabited

/-- What a message callback gets to answer a message with. -/
structure ReceivedMsgCtx where
  fromSid : ServiceId
  toSid : ServiceId
  key : Key

/-- The members, with the queue of `m_producer`, the timer manager of `m_network`, and the slots made
    so far: the address of a slot is its place in `heap`. The timers call back with such an address.
    `keySequenceId` counts without bound; the member is this number modulo `2 ^ 64`. -/
structure RPCManager where
  serviceId : ServiceId
  msgCbArray : List MsgId := []
  keySequenceId : Nat := 0
  slots : List (Key × Nat) := []
  receivedMsgs : List (ReceivedMsg × Origin) := []
  queue : List (SendMsg × Origin) := []
  timerManager : TimerManager Nat := {}
  heap : List ContextSlot := []

namespace RPCManager

/-- The slot at an address. -/
def slot (r : RPCManager) (i : Nat) : ContextSlot := r.heap.getD i default

/-! ### Sending -/

/-- `m_producer->SendTo(send_msg)`, while the producer runs. -/
def sendTo (r : RPCManager) (msg : SendMsg) (o : Origin) : RPCManager :=
  if msg.invalid then r else { r with queue := r.queue ++ [(msg, o)] }

/-- `RouteMessage(sid, msg_id, msg)`: the key is the service id and the text "0". -/
def routeMessage (r : RPCManager) (sid : ServiceId) (msgId : MsgId) (msg : MsgType) : RPCManager :=
  r.sendTo ⟨r.serviceId, sid, msgId, msg, r.serviceId ++ [48], []⟩ (.routed r.serviceId)

def nextKey (r : RPCManager) : Key × RPCManager :=
  (r.serviceId ++ decimal (uint64 (r.keySequenceId + 1)), { r with keySequenceId := r.keySequenceId + 1 })

/-- `m_slots.insert(...)` does nothing if the key is there. -/
def insertSlot (r : RPCManager) (key : Key) (i : Nat) : RPCManager :=
  if r.slots.any (·.1 == key) then r else { r with slots := r.slots ++ [(key, i)] }

def appendRPCContext (r : RPCManager) (key : Key) (context : Option RPCContext) : RPCManager :=
  match context with
  | none => r
  | some context =>
    let i := r.heap.length
    let r := r.insertSlot key i
    if context.timeoutCb then
      let (hdl, timerManager) := r.timerManager.addTimer i
      { r with timerManager, heap := r.heap ++ [⟨some hdl, context, r.keySequenceId⟩] }
    else { r with heap := r.heap ++ [⟨none, context, r.keySequenceId⟩] }

def asyncRPC (r : RPCManager) (sid : ServiceId) (msgId : MsgId) (msg : MsgType) (context : Option RPCContext) :
    RPCManager :=
  let (key, r) := r.nextKey
  (r.sendTo ⟨r.serviceId, sid, msgId, msg, key, []⟩ (.request r.serviceId r.keySequenceId)).appendRPCContext key context

/-- `RPCResponse(ctx, msg_id, msg)`, for the context of a message with the origin `o`. -/
def rpcResponse (r : RPCManager) (ctx : ReceivedMsgCtx) (o : Origin) (msgId : MsgId) (msg : MsgType) : RPCManager :=
  r.sendTo ⟨ctx.toSid, ctx.fromSid, msgId, msg, ctx.key, []⟩ (.answer o)

/-! ### Receiving -/

/-- `CB_ReceviedMsg(p, p_len, key, key_len)`, on the thread of the consumer. -/
def cbReceviedMsg (r : RPCManager) (p : Bytes) (pLen : Nat) (key : Option Bytes) (keyLen : Nat) (o : Origin) :
    Except MessageDecoder.Fault RPCManager :=
  match MessageDecoder.decode p pLen key keyLen with
  | .error e => .error e
  | .ok none => .ok r
  | .ok (some msg) => .ok { r with receivedMsgs := r.receivedMsgs ++ [(msg, o)] }

/-- The swap at the start of `ProcessMsg`: the received messages, and an empty queue. -/
def swap (r : RPCManager) : List (ReceivedMsg × Origin) × RPCManager := (r.receivedMsgs, { r with receivedMsgs := [] })

def find (r : RPCManager) (key : Key) : Option Nat := (r.slots.find? (·.1 == key)).map (·.2)

/-- What `RpcReceviedMsg` does once the success callback is back: the timer is cancelled if its handle
    has not expired, and the entry of the map goes. The iterator found before the callback is taken to
    be that of the entry still, also if the map was rehashed meanwhile. -/
def finish (r : RPCManager) (key : Key) (i : Nat) : RPCManager :=
  let timerManager :=
    match (r.slot i).timerHdl with
    | none => r.timerManager
    | some hdl => if !r.timerManager.expired hdl then r.timerManager.cancelTimer hdl else r.timerManager
  { r with timerManager, slots := r.slots.filter (·.1 != key) }

end RPCManager

end Zylib.KNet
