import Zylib.KNet.RPCManager

/-! `UniformNetwork::Tick` step by step. The callbacks are code of the user, which may send while they
    run, and between any two steps the other threads may put into the two queues: `Pc` says where the
    main thread stands. -/

namespace Zylib.KNet

/-- Where the main thread stands in `Tick`: outside, in the loop of `TimerManager::Tick` or in that of
    `RPCManager::ProcessMsg`, between two passes or in a callback. -/
inductive Pc where
  | user
  | timers (all : List Nat)
  | timeoutCb (timer : Nat) (all : List Nat)
  | msgs (temp : List (ReceivedMsg × Origin))
  | successCb (key : Key) (slot : Nat) (temp : List (ReceivedMsg × Origin))
  | msgCb (temp : List (ReceivedMsg × Origin))

def Pc.inUserCode : Pc → Bool
  | user | timeoutCb .. | successCb .. | msgCb .. => true
  | timers _ | msgs _ => false

/-- What is noted of a run: that a message found a slot, and the callbacks of a slot that are invoked. -/
inductive Event where
  | found (slot : Nat) (origin : Origin)
  | success (slot : Nat) (origin : Origin)
  | timeout (slot : Nat)
deriving DecidableEq

/-- A service, with the contexts that its message callbacks got so far. -/
structure UniformNetwork where
  rpc : RPCManager
  pc : Pc := .user
  ctxs : List (ReceivedMsgCtx × Origin) := []
  log : List Event := []

inductive Call where
  | asyncRPC (sid : ServiceId) (msgId : MsgId) (msg : MsgType) (context : Option RPCContext)
  | routeMessage (sid : ServiceId) (msgId : MsgId) (msg : MsgType)
  | sendResponse (ctx : Nat) (msgId : MsgId) (msg : MsgType)

/-- A step that cannot be taken: the main thread does not run the user's code, or there is no such
    context or message; or a read outside a buffer. -/
inductive Fault where
  | disabled
  | decode (e : MessageDecoder.Fault)
deriving DecidableEq

namespace UniformNetwork

def init (serviceId : ServiceId) (msgCbArray : List MsgId) : UniformNetwork := { rpc := { serviceId, msgCbArray } }

/-- `CB_Timeout()` of the context of a slot. -/
def cbTimeout (w : UniformNetwork) (slot : Nat) : List Event :=
  if (w.rpc.slot slot).context.timeoutCb then [.timeout slot] else []

/-- `CB_Success(msg)` of the context of a slot. -/
def cbSuccess (w : UniformNetwork) (slot : Nat) (o : Origin) : List Event :=
  if (w.rpc.slot slot).context.successCb then [.success slot o] else []

/-- `NormalReceviedMsg(msg)`, up to the message callback. -/
def normalReceviedMsg (w : UniformNetwork) (msg : ReceivedMsg) (o : Origin) (temp : List (ReceivedMsg × Origin)) :
    UniformNetwork :=
  if msg.msgId ∈ w.rpc.msgCbArray then
    { w with ctxs := w.ctxs ++ [(⟨msg.fromSid, msg.toSid, msg.key⟩, o)], pc := .msgCb temp }
  else { w with pc := .msgs temp }

/-- `RpcReceviedMsg(msg)`, up to the callback. -/
def rpcReceviedMsg (w : UniformNetwork) (msg : ReceivedMsg) (o : Origin) (temp : List (ReceivedMsg × Origin)) :
    UniformNetwork :=
  match w.rpc.find msg.key with
  | none => w.normalReceviedMsg msg o temp
  | some slot => { w with log := w.log ++ .found slot o :: w.cbSuccess slot o, pc := .successCb msg.key slot temp }

/-- The next step of the main thread in `Tick`. -/
def tick (w : UniformNetwork) : UniformNetwork :=
  match w.pc with
  | .user => { w with rpc.timerManager := w.rpc.timerManager.swap.2, pc := .timers w.rpc.timerManager.swap.1 }
  | .timers [] => { w with rpc := w.rpc.swap.2, pc := .msgs w.rpc.swap.1 }
  | .timers (hdl :: all) =>
    match w.rpc.timerManager.lock hdl with
    | none => { w with pc := .timers all }
    | some slot => { w with log := w.log ++ w.cbTimeout slot, pc := .timeoutCb hdl all }
  | .timeoutCb timer all => { w with rpc.timerManager := w.rpc.timerManager.erase timer, pc := .timers all }
  | .msgs [] => { w with pc := .user }
  | .msgs ((msg, o) :: temp) => w.rpcReceviedMsg msg o temp
  | .successCb key slot temp => { w with rpc := w.rpc.finish key slot, pc := .msgs temp }
  | .msgCb temp => { w with pc := .msgs temp }

def call (w : UniformNetwork) (c : Call) : Except Fault UniformNetwork :=
  if w.pc.inUserCode then
    match c with
    | .asyncRPC sid msgId msg context => .ok { w with rpc := w.rpc.asyncRPC sid msgId msg context }
    | .routeMessage sid msgId msg => .ok { w with rpc := w.rpc.routeMessage sid msgId msg }
    | .sendResponse ctx msgId msg =>
      match w.ctxs[ctx]? with
      | none => .error .disabled
      | some (ctx, o) => .ok { w with rpc := w.rpc.rpcResponse ctx o msgId msg }
  else .error .disabled

def cbEvent (w : UniformNetwork) (hdl : Nat) : UniformNetwork :=
  { w with rpc.timerManager := w.rpc.timerManager.cbEvent hdl }

def cbReceviedMsg (w : UniformNetwork) (p : Bytes) (pLen : Nat) (key : Option Bytes) (keyLen : Nat) (o : Origin) :
    Except Fault UniformNetwork :=
  match w.rpc.cbReceviedMsg p pLen key keyLen o with
  | .error e => .error (.decode e)
  | .ok rpc => .ok { w with rpc }

/-- A step of one of the threads of a service: a call, a step of `Tick`, an expiry, a delivery. -/
inductive Action where
  | call (c : Call)
  | tick
  | cbEvent (hdl : Nat)
  | cbReceviedMsg (p : Bytes) (pLen : Nat) (key : Option Bytes) (keyLen : Nat) (o : Origin)

def step (w : UniformNetwork) : Action → Except Fault UniformNetwork
  | .call c => w.call c
  | .tick => .ok w.tick
  | .cbEvent hdl => .ok (w.cbEvent hdl)
  | .cbReceviedMsg p pLen key keyLen o => w.cbReceviedMsg p pLen key keyLen o

end UniformNetwork

end Zylib.KNet
