import Zylib.StreamServer.CallbackServer

/-! `CallbackClient` of `stream_server`: the thread of the `io_service` reports to the members
    `m_async_...` how an attempt to connect ended and what comes from the connection, and `update`, on
    the main thread, takes one after the other and makes the callbacks of the user. -/

namespace Zylib.StreamServer

/-- A callback of the user, with the `StreamClient` that was reported, which the callback does not get. -/
inductive ClientCallback where
  | connectSuccess (client : Nat)
  | connectFail (client : Nat)
  | timeout (client : Nat)
  | closed (client : Nat)
  | receivedMsg (hdl : Hdl) (msg : CallbackMessage)
deriving DecidableEq

/-- Which callbacks are set, and the message ids with a callback. -/
structure ClientCallbacks where
  syncConnectSuccess : Bool := true
  syncConnectFail : Bool := true
  syncTimeout : Bool := true
  syncClosed : Bool := true
  syncReceivedMsgArray : List Int32 := []

/-- The calls that `update` is made of. -/
inductive ClientSync where
  | syncConnectSuccess
  | syncConnectFail
  | syncTimeout
  | syncClosed
  | syncReceivedMsg
deriving DecidableEq

/-- How the attempt of a `StreamClient` to connect ended. -/
structure Completion where
  client : Nat
  success : Bool
deriving DecidableEq

/-- The members, where a `StreamClient` is the number of those made before it; of a call of `update`,
    the callbacks and the calls still to be made; the callbacks made so far; the attempt that has not
    ended; and the ends of attempts, all of them, those before the last `update` began, and those
    before the one before it began. -/
structure CallbackClient where
  asyncClient : Option Nat := none
  asyncConnectSuccess : Option Nat := none
  asyncConnectFail : Option Nat := none
  asyncTimeout : Option Nat := none
  asyncClosed : Option Nat := none
  asyncReceivedMsgPkg : List CallbackMessagePkg := []
  todo : List ClientCallback := []
  calls : List ClientSync := []
  callbacks : List ClientCallback := []
  clients : Nat := 0
  connecting : Option Nat := none
  completed : List Completion := []
  beforeUpdate : List Completion := []
  beforeLast : List Completion := []
deriving DecidableEq

namespace CallbackClient

/-- `disabled` is a step that is not possible in the state; `useAfterFree` is a `reconnect` that
    destroys a `StreamClient` with an attempt that has not ended. -/
inductive Fault where
  | disabled
  | useAfterFree
deriving DecidableEq

/-! ### Connecting -/

/-- `connect`; `started` says that `doConnect` threw nothing. -/
def connect (s : CallbackClient) (started : Bool) : CallbackClient :=
  if s.asyncClient.isSome then s
  else
    { s with
      asyncClient := some s.clients
      clients := s.clients + 1
      connecting := if started then some s.clients else none }

def reconnect (s : CallbackClient) (started : Bool) : Except Fault CallbackClient :=
  if s.connecting.isSome then .error .useAfterFree
  else .ok ({ s with asyncClient := none }.connect started)

/-- `asyncConnect`, with the error code or not. -/
def asyncConnect (s : CallbackClient) (ec : Bool) : CallbackClient :=
  if ec then { s with asyncConnectFail := s.asyncClient } else { s with asyncConnectSuccess := s.asyncClient }

/-! ### The main thread -/

variable (cb : ClientCallbacks)

def syncConnectSuccess (s : CallbackClient) : List ClientCallback × CallbackClient :=
  (if cb.syncConnectSuccess then s.asyncConnectSuccess.toList.map .connectSuccess else [],
    { s with asyncConnectSuccess := none })

/-- It takes `m_async_connect_success`. -/
def syncConnectFail (s : CallbackClient) : List ClientCallback × CallbackClient :=
  (if cb.syncConnectFail then s.asyncConnectSuccess.toList.map .connectFail else [],
    { s with asyncConnectSuccess := none })

def syncTimeout (s : CallbackClient) : List ClientCallback × CallbackClient :=
  (if cb.syncTimeout then s.asyncTimeout.toList.map .timeout else [], { s with asyncTimeout := none })

def syncClosed (s : CallbackClient) : List ClientCallback × CallbackClient :=
  (if cb.syncClosed then s.asyncClosed.toList.map .closed else [], { s with asyncClosed := none })

/-- `msgCallback` for each message of a package. -/
def msgCallbacks (pkg : CallbackMessagePkg) : List ClientCallback :=
  (pkg.msgList.filter fun msg => cb.syncReceivedMsgArray.contains msg.msgId).map (.receivedMsg pkg.hdl)

def syncReceivedMsg (s : CallbackClient) : List ClientCallback × CallbackClient :=
  (s.asyncReceivedMsgPkg.flatMap (msgCallbacks cb), { s with asyncReceivedMsgPkg := [] })

def sync (s : CallbackClient) : ClientSync → List ClientCallback × CallbackClient
  | .syncConnectSuccess => s.syncConnectSuccess cb
  | .syncConnectFail => s.syncConnectFail cb
  | .syncTimeout => s.syncTimeout cb
  | .syncClosed => s.syncClosed cb
  | .syncReceivedMsg => s.syncReceivedMsg cb

/-- The body of `update`. -/
def updateCalls : List ClientSync := [.syncConnectSuccess, .syncConnectFail, .syncTimeout, .syncClosed, .syncReceivedMsg]

/-- A step of the main thread: the next callback, or the next call of `update`, or a new `update`. -/
def update (s : CallbackClient) : CallbackClient :=
  match s.todo, s.calls with
  | c :: todo, _ => { s with todo, callbacks := s.callbacks ++ [c] }
  | [], f :: calls =>
    let (todo, s) := s.sync cb f
    { s with todo, calls }
  | [], [] => { s with calls := updateCalls, beforeUpdate := s.completed, beforeLast := s.beforeUpdate }

/-! ### Steps -/

/-- The user, also in a callback, connects or reconnects; an attempt ends; the connection reports; or
    the main thread takes a step of `update`. -/
inductive Action where
  | connect (started : Bool)
  | reconnect (started : Bool)
  | asyncConnect (ec : Bool)
  | asyncTimeout
  | asyncClosed
  | asyncReceivedMsg (hdl : Hdl) (msgList : List CallbackMessage)
  | update

def step (s : CallbackClient) : Action → Except Fault CallbackClient
  | .connect started => .ok (s.connect started)
  | .reconnect started => s.reconnect started
  | .asyncConnect ec =>
    match s.connecting with
    | none => .error .disabled
    | some client => .ok { s.asyncConnect ec with connecting := none, completed := s.completed ++ [⟨client, !ec⟩] }
  | .asyncTimeout => .ok { s with asyncTimeout := s.asyncClient }
  | .asyncClosed => .ok { s with asyncClosed := s.asyncClient }
  | .asyncReceivedMsg hdl msgList => .ok { s with asyncReceivedMsgPkg := s.asyncReceivedMsgPkg ++ [⟨hdl, msgList⟩] }
  | .update => .ok (s.update cb)

end CallbackClient

end Zylib.StreamServer
