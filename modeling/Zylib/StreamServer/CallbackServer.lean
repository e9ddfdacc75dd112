import Zylib.StreamServer.CallbackUtility

/-! `CallbackServer` of `stream_server`: the thread of the `io_service` puts what happens to its
    handlers into four queues, and `update`, on the main thread, takes one queue after the other and
    makes the callbacks of the user. -/

namespace Zylib.StreamServer

/-- An `Hdl` is a `weak_ptr` to a handler, here the number of the handler. -/
abbrev Hdl := Nat

structure CallbackMessagePkg where
  hdl : Hdl
  msgList : List CallbackMessage
deriving DecidableEq

/-- A callback of the user. -/
inductive Callback where
  | accept (hdl : Hdl)
  | timeout (hdl : Hdl)
  | closed (hdl : Hdl)
  | receivedMsg (hdl : Hdl) (msg : CallbackMessage)
deriving DecidableEq

/-- Which callbacks are set, and the message ids with a callback. -/
structure Callbacks where
  syncAccept : Bool := true
  syncTimeout : Bool := true
  syncClosed : Bool := true
  syncReceivedMsgArray : List Int32 := []

/-- The calls that `update` is made of. -/
inductive Sync where
  | syncAccept
  | syncTimeout
  | syncClosed
  | syncReceivedMsg
deriving DecidableEq

/-- The queues; of a call of `update`, the callbacks still to be made with what was taken from a queue,
    and the calls after that; the callbacks made so far; and the handlers that were accepted, and that
    are closed or timed out, so far. -/
structure CallbackServer where
  hdlAccept : List Hdl := []
  hdlClosed : List Hdl := []
  hdlTimeout : List Hdl := []
  receivedMsg : List CallbackMessagePkg := []
  todo : List Callback := []
  calls : List Sync := []
  callbacks : List Callback := []
  accepted : List Hdl := []
  ended : List Hdl := []
deriving DecidableEq

namespace CallbackServer

/-- A step that is not possible in the state. -/
inductive Fault where
  | disabled
deriving DecidableEq

/-! ### The thread of the `io_service` -/

def asyncAccept (s : CallbackServer) (hdl : Hdl) : CallbackServer := { s with hdlAccept := s.hdlAccept ++ [hdl] }

def asyncReceivedMsg (s : CallbackServer) (hdl : Hdl) (msgList : List CallbackMessage) : CallbackServer :=
  { s with receivedMsg := s.receivedMsg ++ [⟨hdl, msgList⟩] }

def asyncTimeout (s : CallbackServer) (hdl : Hdl) : CallbackServer := { s with hdlTimeout := s.hdlTimeout ++ [hdl] }

def asyncClosed (s : CallbackServer) (hdl : Hdl) : CallbackServer := { s with hdlClosed := s.hdlClosed ++ [hdl] }

/-! ### The main thread

    Of each `sync` call, what it takes from its queue under the lock, and the callbacks it makes. -/

variable (cb : Callbacks)

def syncAccept (s : CallbackServer) : List Callback × CallbackServer :=
  (if cb.syncAccept then s.hdlAccept.map .accept else [], { s with hdlAccept := [] })

def syncTimeout (s : CallbackServer) : List Callback × CallbackServer :=
  (if cb.syncTimeout then s.hdlTimeout.map .timeout else [], { s with hdlTimeout := [] })

def syncClosed (s : CallbackServer) : List Callback × CallbackServer :=
  (if cb.syncClosed then s.hdlClosed.map .closed else [], { s with hdlClosed := [] })

/-- `msgCallback` for each message of a package. -/
def msgCallbacks (pkg : CallbackMessagePkg) : List Callback :=
  (pkg.msgList.filter fun msg => cb.syncReceivedMsgArray.contains msg.msgId).map (.receivedMsg pkg.hdl)

def syncReceivedMsg (s : CallbackServer) : List Callback × CallbackServer :=
  (s.receivedMsg.flatMap (msgCallbacks cb), { s with receivedMsg := [] })

def sync (s : CallbackServer) : Sync → List Callback × CallbackServer
  | .syncAccept => s.syncAccept cb
  | .syncTimeout => s.syncTimeout cb
  | .syncClosed => s.syncClosed cb
  | .syncReceivedMsg => s.syncReceivedMsg cb

/-- The body of `update`. -/
def updateCalls : List Sync := [.syncAccept, .syncTimeout, .syncClosed, .syncReceivedMsg]

/-- A step of the main thread: the next callback, or the next call of `update`, or a new `update`. -/
def update (s : CallbackServer) : CallbackServer :=
  match s.todo, s.calls with
  | c :: todo, _ => { s with todo, callbacks := s.callbacks ++ [c] }
  | [], f :: calls =>
    let (todo, s) := s.sync cb f
    { s with todo, calls }
  | [], [] => { s with calls := updateCalls }

/-- A push by the thread of the `io_service`, or a step of the main thread. -/
inductive Action where
  | accept (hdl : Hdl)
  | receivedMsg (hdl : Hdl) (msgList : List CallbackMessage)
  | timeout (hdl : Hdl)
  | closed (hdl : Hdl)
  | update

/-- A handler is accepted once, then has messages, and is closed or timed out at most once. -/
def step (s : CallbackServer) : Action → Except Fault CallbackServer
  | .accept hdl =>
    if hdl ∈ s.accepted then .error .disabled
    else .ok { s.asyncAccept hdl with accepted := s.accepted ++ [hdl] }
  | .receivedMsg hdl msgList =>
    if hdl ∈ s.accepted ∧ hdl ∉ s.ended then .ok (s.asyncReceivedMsg hdl msgList) else .error .disabled
  | .timeout hdl =>
    if hdl ∈ s.accepted ∧ hdl ∉ s.ended then .ok { s.asyncTimeout hdl with ended := s.ended ++ [hdl] }
    else .error .disabled
  | .closed hdl =>
    if hdl ∈ s.accepted ∧ hdl ∉ s.ended then .ok { s.asyncClosed hdl with ended := s.ended ++ [hdl] }
    else .error .disabled
  | .update => .ok (s.update cb)

end CallbackServer

end Zylib.StreamServer
