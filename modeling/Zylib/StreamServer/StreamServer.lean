import Zylib.StreamServer.RWHandler
import Mathlib.Data.Finset.Card

/-! `StreamServer` of `stream_server`: the acceptor and the set of the handlers of its connections, on the thread of
    the `io_service`. The callbacks of the user, which change neither, are left out. -/

namespace Zylib.StreamServer

/-- A `max_connection` of 0 is no limit. -/
structure ServerOption where
  maxConnection : Nat := 65535
  timeoutSeconds : Nat := 0
deriving DecidableEq

/-- An `async_accept`. -/
structure AsyncAccept where
  number : Nat
  outcome : Option ErrorCode := none
deriving DecidableEq

/-- `handlers` is `m_handlers`. A handler is the place that it has in `created`, the handlers that were created so far. -/
structure StreamServerState (Msg : Type) where
  opt : ServerOption
  acceptorOpen : Bool := true
  handlers : Finset ℕ := ∅
  created : List (RWHandlerState Msg) := []
  accepts : List AsyncAccept := []
  made : Nat := 0

namespace StreamServerState
variable {Msg : Type}

inductive Fault where
  | disabled
  | handler (e : RWHandlerState.Fault)
deriving DecidableEq

def accept (s : StreamServerState Msg) : StreamServerState Msg :=
  { s with accepts := s.accepts ++ [{ number := s.made }], made := s.made + 1 }

def stopAccept (s : StreamServerState Msg) : StreamServerState Msg := { s with acceptorOpen := false }

def stop (s : StreamServerState Msg) : StreamServerState Msg := s.stopAccept

/-- All callbacks of a handler are set. -/
def createHandler (s : StreamServerState Msg) : Option ℕ × StreamServerState Msg :=
  if s.opt.maxConnection ≠ 0 ∧ s.handlers.card ≥ s.opt.maxConnection then (none, s)
  else
    let handler := s.created.length
    (some handler, { s with
      created := s.created ++ [RWHandlerState.init ⟨s.opt.timeoutSeconds⟩ {}]
      handlers := insert handler s.handlers })

/-- The socket of a connection that is refused is closed. -/
def acceptCallback (s : StreamServerState Msg) (ec : ErrorCode) : StreamServerState Msg :=
  if ec = 0 then s.createHandler.2.accept else s.stopAccept

def stopHandler (s : StreamServerState Msg) (hdl : ℕ) : StreamServerState Msg := { s with handlers := s.handlers.erase hdl }

/-- The constructor, then a call of `accept`. -/
def start (opt : ServerOption) : StreamServerState Msg := accept { opt }

/-! ### Steps -/

/-- An accept under way ends. It does so with success only while the acceptor is open. -/
def acceptEnds (s : StreamServerState Msg) (number : Nat) (ec : ErrorCode) : Except Fault (StreamServerState Msg) :=
  match s.accepts.find? (·.number == number) with
  | none => .error .disabled
  | some a =>
    if a.outcome = none ∧ (ec = 0 → s.acceptorOpen = true) then
      .ok { s with accepts := s.accepts.map fun a => if a.number = number then { a with outcome := some ec } else a }
    else .error .disabled

def runAccept (s : StreamServerState Msg) (number : Nat) : Except Fault (StreamServerState Msg) :=
  match s.accepts.find? (·.number == number) with
  | none => .error .disabled
  | some a =>
    match a.outcome with
    | none => .error .disabled
    | some ec => .ok ({ s with accepts := s.accepts.eraseP (·.number == number) }.acceptCallback ec)

/-- A step of a handler. The callbacks that `setCB_HandlerClosed` and `setCB_HandlerTimeout` wrap call `stopHandler`. -/
def handlerStep (decode : ByteBuffer.M (List Msg)) (s : StreamServerState Msg) (hdl : ℕ) (a : RWHandlerState.Action Msg) :
    Except Fault (StreamServerState Msg) :=
  match s.created[hdl]? with
  | none => .error .disabled
  | some c =>
    match c.step decode a with
    | .error e => .error (.handler e)
    | .ok d =>
      let s := { s with created := s.created.set hdl d }
      .ok (if c.log.countP HandlerEvent.isEnding < d.log.countP HandlerEvent.isEnding then s.stopHandler hdl else s)

inductive Action (Msg : Type) where
  | acceptEnds (number : Nat) (ec : ErrorCode)
  | runAccept (number : Nat)
  | handler (hdl : ℕ) (a : RWHandlerState.Action Msg)
  | stop

def step (decode : ByteBuffer.M (List Msg)) (s : StreamServerState Msg) : Action Msg → Except Fault (StreamServerState Msg)
  | .acceptEnds number ec => s.acceptEnds number ec
  | .runAccept number => s.runAccept number
  | .handler hdl a => s.handlerStep decode hdl a
  | .stop => .ok s.stop

end StreamServerState

end Zylib.StreamServer
