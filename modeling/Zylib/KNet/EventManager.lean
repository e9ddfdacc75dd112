import Zylib.KNet.TimerManager

/-! `TimerManager` with the deadline timers of `EventManager` behind it. The main thread adds and cancels timers and
    runs `Tick`, whose callbacks may do so too; the thread of the `io_service` runs the handlers of the
    deadline timers, each once. -/

namespace Zylib.KNet

/-- The wait of a deadline timer: under way; at its end, with its handler ready to run; or over. -/
inductive Wait where
  | pending
  | expired
  | canceled
  | over
deriving DecidableEq

/-- Where the main thread stands: outside `Tick`, in its loop, or in the callback of a timer. -/
inductive TickPc where
  | user
  | loop (all : List Nat)
  | callback (timer : Nat) (all : List Nat)

/-- The handles that the loop has still to look at. -/
def TickPc.rest : TickPc → List Nat
  | .user => []
  | .loop all => all
  | .callback _ all => all

inductive TimerEvent (κ : Type) where
  | added (hdl : Nat) (syncCb : κ)
  | canceled (hdl : Nat)
  | fired (hdl : Nat)
  | tickBegins
  | invoked (hdl : Nat) (syncCb : κ)
  | tickEnds

/-- The manager; the wait that belongs to each timer, by the address of the timer; where the main thread
    stands; and what has happened. -/
structure TimerSystem (κ : Type) where
  manager : TimerManager κ := {}
  waits : List Wait := []
  pc : TickPc := .user
  log : List (TimerEvent κ) := []

namespace TimerSystem

/-- A step that is not possible in the state. -/
inductive Fault where
  | disabled
deriving DecidableEq

variable {κ : Type}

def emit (s : TimerSystem κ) (e : TimerEvent κ) : TimerSystem κ := { s with log := s.log ++ [e] }

/-! ### The main thread -/

/-- `TimerManager::AddTimer`, with the wait that `EventManager::AddTimer` begins. -/
def addTimer (s : TimerSystem κ) (syncCb : κ) : TimerSystem κ :=
  let (hdl, manager) := s.manager.addTimer syncCb
  { s with manager, waits := s.waits ++ [Wait.pending] }.emit (.added hdl syncCb)

/-- `TimerManager::CancelTimer`, with the cancellation of the wait, whose handler runs all the same if the wait
    has expired. -/
def cancelTimer (s : TimerSystem κ) (hdl : Nat) : TimerSystem κ :=
  let waits := match s.manager.lock hdl, s.waits[hdl]? with
    | some _, some .pending => s.waits.set hdl .canceled
    | _, _ => s.waits
  { s with manager := s.manager.cancelTimer hdl, waits }.emit (.canceled hdl)

/-- The next step of `Tick`. -/
def tick (s : TimerSystem κ) : TimerSystem κ :=
  match s.pc with
  | .user => { s with manager := s.manager.swap.2, pc := .loop s.manager.swap.1 }.emit .tickBegins
  | .loop [] => { s with pc := .user }.emit .tickEnds
  | .loop (hdl :: all) =>
    match s.manager.lock hdl with
    | none => { s with pc := .loop all }
    | some syncCb => { s with pc := .callback hdl all }.emit (.invoked hdl syncCb)
  | .callback timer all => { s with manager := s.manager.erase timer, pc := .loop all }

/-! ### The thread of the `io_service` -/

def expires (s : TimerSystem κ) (hdl : Nat) : Except Fault (TimerSystem κ) :=
  if s.waits[hdl]? = some .pending then .ok { s with waits := s.waits.set hdl .expired } else .error .disabled

/-- The handler of the wait runs; it calls `CB_Event` if the wait was not canceled. -/
def handler (s : TimerSystem κ) (hdl : Nat) : Except Fault (TimerSystem κ) :=
  match s.waits[hdl]? with
  | some .expired => .ok ({ s with waits := s.waits.set hdl Wait.over, manager := s.manager.cbEvent hdl }.emit (.fired hdl))
  | some .canceled => .ok { s with waits := s.waits.set hdl .over }
  | _ => .error .disabled

/-! ### The two threads -/

inductive Action (κ : Type) where
  | addTimer (syncCb : κ)
  | cancelTimer (hdl : Nat)
  | tick
  | expires (hdl : Nat)
  | handler (hdl : Nat)

/-- Timers are added and canceled outside `Tick` and in callbacks, and only those are canceled that were added. -/
def step (s : TimerSystem κ) : Action κ → Except Fault (TimerSystem κ)
  | .addTimer syncCb =>
    match s.pc with
    | .loop _ => .error .disabled
    | _ => .ok (s.addTimer syncCb)
  | .cancelTimer hdl =>
    match s.pc with
    | .loop _ => .error .disabled
    | _ => if hdl < s.manager.heap.length then .ok (s.cancelTimer hdl) else .error .disabled
  | .tick => .ok s.tick
  | .expires hdl => s.expires hdl
  | .handler hdl => s.handler hdl

end TimerSystem

end Zylib.KNet
