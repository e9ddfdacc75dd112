import Zylib.Lib.Run
import Mathlib.Algebra.GroupWithZero.Nat
import Mathlib.Data.List.Sort

/-! `TimerService` of `game_server`: a list of timers with the times that are left to them, from which the time that
    passed is only taken when it has to be. The callbacks may add timers while the list is gone through. -/

namespace Zylib.GameServer

/-- A timer. The callback `m_fun` is known by the number of the timer; neither this nor the deadline is stored by the
    code. -/
structure TimerTask where
  number : Nat
  deadline : Nat
  time : Nat
deriving DecidableEq

/-- A call of `addTimer`, with the number of the heartbeats begun before it. -/
structure AddedTimer where
  since : Nat
  tk : Nat
deriving DecidableEq

/-- The members; the diffs of the heartbeats so far, the timers added, and the callbacks that ran, each with the number
    of the heartbeats begun till then. -/
structure TimerService where
  timePassed : Nat := 0
  timers : List TimerTask := []
  diffs : List Nat := []
  added : List AddedTimer := []
  called : List (Nat × Nat) := []
deriving DecidableEq

namespace TimerService

/-- A step that is not possible: the loop of a heartbeat does not end within the turns that it is given. -/
inductive Fault where
  | turns
deriving DecidableEq

/-- The sum of the diffs of all heartbeats. -/
def now (s : TimerService) : Nat := s.diffs.sum

/-! ### addTimer -/

/-- The loop of `timerRotation(false)` for one timer. -/
def rotateTask (timePassed : Nat) (it : TimerTask) : TimerTask :=
  if it.time ≤ timePassed then { it with time := 0 } else { it with time := it.time - timePassed }

/-- `timerRotation(false)`. -/
def timerRotation (s : TimerService) : TimerService :=
  if s.timePassed = 0 then s else { s with timers := s.timers.map (rotateTask s.timePassed) }

/-- `addTimer(fun, tk)`. In a sorted list `lower_bound` finds the first timer that has no less time left. -/
def addTimer (s : TimerService) (tk : Nat) : TimerService :=
  let timer : TimerTask := ⟨s.added.length, s.now + tk, tk⟩
  let s := if s.timePassed ≠ 0 then { s.timerRotation with timePassed := 0 } else s
  { s with
    timers := s.timers.orderedInsert (fun val it => val.time ≤ it.time) timer
    added := s.added ++ [⟨s.diffs.length, tk⟩] }

/-! ### heartbeat -/

section
variable (adds : Nat → List Nat)

/-- `it->m_fun()`: the callback of a timer adds timers with the times `adds` of its number. -/
def callTimer (s : TimerService) (number : Nat) : TimerService :=
  (adds number).foldl addTimer { s with called := s.called ++ [(s.diffs.length, number)] }

/-- The loop of `timerRotation(true)`, for at most so many turns: the timers before `it` and those from it on. The iterator
    stays with its timer when the callback adds others. -/
def rotationLoop : Nat → List TimerTask → List TimerTask → TimerService → Option TimerService
  | _, before, [], s => some { s with timers := before }
  | 0, _, _ :: _, _ => none
  | turns + 1, before, it :: rest, s =>
    if it.time ≤ s.timePassed then
      let s := callTimer adds { s with timers := before ++ { it with time := 0 } :: rest } it.number
      rotationLoop turns (s.timers.takeWhile (·.number ≠ it.number)) (s.timers.dropWhile (·.number ≠ it.number)).tail s
    else rotationLoop turns (before ++ [{ it with time := it.time - s.timePassed }]) rest s

/-- The turns that the loop is given: one for each timer, and one for each that the callbacks may add. -/
def turns (s : TimerService) : Nat := s.timers.length + (s.timers.map fun t => (adds t.number).length).sum

/-- `timerRotation(true)`. -/
def timerRotationCall (s : TimerService) : Option TimerService :=
  if s.timePassed = 0 then some s else rotationLoop adds (s.turns adds) [] s.timers s

/-- `heartbeat(diff)`. -/
def heartbeat (s : TimerService) (diff : Nat) : Option TimerService :=
  let s := { s with diffs := s.diffs ++ [diff] }
  match s.timers with
  | [] => some s
  | front :: _ =>
    let s := { s with timePassed := (s.timePassed + diff) % 2 ^ 32 }
    if s.timePassed < front.time then some s
    else (s.timerRotationCall adds).map ({ · with timePassed := 0 })

inductive Action where
  | addTimer (tk : Nat)
  | heartbeat (diff : Nat)
deriving DecidableEq

def step (s : TimerService) : Action → Except Fault TimerService
  | .addTimer tk => .ok (s.addTimer tk)
  | .heartbeat diff =>
    match s.heartbeat adds diff with
    | some s => .ok s
    | none => .error .turns

end

end TimerService

end Zylib.GameServer
