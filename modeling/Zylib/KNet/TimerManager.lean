import Mathlib.Data.List.Basic

/-! `TimerManager` of `knet`: the timers that are set, and the queue by which the timer thread hands
    those that expired to the main thread. The deadline timers behind them (`EventManager`) are not
    modelled: an expiry may come at any time, also after a cancellation that came too late. -/

namespace Zylib.KNet

/-- A timer is its callback, and its address is its place in `heap`. `timers` owns the timers, by
    their addresses; a handle is an address too, and locks as long as `timers` has it. -/
structure TimerManager (κ : Type) where
  timers : List Nat := []
  timeoutTimers : List Nat := []
  heap : List κ := []

namespace TimerManager

variable {κ : Type} {m : TimerManager κ} {hdl : Nat}

/-- `AddTimer(sync_cb, d)`: the handle of the new timer. -/
def addTimer (m : TimerManager κ) (syncCb : κ) : Nat × TimerManager κ :=
  (m.heap.length, { m with timers := m.timers ++ [m.heap.length], heap := m.heap ++ [syncCb] })

def lock (m : TimerManager κ) (hdl : Nat) : Option κ := if hdl ∈ m.timers then m.heap[hdl]? else none

def expired (m : TimerManager κ) (hdl : Nat) : Bool := hdl ∉ m.timers

def erase (m : TimerManager κ) (timer : Nat) : TimerManager κ := { m with timers := m.timers.erase timer }

def cancelTimer (m : TimerManager κ) (hdl : Nat) : TimerManager κ :=
  match m.lock hdl with
  | none => m
  | some _ => m.erase hdl

/-- `CB_Event(hdl)`, on the timer thread. -/
def cbEvent (m : TimerManager κ) (hdl : Nat) : TimerManager κ := { m with timeoutTimers := m.timeoutTimers ++ [hdl] }

/-- The swap at the start of `Tick`: the expired timers, and an empty queue. -/
def swap (m : TimerManager κ) : List Nat × TimerManager κ := (m.timeoutTimers, { m with timeoutTimers := [] })

theorem expired_iff : m.expired hdl = true ↔ hdl ∉ m.timers := by simp [expired]

theorem lock_eq_some {cb : κ} : m.lock hdl = some cb ↔ hdl ∈ m.timers ∧ m.heap[hdl]? = some cb := by
  unfold lock
  split
  · rename_i h
    exact ⟨fun h' => ⟨h, h'⟩, And.right⟩
  · rename_i h
    exact ⟨nofun, fun h' => absurd h'.1 h⟩

@[simp] theorem heap_cancelTimer (hdl : Nat) : (m.cancelTimer hdl).heap = m.heap := by
  unfold cancelTimer
  split <;> rfl

end TimerManager

end Zylib.KNet
