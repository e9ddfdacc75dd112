import Mathlib.Data.List.Basic
import Zylib.Lib.Run

/-! `ThreadPool` (ThreadPool.h), with its `ThreadSafeQueue`. A thread takes a step at a time: it tests `m_running`, takes a task from
    the queue under the lock, or comes to the end of a call or of a `yield`. -/

namespace Zylib.Experimental

/-- Where a thread is in `run`. -/
inductive Worker (α : Type) where
  | testing
  | popping
  | calling (task : α)
  | yielding
  | returned
deriving DecidableEq

/-- The task whose call has not ended. -/
def Worker.inHand {α : Type} : Worker α → Option α
  | .calling task => some task
  | _ => none

/-- `popped` and `called` are the tasks that have been taken from the queue and those whose calls have ended, in order. -/
structure ThreadPool (α : Type) where
  m_running : Bool := true
  m_queue : List α := []
  m_threads : List (Worker α)
  popped : List α := []
  called : List α := []

namespace ThreadPool

variable {α : Type}

def init (thread_count : ℕ) : ThreadPool α := { m_threads := List.replicate thread_count .testing }

/-- `submit`, a step of one of the threads, or the begin of the destructor. -/
inductive Action (α : Type) where
  | submit (task : α)
  | work (thread : ℕ)
  | destroy

/-- There is no such thread, or it has returned. -/
inductive Fault where
  | noThread

def submit (s : ThreadPool α) (task : α) : ThreadPool α := { s with m_queue := s.m_queue ++ [task] }

/-- The thread is at another place. -/
def goto (s : ThreadPool α) (i : ℕ) (w : Worker α) : ThreadPool α := { s with m_threads := s.m_threads.set i w }

/-- A step of `run`. -/
def work (s : ThreadPool α) (i : ℕ) : Except Fault (ThreadPool α) :=
  match s.m_threads[i]? with
  | some .testing => .ok (s.goto i (if s.m_running then .popping else .returned))
  | some .popping =>
    match s.m_queue with
    | [] => .ok (s.goto i .yielding)
    | task :: rest => .ok { s.goto i (.calling task) with m_queue := rest, popped := s.popped ++ [task] }
  | some (.calling task) => .ok { s.goto i .testing with called := s.called ++ [task] }
  | some .yielding => .ok (s.goto i .testing)
  | some .returned | none => .error .noThread

def step (s : ThreadPool α) : Action α → Except Fault (ThreadPool α)
  | .submit task => .ok (s.submit task)
  | .work i => s.work i
  | .destroy => .ok { s with m_running := false }

/-- `join` has returned for each thread. -/
def joined (s : ThreadPool α) : Prop := ∀ w ∈ s.m_threads, w = .returned

/-- The thread that takes the step. -/
def Action.thread : Action α → Option ℕ
  | .work i => some i
  | _ => none

/-- The task that is submitted. -/
def Action.task : Action α → Option α
  | .submit task => some task
  | _ => none

end ThreadPool

end Zylib.Experimental
