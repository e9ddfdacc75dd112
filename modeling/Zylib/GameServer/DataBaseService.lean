import Zylib.Lib.Run

/-! `DataBaseService`: the workers that take the tasks, the calls of `asyncSubmit` and one thread that calls `stop`,
    `waitExit` and `executeRemainTask`. Each section under the lock is one step. -/

namespace Zylib.GameServer

/-- A submitted task, by a number. -/
abbrev Task := Nat

/-- Where a worker is in `run`. -/
inductive Worker where
  /-- Before the test of `m_running`. -/
  | atLoop
  /-- After the test, before the lock. -/
  | atLock
  /-- In the wait, not notified. -/
  | blocked
  /-- In the wait, woken up, before it has the lock again. -/
  | notified
  /-- With what it took from the queue, which is an empty `AsyncTask` or a task. -/
  | holding (task : Option Task)
  | exited
deriving DecidableEq

/-- Where the thread is that ends the service. -/
inductive Ending where
  | serving
  /-- In `stop`, after the exchange of `m_running`. -/
  | stopping
  | stopped
  | joined
  | drained
deriving DecidableEq

/-- `dequeued` and `executed` are the tasks that were taken from the queue and executed so far. -/
structure DataBaseService where
  running : Bool := true
  queue : List (Option Task) := []
  workers : List Worker
  ending : Ending := .serving
  dequeued : List Task := []
  executed : List Task := []
deriving DecidableEq

inductive Action where
  | asyncSubmit (task : Task)
  /-- A worker tests `m_running`. -/
  | loop (i : Nat)
  /-- A worker has the lock and tests the condition of the wait. -/
  | lock (i : Nat)
  /-- A worker is woken up for no reason. -/
  | wake (i : Nat)
  /-- A worker executes what it holds. -/
  | execute (i : Nat)
  /-- The exchange of `m_running` in `stop`. -/
  | stop
  /-- The section of `stop` under the lock. -/
  | stopLocked
  | waitExit
  | executeRemainTask
deriving DecidableEq

namespace DataBaseService

/-- A step that is not possible in the state. -/
inductive Fault where
  | disabled
deriving DecidableEq

/-- After `init` has started the threads. -/
def init (num_threads : Nat) : DataBaseService := { workers := List.replicate num_threads .atLoop }

def setWorker (s : DataBaseService) (i : Nat) (w : Worker) : DataBaseService := { s with workers := s.workers.set i w }

def notifyAll (s : DataBaseService) : DataBaseService :=
  { s with workers := s.workers.map fun w => if w = .blocked then .notified else w }

def asyncSubmit (s : DataBaseService) (task : Task) : DataBaseService :=
  { s with queue := s.queue ++ [some task] }.notifyAll

def loop (s : DataBaseService) (i : Nat) : Except Fault DataBaseService :=
  match s.workers[i]? with
  | some .atLoop => .ok (s.setWorker i (if s.running then .atLock else .exited))
  | _ => .error .disabled

/-- Under the lock: take the front of the queue, or wait if it is empty. -/
def popOrWait (s : DataBaseService) (i : Nat) : DataBaseService :=
  match s.queue with
  | [] => s.setWorker i .blocked
  | task :: queue => { s with queue, dequeued := s.dequeued ++ task.toList }.setWorker i (.holding task)

def lock (s : DataBaseService) (i : Nat) : Except Fault DataBaseService :=
  match s.workers[i]? with
  | some .atLock => .ok (s.popOrWait i)
  | some .notified => .ok (s.popOrWait i)
  | _ => .error .disabled

def wake (s : DataBaseService) (i : Nat) : Except Fault DataBaseService :=
  match s.workers[i]? with
  | some .blocked => .ok (s.setWorker i .notified)
  | _ => .error .disabled

def execute (s : DataBaseService) (i : Nat) : Except Fault DataBaseService :=
  match s.workers[i]? with
  | some (.holding task) => .ok ({ s with executed := s.executed ++ task.toList }.setWorker i .atLoop)
  | _ => .error .disabled

def stop (s : DataBaseService) : Except Fault DataBaseService :=
  match s.ending with
  | .serving => .ok { s with running := false, ending := if s.running then .stopping else .stopped }
  | _ => .error .disabled

/-- An empty task for each thread. -/
def stopLocked (s : DataBaseService) : Except Fault DataBaseService :=
  match s.ending with
  | .stopping =>
    .ok { s with queue := s.queue ++ List.replicate s.workers.length none, ending := .stopped }.notifyAll
  | _ => .error .disabled

def waitExit (s : DataBaseService) : Except Fault DataBaseService :=
  match s.ending with
  | .stopped => if ∀ w ∈ s.workers, w = .exited then .ok { s with ending := .joined } else .error .disabled
  | _ => .error .disabled

def executeRemainTask (s : DataBaseService) : Except Fault DataBaseService :=
  match s.ending with
  | .joined =>
    if s.running then .ok { s with ending := .drained }
    else
      let tasks := s.queue.filterMap id
      .ok { s with queue := [], dequeued := s.dequeued ++ tasks, executed := s.executed ++ tasks, ending := .drained }
  | _ => .error .disabled

def step (s : DataBaseService) : Action → Except Fault DataBaseService
  | .asyncSubmit task => .ok (s.asyncSubmit task)
  | .loop i => s.loop i
  | .lock i => s.lock i
  | .wake i => s.wake i
  | .execute i => s.execute i
  | .stop => s.stop
  | .stopLocked => s.stopLocked
  | .waitExit => s.waitExit
  | .executeRemainTask => s.executeRemainTask

end DataBaseService

/-- The tasks whose `asyncSubmit` has returned, in order. -/
def submitted (as : List Action) : List Task :=
  as.filterMap fun
    | .asyncSubmit task => some task
    | _ => none

end Zylib.GameServer
