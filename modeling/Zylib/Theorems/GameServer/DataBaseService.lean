import Zylib.GameServer.DataBaseService
import Zylib.Lib.Lists
import Mathlib.Data.List.Count

/-! The end of `DataBaseService`. Once `stop` has returned, the queue is at least as long as there are workers that have
    tested `m_running` and not yet taken anything from it, so each of these finds something to take and then exits. -/

namespace Zylib.GameServer
open Run

/-- Past the test of `m_running`, with nothing taken from the queue yet. -/
def Worker.isPending : Worker → Bool
  | .atLock => true
  | .blocked => true
  | .notified => true
  | _ => false

/-- On the condition. -/
def Worker.isWaiting : Worker → Bool
  | .blocked => true
  | .notified => true
  | _ => false

/-- What a worker has taken and not executed. -/
def Worker.tasks : Worker → List Task
  | .holding task => task.toList
  | _ => []

def Ending.hasStopped : Ending → Bool
  | .serving => false
  | .stopping => false
  | _ => true

def Ending.hasJoined : Ending → Bool
  | .joined => true
  | .drained => true
  | _ => false

namespace DataBaseService

variable {past as : List Action} {a : Action} {s t : DataBaseService} {i : Nat} {w v : Worker}

/-- What holds after the steps `past`. -/
structure Inv (past : List Action) (s : DataBaseService) : Prop where
  order : s.dequeued ++ s.queue.filterMap id = submitted past
  done : (s.executed ++ s.workers.flatMap Worker.tasks).Perm s.dequeued
  blocked : .blocked ∈ s.workers → s.queue = []
  running : s.running = true ↔ s.ending = .serving
  enough : s.ending.hasStopped = true → s.workers.countP Worker.isPending ≤ s.queue.length
  exited : s.ending.hasJoined = true → ∀ w ∈ s.workers, w = .exited

theorem submitted_concat (past : List Action) (a : Action) : submitted (past ++ [a]) = submitted past ++ submitted [a] :=
  List.filterMap_append ..

/-- One worker goes on. It executes what it had taken and takes what it has then, and the queue stays long enough. -/
theorem Inv.worker (hI : Inv past s) (hw : s.workers[i]? = some w) (hexited : w ≠ .exited)
    (hworkers : t.workers = s.workers.set i v) (hexecuted : t.executed = s.executed ++ w.tasks)
    (hdequeued : t.dequeued = s.dequeued ++ v.tasks) (hqueue : s.queue.filterMap id = v.tasks ++ t.queue.filterMap id)
    (hblocked : v = .blocked ∨ .blocked ∈ s.workers → t.queue = [])
    (henough : s.ending.hasStopped = true →
      s.queue.length + (if v.isPending then 1 else 0) ≤ t.queue.length + (if w.isPending then 1 else 0))
    (hrunning : t.running = s.running) (hending : t.ending = s.ending) : Inv past t := by
  obtain ⟨rest, hold, hnew⟩ := Lists.perm_of_set hw v
  rw [← hworkers] at hnew
  constructor
  · rw [hdequeued, List.append_assoc, ← hqueue]
    exact hI.order
  · have hmoved : (v.tasks ++ rest.flatMap Worker.tasks).Perm (rest.flatMap Worker.tasks ++ v.tasks) := List.perm_append_comm
    have hkept : (s.executed ++ (w.tasks ++ rest.flatMap Worker.tasks)).Perm s.dequeued :=
      ((hold.flatMap_right Worker.tasks).symm.append_left s.executed).trans hI.done
    rw [hexecuted, hdequeued]
    refine ((hnew.flatMap_right Worker.tasks).append_left _).trans ((hmoved.append_left _).trans ?_)
    rw [← List.append_assoc, List.append_assoc s.executed]
    exact hkept.append_right _
  · intro hmem
    rcases List.mem_or_eq_of_mem_set (hworkers ▸ hmem) with hmem | heq
    · exact hblocked (.inr hmem)
    · exact hblocked (.inl heq.symm)
  · rw [hrunning, hending]
    exact hI.running
  · intro hstopped
    rw [hending] at hstopped
    have hs := hI.enough hstopped
    have hle := henough hstopped
    rw [hold.countP_eq, List.countP_cons] at hs
    rw [hnew.countP_eq, List.countP_cons]
    omega
  · intro hj
    rw [hending] at hj
    exact absurd (hI.exited hj w (List.mem_of_getElem? hw)) hexited

/-- To wake the waiting workers changes no more than that. -/
theorem notifyAll_workers (ws : List Worker) :
    .blocked ∉ ws.map (fun w => if w = .blocked then .notified else w) ∧
      (ws.map fun w => if w = .blocked then .notified else w).flatMap Worker.tasks = ws.flatMap Worker.tasks ∧
      (ws.map fun w => if w = .blocked then .notified else w).countP Worker.isPending = ws.countP Worker.isPending := by
  refine ⟨fun h => ?_, ?_, ?_⟩
  · obtain ⟨w, -, heq⟩ := List.mem_map.mp h
    split at heq
    · cases heq
    · rename_i hne
      exact hne heq
  · rw [List.flatMap_map]
    refine List.flatMap_congr fun w _ => ?_
    cases w <;> rfl
  · rw [List.countP_map]
    refine List.countP_congr fun w _ => ?_
    cases w <;> rfl

theorem submitted_of_ne_submit (h : ∀ task, a ≠ .asyncSubmit task) : submitted (past ++ [a]) = submitted past := by
  rw [submitted_concat]
  cases a with
  | asyncSubmit task => exact absurd rfl (h task)
  | _ => exact List.append_nil _

/-- What the steps are that submit nothing. -/
theorem Inv.concat (hI : Inv past s) (h : ∀ task, a ≠ .asyncSubmit task) : Inv (past ++ [a]) s :=
  { hI with order := hI.order.trans (submitted_of_ne_submit h).symm }

theorem inv_asyncSubmit (hI : Inv past s) (task : Task) : Inv (past ++ [.asyncSubmit task]) (s.asyncSubmit task) := by
  obtain ⟨hblocked, htasks, hpending⟩ := notifyAll_workers s.workers
  refine { hI with
    order := ?_, done := ?_, blocked := fun h => absurd h hblocked, enough := fun hstopped => ?_, exited := fun hj w hw => ?_ }
  · have horder := hI.order
    rw [submitted_concat, ← horder, List.append_assoc]
    exact congrArg _ (List.filterMap_append ..)
  · exact htasks ▸ hI.done
  · have henough := hI.enough hstopped
    show (s.workers.map _).countP _ ≤ (s.queue ++ [some task]).length
    rw [hpending, List.length_append]
    omega
  · obtain ⟨v, hw', rfl⟩ := List.mem_map.mp hw
    rw [hI.exited hj v hw']
    rfl

theorem inv_loop (hI : Inv past s) (h : s.loop i = .ok t) : Inv past t := by
  unfold loop at h
  split at h
  · rename_i hw
    cases h
    cases hr : s.running with
    | true =>
      have hserving := hI.running.mp hr
      refine hI.worker hw (v := .atLock) (by decide) rfl (List.append_nil _).symm (List.append_nil _).symm rfl
        (fun h => ?_) (fun hstopped => ?_) rfl rfl
      · exact hI.blocked (h.resolve_left (by decide))
      · rw [hserving] at hstopped
        cases hstopped
    | false =>
      refine hI.worker hw (v := .exited) (by decide) rfl (List.append_nil _).symm (List.append_nil _).symm rfl
        (fun h => ?_) (fun _ => Nat.le_refl _) rfl rfl
      exact hI.blocked (h.resolve_left (by decide))
  · cases h

/-- A worker that has the lock takes the front of the queue, or waits. -/
theorem inv_popOrWait (hI : Inv past s) (hw : s.workers[i]? = some w) (hpending : w.isPending = true) (htasks : w.tasks = []) :
    Inv past (s.popOrWait i) := by
  have hexited : w ≠ .exited := by
    rintro rfl
    cases hpending
  have hexecuted : s.executed = s.executed ++ w.tasks := by rw [htasks, List.append_nil]
  unfold popOrWait
  split
  · rename_i hqueue
    refine hI.worker hw (v := .blocked) hexited rfl hexecuted (List.append_nil _).symm rfl (fun _ => hqueue)
      (fun _ => ?_) rfl rfl
    rw [if_pos hpending]
    exact Nat.le_refl _
  · rename_i task queue hqueue
    refine hI.worker hw (v := .holding task) hexited rfl hexecuted rfl ?_ (fun h => ?_) (fun _ => ?_) rfl rfl
    · rw [hqueue]
      cases task <;> rfl
    · cases hqueue.symm.trans (hI.blocked (h.resolve_left (by simp)))
    · rw [if_pos hpending, hqueue]
      exact Nat.le_refl _

theorem inv_lock (hI : Inv past s) (h : s.lock i = .ok t) : Inv past t := by
  unfold lock at h
  split at h
  · rename_i hw
    cases h
    exact inv_popOrWait hI hw rfl rfl
  · rename_i hw
    cases h
    exact inv_popOrWait hI hw rfl rfl
  · cases h

theorem inv_wake (hI : Inv past s) (h : s.wake i = .ok t) : Inv past t := by
  unfold wake at h
  split at h
  · rename_i hw
    cases h
    refine hI.worker hw (v := .notified) (by decide) rfl (List.append_nil _).symm (List.append_nil _).symm rfl
      (fun h => ?_) (fun _ => Nat.le_refl _) rfl rfl
    exact hI.blocked (h.resolve_left (by decide))
  · cases h

theorem inv_execute (hI : Inv past s) (h : s.execute i = .ok t) : Inv past t := by
  unfold execute at h
  split at h
  · rename_i task hw
    cases h
    refine hI.worker hw (v := .atLoop) (by simp) rfl rfl (List.append_nil _).symm rfl (fun h => ?_) (fun _ => Nat.le_refl _)
      rfl rfl
    exact hI.blocked (h.resolve_left (by decide))
  · cases h

theorem inv_stop (hI : Inv past s) (h : s.stop = .ok t) : Inv past t := by
  unfold stop at h
  split at h
  · rename_i hserving
    cases h
    rw [hI.running.mpr hserving, if_pos rfl]
    exact { hI with
      running := ⟨fun h => (by cases h), fun h => (by cases h)⟩
      enough := fun h => by cases h
      exited := fun h => by cases h }
  · cases h

/-- For each worker there is an empty task. -/
theorem inv_stopLocked (hI : Inv past s) (h : s.stopLocked = .ok t) : Inv past t := by
  unfold stopLocked at h
  split at h
  · rename_i hstopping
    cases h
    obtain ⟨hblocked, htasks, hpending⟩ := notifyAll_workers s.workers
    refine { hI with
      order := ?_, done := htasks ▸ hI.done, blocked := fun h => absurd h hblocked
      running := ?_, enough := fun _ => ?_, exited := fun h => by cases h }
    · have horder := hI.order
      have hempty : (List.replicate s.workers.length (none : Option Task)).filterMap id = [] := by simp
      show s.dequeued ++ (s.queue ++ _).filterMap id = _
      rw [List.filterMap_append, hempty, List.append_nil, horder]
    · refine ⟨fun h => ?_, fun h => by cases h⟩
      cases hstopping.symm.trans (hI.running.mp h)
    · have hle := List.countP_le_length (p := Worker.isPending) (l := s.workers)
      show (s.workers.map _).countP _ ≤ (s.queue ++ List.replicate s.workers.length none).length
      rw [hpending, List.length_append, List.length_replicate]
      omega
  · cases h

theorem inv_waitExit (hI : Inv past s) (h : s.waitExit = .ok t) : Inv past t := by
  unfold waitExit at h
  split at h
  · rename_i hstopped
    split at h
    · rename_i hexited
      cases h
      refine { hI with running := ⟨fun h => ?_, fun h => (by cases h)⟩, enough := fun _ => ?_, exited := fun _ => hexited }
      · cases hstopped.symm.trans (hI.running.mp h)
      · exact hI.enough (by rw [hstopped]; rfl)
    · cases h
  · cases h

/-- What `executeRemainTask` leaves. -/
structure Drained (past : List Action) (s : DataBaseService) : Prop where
  queue : s.queue = []
  executed : s.executed.Perm (submitted past)

theorem drained_executeRemainTask (hI : Inv past s) (h : s.executeRemainTask = .ok t) : Inv past t ∧ Drained past t := by
  unfold executeRemainTask at h
  split at h
  · rename_i hjoined
    have hexited := hI.exited (by rw [hjoined]; rfl)
    have hnone : s.workers.flatMap Worker.tasks = [] := by
      refine List.flatMap_eq_nil_iff.mpr fun w hw => ?_
      rw [hexited w hw]
      rfl
    have hdone := hI.done
    rw [hnone, List.append_nil] at hdone
    have hstopped : ¬s.running = true := fun h => by cases hjoined.symm.trans (hI.running.mp h)
    rw [if_neg hstopped] at h
    cases h
    have hall := hdone.append_right (s.queue.filterMap id)
    refine ⟨⟨?_, ?_, fun _ => rfl, ?_, fun _ => ?_, fun _ => hexited⟩, rfl, hI.order ▸ hall⟩
    · exact (List.append_nil _).trans hI.order
    · show (s.executed ++ _ ++ s.workers.flatMap _).Perm _
      rw [hnone, List.append_nil]
      exact hall
    · exact ⟨fun h => absurd h hstopped, fun h => by cases h⟩
    · show s.workers.countP _ ≤ 0
      refine Nat.le_of_eq (List.countP_eq_zero.mpr fun w hw => ?_)
      rw [hexited w hw]
      exact Bool.false_ne_true
  · cases h

theorem inv_step (hI : Inv past s) (h : step s a = .ok t) : Inv (past ++ [a]) t := by
  cases a with
  | asyncSubmit task =>
    cases h
    exact inv_asyncSubmit hI task
  | loop i => exact (inv_loop hI h).concat fun _ h => by cases h
  | lock i => exact (inv_lock hI h).concat fun _ h => by cases h
  | wake i => exact (inv_wake hI h).concat fun _ h => by cases h
  | execute i => exact (inv_execute hI h).concat fun _ h => by cases h
  | stop => exact (inv_stop hI h).concat fun _ h => by cases h
  | stopLocked => exact (inv_stopLocked hI h).concat fun _ h => by cases h
  | waitExit => exact (inv_waitExit hI h).concat fun _ h => by cases h
  | executeRemainTask => exact (drained_executeRemainTask hI h).1.concat fun _ h => by cases h

theorem inv_init (n : Nat) : Inv [] (init n) where
  order := rfl
  done := by simp [init, Worker.tasks]
  blocked h := by cases (List.mem_replicate.mp h).2
  running := ⟨fun _ => rfl, fun _ => rfl⟩
  enough h := by cases h
  exited h := by cases h

theorem inv_run {n : Nat} (h : run step (init n) as = .ok s) : Inv as s :=
  run_history [] (fun hI _ => inv_step hI) (inv_init n) (along_true _ as) h

theorem Worker.isPending_of_isWaiting (h : w.isWaiting = true) : w.isPending = true := by
  cases w <;> first | rfl | cases h

/-- The tasks are taken in the order of the calls; once `stop` has returned, there is something to take for each worker on
    the condition, and none that was not notified; and after the last step every task has been executed once. -/
theorem ended {n : Nat} (h : run step (init n) as = .ok s) :
    s.dequeued <+: submitted as ∧
      (s.ending.hasStopped = true → .blocked ∉ s.workers ∧ ∀ w ∈ s.workers, w.isWaiting = true → s.queue ≠ []) ∧
      ∀ past, as = past ++ [.executeRemainTask] → Drained past s := by
  have hI := inv_run h
  refine ⟨⟨_, hI.order⟩, fun hstopped => ?_, ?_⟩
  · have hwaiting : ∀ w ∈ s.workers, w.isWaiting = true → s.queue ≠ [] := by
      intro w hw hwaiting hnil
      have hpos := List.countP_pos_iff.mpr ⟨w, hw, Worker.isPending_of_isWaiting hwaiting⟩
      have henough := hI.enough hstopped
      rw [hnil, List.length_nil] at henough
      omega
    exact ⟨fun hmem => hwaiting _ hmem rfl (hI.blocked hmem), hwaiting⟩
  · rintro past rfl
    obtain ⟨u, hu, hstep⟩ := exists_of_run_append h
    rw [run] at hstep
    split at hstep
    · cases hstep
    · rename_i v hv
      cases hstep
      exact (drained_executeRemainTask (inv_run hu) hv).2

/-- Two workers, one of which waits while the other has not yet seen that the service has stopped. -/
theorem ended_two :
    let past : List Action := [.loop 0, .lock 0, .asyncSubmit 7, .lock 0, .asyncSubmit 8, .loop 1, .stop, .asyncSubmit 9,
      .execute 0, .stopLocked, .lock 1, .loop 0, .execute 1, .loop 1, .waitExit]
    ∃ s, run step (init 2) (past ++ [.executeRemainTask]) = .ok s ∧ Drained past s := by
  intro past
  have h : run step (init 2) (past ++ [.executeRemainTask]) =
      .ok ⟨false, [], [.exited, .exited], .drained, [7, 8, 9], [7, 8, 9]⟩ := rfl
  exact ⟨_, h, (ended h).2.2 past rfl⟩

end DataBaseService

end Zylib.GameServer
