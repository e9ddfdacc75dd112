import Zylib.Experimental.ThreadPool
import Mathlib.Data.List.Perm.Basic
import Mathlib.Order.Nat
import Mathlib.Tactic.Push

/-! The threads of a `ThreadPool` take the tasks in the order in which they were submitted, and call each of them once, in whatever
    order they run. What is still in the queue when the destructor has joined them is never called. -/

namespace Zylib.Experimental.ThreadPool
open Run

variable {α : Type} {s t : ThreadPool α} {i : ℕ} {w w' : Worker α}

/-! ### Steps -/

/-- What a step of a thread does. -/
theorem work_cases (h : s.work i = .ok t) :
    s.m_threads[i]? = some .testing ∧ t = s.goto i (if s.m_running then .popping else .returned) ∨
    s.m_threads[i]? = some .popping ∧ t = s.goto i .yielding ∨
    (∃ task rest, s.m_threads[i]? = some .popping ∧ s.m_queue = task :: rest ∧
      t = { s.goto i (.calling task) with m_queue := rest, popped := s.popped ++ [task] }) ∨
    (∃ task, s.m_threads[i]? = some (.calling task) ∧ t = { s.goto i .testing with called := s.called ++ [task] }) ∨
    s.m_threads[i]? = some .yielding ∧ t = s.goto i .testing := by
  rw [work] at h
  split at h
  next hw => cases h; exact .inl ⟨hw, rfl⟩
  next hw =>
    split at h
    next => cases h; exact .inr (.inl ⟨hw, rfl⟩)
    next task rest hqueue => cases h; exact .inr (.inr (.inl ⟨task, rest, hw, hqueue, rfl⟩))
  next task hw => cases h; exact .inr (.inr (.inr (.inl ⟨task, hw, rfl⟩)))
  next hw => cases h; exact .inr (.inr (.inr (.inr ⟨hw, rfl⟩)))
  next => cases h
  next => cases h

/-- The tasks whose calls have not ended. -/
def inHand (s : ThreadPool α) : List α := s.m_threads.filterMap Worker.inHand

theorem inHand_goto_perm (h : i < s.m_threads.length) (w : Worker α) :
    (s.goto i w).inHand.Perm (w.inHand.toList ++ (s.m_threads.eraseIdx i).filterMap Worker.inHand) := by
  have hperm := (List.set_perm_cons_eraseIdx h w).filterMap Worker.inHand
  rw [List.filterMap_cons] at hperm
  cases hw : w.inHand <;> simpa [inHand, goto, hw] using hperm

theorem inHand_perm (h : s.m_threads[i]? = some w) :
    s.inHand.Perm (w.inHand.toList ++ (s.m_threads.eraseIdx i).filterMap Worker.inHand) := by
  obtain ⟨hi, rfl⟩ := List.getElem?_eq_some_iff.mp h
  have hgoto := inHand_goto_perm hi s.m_threads[i]
  rwa [goto, List.set_getElem_self] at hgoto

/-- A thread that goes on has the same task in hand, or none. -/
theorem inHand_goto (h : s.m_threads[i]? = some w) (heq : w'.inHand = w.inHand) : (s.goto i w').inHand.Perm s.inHand := by
  have hgoto := inHand_goto_perm (List.getElem?_eq_some_iff.mp h).1 w'
  rw [heq] at hgoto
  exact hgoto.trans (inHand_perm h).symm

theorem inHand_goto_calling (h : s.m_threads[i]? = some w) (hnone : w.inHand = none) (task : α) :
    (s.goto i (.calling task)).inHand.Perm (task :: s.inHand) := by
  have hgoto := inHand_goto_perm (List.getElem?_eq_some_iff.mp h).1 (.calling task)
  have hs := inHand_perm h
  rw [hnone] at hs
  exact hgoto.trans (hs.symm.cons task)

theorem inHand_perm_goto {task : α} (h : s.m_threads[i]? = some (.calling task)) (hnone : w.inHand = none) :
    s.inHand.Perm (task :: (s.goto i w).inHand) := by
  have hgoto := inHand_goto_perm (List.getElem?_eq_some_iff.mp h).1 w
  rw [hnone] at hgoto
  exact (inHand_perm h).trans (hgoto.symm.cons task)

/-! ### The invariant -/

/-- The tasks are taken in the order in which they were submitted, and those that were taken have been called or are in hand. -/
structure Inv (s : ThreadPool α) (submitted : List α) : Prop where
  order : s.popped ++ s.m_queue = submitted
  once : (s.called ++ s.inHand).Perm s.popped

theorem inv_init (thread_count : ℕ) : Inv (init thread_count : ThreadPool α) [] where
  order := rfl
  once := by simp [init, inHand, Worker.inHand]

theorem Inv.step {submitted : List α} {a : Action α} (h : Inv s submitted) (hstep : s.step a = .ok t) :
    Inv t (submitted ++ a.task.toList) := by
  cases a with
  | submit task =>
    cases hstep
    exact ⟨by rw [submit, ← List.append_assoc, h.order]; rfl, h.once⟩
  | destroy =>
    cases hstep
    exact ⟨by simpa [Action.task] using h.order, h.once⟩
  | work i =>
    rw [show Action.task (.work i : Action α) = none from rfl, Option.toList_none, List.append_nil]
    have hgoes {w w' : Worker α} (hw : s.m_threads[i]? = some w) (heq : w'.inHand = w.inHand) : Inv (s.goto i w') submitted :=
      ⟨h.order, ((inHand_goto hw heq).append_left _).trans h.once⟩
    obtain ⟨hw, rfl⟩ | ⟨hw, rfl⟩ | ⟨task, rest, hw, hqueue, rfl⟩ | ⟨task, hw, rfl⟩ | ⟨hw, rfl⟩ := work_cases hstep
    · refine hgoes hw ?_
      cases s.m_running <;> rfl
    · exact hgoes hw rfl
    · refine ⟨?_, ?_⟩
      · rw [← h.order, hqueue, List.append_assoc]
        rfl
      · refine ((inHand_goto_calling hw rfl task).append_left _).trans ?_
        exact List.perm_middle.trans ((h.once.cons task).trans (List.perm_append_singleton task _).symm)
    · refine ⟨h.order, ?_⟩
      have hhand : (s.called ++ s.inHand).Perm (s.called ++ [task] ++ (s.goto i .testing).inHand) := by
        rw [List.append_assoc]
        exact (inHand_perm_goto hw rfl).append_left _
      exact hhand.symm.trans h.once
    · exact hgoes hw rfl

theorem run_inv {submitted : List α} {as : List (Action α)} (h : Inv s submitted) (hrun : run step s as = .ok t) :
    Inv t (submitted ++ as.filterMap Action.task) := by
  induction as generalizing s submitted with
  | nil =>
    cases hrun
    simpa using h
  | cons a as ih =>
    rw [run] at hrun
    split at hrun
    · cases hrun
    · rename_i u hu
      have hinv := ih (h.step hu) hrun
      rw [List.append_assoc] at hinv
      cases htask : a.task <;> simpa [htask] using hinv

theorem inHand_eq_nil (h : s.joined) : s.inHand = [] := by
  rw [inHand, List.filterMap_eq_nil_iff]
  intro w hw
  rw [h w hw]
  rfl

/-- Whatever the threads do, the tasks are taken from the queue in the order in which they were submitted, and none is called twice.
    When the destructor has joined the threads, each task that was taken has been called, and the others never are. -/
theorem run_calls {thread_count : ℕ} {as : List (Action α)} (hrun : run step (init thread_count) as = .ok t) :
    t.popped ++ t.m_queue = as.filterMap Action.task ∧ t.called.Subperm t.popped ∧
      (t.joined → t.called.Perm ((as.filterMap Action.task).take t.popped.length)) := by
  have hinv := run_inv (inv_init thread_count) hrun
  rw [List.nil_append] at hinv
  refine ⟨hinv.order, ?_, fun hjoined => ?_⟩
  · exact (List.sublist_append_left _ _).subperm.trans hinv.once.subperm
  · have honce := hinv.once
    rw [inHand_eq_nil hjoined, List.append_nil] at honce
    rwa [← hinv.order, List.take_left]

/-! ### The destructor -/

/-- So many steps are left to a thread when `m_running` is false, at most. -/
def left : Worker α → ℕ
  | .testing => 1
  | .calling _ | .yielding => 2
  | .popping => 3
  | .returned => 0

def leftOf (s : ThreadPool α) (i : ℕ) : ℕ := (s.m_threads[i]?.map left).getD 0

def isPopping : Worker α → Bool
  | .popping => true
  | _ => false

def poppingCount (s : ThreadPool α) : ℕ := s.m_threads.countP isPopping

theorem left_le (w : Worker α) : left w ≤ 3 := by
  cases w <;> simp [left]

theorem leftOf_eq (h : s.m_threads[i]? = some w) : s.leftOf i = left w := by
  rw [leftOf, h]
  rfl

theorem leftOf_goto (h : s.m_threads[i]? = some w) (w' : Worker α) (j : ℕ) :
    (s.goto i w').leftOf j = if i = j then left w' else s.leftOf j := by
  have hi := (List.getElem?_eq_some_iff.mp h).1
  rw [leftOf, goto, List.getElem?_set]
  split_ifs <;> rfl

theorem poppingCount_goto (h : s.m_threads[i]? = some w) (w' : Worker α) :
    (s.goto i w').poppingCount = s.poppingCount - (if isPopping w then 1 else 0) + (if isPopping w' then 1 else 0) := by
  obtain ⟨hi, rfl⟩ := List.getElem?_eq_some_iff.mp h
  exact List.countP_set hi

theorem poppingCount_pos (h : s.m_threads[i]? = some .popping) : 0 < s.poppingCount :=
  List.countP_pos_iff.mpr ⟨_, List.mem_of_getElem? h, rfl⟩

/-- A step after the begin of the destructor. No thread comes to the queue any more. -/
theorem destroyed_step {a : Action α} (hrunning : s.m_running = false) (hstep : s.step a = .ok t) :
    t.m_running = false ∧ (∀ j, t.leftOf j + (if a.thread = some j then 1 else 0) ≤ s.leftOf j) ∧
      t.popped.length + t.poppingCount ≤ s.popped.length + s.poppingCount := by
  cases a with
  | submit task =>
    cases hstep
    exact ⟨hrunning, fun j => le_rfl, le_rfl⟩
  | destroy =>
    cases hstep
    exact ⟨rfl, fun j => le_rfl, le_rfl⟩
  | work i =>
    have hleft {w w' : Worker α} (hw : s.m_threads[i]? = some w) (hlt : left w' + 1 ≤ left w) (j : ℕ) :
        (s.goto i w').leftOf j + (if (Action.work i : Action α).thread = some j then 1 else 0) ≤ s.leftOf j := by
      rw [leftOf_goto hw]
      by_cases hij : i = j
      · subst hij
        simpa [Action.thread, leftOf_eq hw] using hlt
      · simp [Action.thread, hij]
    obtain ⟨hw, rfl⟩ | ⟨hw, rfl⟩ | ⟨task, rest, hw, hqueue, rfl⟩ | ⟨task, hw, rfl⟩ | ⟨hw, rfl⟩ := work_cases hstep
    · rw [hrunning]
      exact ⟨hrunning, hleft hw le_rfl, by rw [poppingCount_goto hw]; exact le_rfl⟩
    · exact ⟨hrunning, hleft hw le_rfl, by rw [poppingCount_goto hw]; simp [isPopping, goto]⟩
    · refine ⟨hrunning, hleft hw le_rfl, ?_⟩
      have hpos := poppingCount_pos hw
      have hcount := poppingCount_goto hw (.calling task)
      simp only [isPopping, if_true, Bool.false_eq_true, if_false, Nat.add_zero] at hcount
      change (s.popped ++ [task]).length + (s.goto i (.calling task)).poppingCount ≤ _
      rw [hcount, List.length_append, List.length_singleton]
      omega
    · refine ⟨hrunning, hleft hw le_rfl, ?_⟩
      change s.popped.length + (s.goto i .testing).poppingCount ≤ _
      rw [poppingCount_goto hw]
      exact le_rfl
    · exact ⟨hrunning, hleft hw le_rfl, by rw [poppingCount_goto hw]; exact le_rfl⟩

theorem destroyed_run {as : List (Action α)} (hrunning : s.m_running = false) (hrun : run step s as = .ok t) :
    (∀ i, t.leftOf i + as.countP (·.thread = some i) ≤ s.leftOf i) ∧
      t.popped.length + t.poppingCount ≤ s.popped.length + s.poppingCount := by
  induction as generalizing s with
  | nil =>
    cases hrun
    exact ⟨fun i => le_rfl, le_rfl⟩
  | cons a as ih =>
    rw [run] at hrun
    split at hrun
    · cases hrun
    · rename_i u hu
      obtain ⟨hu', hleft, hpopped⟩ := destroyed_step hrunning hu
      obtain ⟨hleft', hpopped'⟩ := ih hu' hrun
      refine ⟨fun i => ?_, hpopped'.trans hpopped⟩
      have h := hleft i
      have h' := hleft' i
      rw [List.countP_cons]
      simp only [decide_eq_true_eq] at h' ⊢
      omega

theorem step_length {a : Action α} (hstep : s.step a = .ok t) : t.m_threads.length = s.m_threads.length := by
  cases a with
  | submit | destroy => cases hstep; rfl
  | work i =>
    obtain ⟨-, rfl⟩ | ⟨-, rfl⟩ | ⟨_, _, -, -, rfl⟩ | ⟨_, -, rfl⟩ | ⟨-, rfl⟩ := work_cases hstep <;> exact List.length_set

/-- Two threads, three tasks; the first thread takes a task after the destructor has begun, and the last task is never called. -/
theorem run_calls_two : ∃ t, run step (init 2 : ThreadPool ℕ) [.submit 5, .submit 6, .work 0, .work 1, .work 1, .submit 7, .destroy,
      .work 0, .work 1, .work 0, .work 0, .work 1] = .ok t ∧ t.joined ∧
    (t.popped ++ t.m_queue = [5, 6, 7] ∧ t.called.Subperm t.popped ∧ (t.joined → t.called.Perm ([5, 6, 7].take t.popped.length))) :=
  ⟨_, rfl, by unfold joined; decide, run_calls (show run step (init 2) [.submit 5, .submit 6, .work 0, .work 1, .work 1, .submit 7,
    .destroy, .work 0, .work 1, .work 0, .work 0, .work 1] = .ok _ from rfl)⟩

end Zylib.Experimental.ThreadPool
