import Zylib.GameServer.TimerService

/-! Each timer of `TimerService` runs once, in the first heartbeat after its time is over, and the timers of a heartbeat
    run in the order of their deadlines, whatever timers the callbacks add meanwhile. -/

namespace Zylib.GameServer

/-- The sum of the diffs of all heartbeats at which the time of the timer is over. -/
def AddedTimer.deadline (diffs : List Nat) (a : AddedTimer) : Nat := (diffs.take a.since).sum + a.tk

namespace TimerService
open Run

/-- The sum of the diffs of the heartbeats after the first `since`, up to the one with the number `k`. -/
def elapsed (s : TimerService) (since k : Nat) : Nat := ((s.diffs.take k).drop since).sum

/-- The heartbeat with the number `k` is the first one after the timer was added till which its time has passed. -/
structure FirstDue (s : TimerService) (a : AddedTimer) (k : Nat) : Prop where
  later : a.since < k
  begun : k ≤ s.diffs.length
  due : a.tk ≤ s.elapsed a.since k
  first : ∀ j, a.since < j → j < k → s.elapsed a.since j < a.tk

/-- What is to hold of the callbacks that ran. -/
structure Punctual (s : TimerService) : Prop where
  once : (s.called.map Prod.snd).Nodup
  due : ∀ k i, (k, i) ∈ s.called ↔ ∃ a, s.added[i]? = some a ∧ s.FirstDue a k
  ordered : s.called.Pairwise fun x y => x.1 = y.1 → ∀ a b, s.added[x.2]? = some a → s.added[y.2]? = some b →
    a.deadline s.diffs ≤ b.deadline s.diffs

/-- Time passes in each heartbeat, and what `m_time_passed` counts stays below `2 ^ 32`. -/
def Bounded (s : TimerService) : Action → Prop
  | .addTimer _ => True
  | .heartbeat diff => 0 < diff ∧ s.timePassed + diff < 2 ^ 32

instance (s : TimerService) : DecidablePred s.Bounded
  | .addTimer _ => .isTrue trivial
  | .heartbeat _ => inferInstanceAs (Decidable (_ ∧ _))

variable {s t : TimerService} {before rest : List TimerTask} {it : TimerTask} {a : AddedTimer} {k i d tk : Nat}

/-! ### The first heartbeat -/

theorem sum_take_eq (h : a.since ≤ k) : (s.diffs.take k).sum = (s.diffs.take a.since).sum + s.elapsed a.since k := by
  have hsum : ((s.diffs.take k).take a.since ++ (s.diffs.take k).drop a.since).sum =
      ((s.diffs.take k).take a.since).sum + ((s.diffs.take k).drop a.since).sum := List.sum_append
  rwa [List.take_append_drop, List.take_take, Nat.min_eq_left h] at hsum

theorem firstDue_iff : s.FirstDue a k ↔ a.since < k ∧ k ≤ s.diffs.length ∧ a.deadline s.diffs ≤ (s.diffs.take k).sum ∧
    ∀ j, a.since < j → j < k → (s.diffs.take j).sum < a.deadline s.diffs := by
  have hsum : ∀ {j}, a.since < j → (s.diffs.take j).sum = (s.diffs.take a.since).sum + s.elapsed a.since j :=
    fun h => sum_take_eq (Nat.le_of_lt h)
  unfold AddedTimer.deadline
  constructor
  · rintro ⟨hlater, hbegun, hdue, hfirst⟩
    refine ⟨hlater, hbegun, ?_, fun j hj hjk => ?_⟩
    · rw [hsum hlater]
      exact Nat.add_le_add_left hdue _
    · rw [hsum hj]
      exact Nat.add_lt_add_left (hfirst j hj hjk) _
  · rintro ⟨hlater, hbegun, hdue, hfirst⟩
    refine ⟨hlater, hbegun, ?_, fun j hj hjk => ?_⟩
    · rw [hsum hlater] at hdue
      exact Nat.le_of_add_le_add_left hdue
    · have := hfirst j hj hjk
      rw [hsum hj] at this
      exact Nat.lt_of_add_lt_add_left this

/-- A timer whose first heartbeat has not come has its deadline ahead of all heartbeats since it was added. -/
theorem lt_deadline_of_forall (h : ∀ k, ¬s.FirstDue a k) (hk : a.since < k) (hlen : k ≤ s.diffs.length) :
    (s.diffs.take k).sum < a.deadline s.diffs := by
  induction k using Nat.strong_induction_on with
  | _ k ih =>
    by_contra hnot
    refine h k (firstDue_iff.mpr ⟨hk, hlen, Nat.not_lt.mp hnot, fun j hj hjk => ?_⟩)
    exact ih j hjk hj (Nat.le_trans (Nat.le_of_lt hjk) hlen)

theorem deadline_concat (h : a.since ≤ s.diffs.length) (diff : Nat) :
    a.deadline (s.diffs ++ [diff]) = a.deadline s.diffs := by
  unfold AddedTimer.deadline
  rw [List.take_append_of_le_length h]

/-! ### The tasks -/

/-- The numbers and deadlines of tasks. -/
def ids (ts : List TimerTask) : List (Nat × Nat) := ts.map fun t => (t.number, t.deadline)

theorem mem_ids {ts : List TimerTask} (h : it ∈ ts) : (it.number, it.deadline) ∈ ids ts :=
  List.mem_map_of_mem (f := fun t : TimerTask => (t.number, t.deadline)) h

theorem perm_ids {ts us : List TimerTask} (h : ts.Perm us) : (ids ts).Perm (ids us) := h.map _

/-- The tasks are the timers that were added and have not been called. -/
structure Tasks (s : TimerService) (l : List (Nat × Nat)) : Prop where
  numbers : (l.map Prod.fst).Nodup
  known : ∀ p ∈ l, ∃ a, s.added[p.1]? = some a ∧ p.2 = a.deadline s.diffs
  members : ∀ i < s.added.length, (∃ d, (i, d) ∈ l) ↔ ∀ k, (k, i) ∉ s.called
  called : ∀ k i, (k, i) ∈ s.called → i < s.added.length
  since : ∀ a ∈ s.added, a.since ≤ s.diffs.length

theorem Tasks.perm {l l' : List (Nat × Nat)} (h : Tasks s l) (hperm : l.Perm l') : Tasks s l' where
  numbers := (hperm.map Prod.fst).nodup_iff.mp h.numbers
  known := fun p hp => h.known p (hperm.mem_iff.mpr hp)
  members := fun i hi => (exists_congr fun _ => hperm.mem_iff.symm).trans (h.members i hi)
  called := h.called
  since := h.since

theorem Tasks.lt_length {l : List (Nat × Nat)} (h : Tasks s l) {p : Nat × Nat} (hp : p ∈ l) : p.1 < s.added.length := by
  obtain ⟨a, ha, -⟩ := h.known p hp
  exact (List.getElem?_eq_some_iff.mp ha).1

theorem Tasks.deadline_eq {l : List (Nat × Nat)} (h : Tasks s l) {p : Nat × Nat} (hp : p ∈ l)
    (ha : s.added[p.1]? = some a) : p.2 = a.deadline s.diffs := by
  obtain ⟨b, hb, heq⟩ := h.known p hp
  obtain rfl : b = a := Option.some.inj (hb.symm.trans ha)
  exact heq

/-- A timer is added; none with its number was called. -/
theorem Tasks.add {l : List (Nat × Nat)} (h : Tasks s l) (tk : Nat)
    (ts : List TimerTask) (timePassed : Nat) :
    Tasks { s with timePassed, timers := ts, added := s.added ++ [⟨s.diffs.length, tk⟩] }
      ((s.added.length, s.now + tk) :: l) where
  numbers := by
    refine List.nodup_cons.mpr ⟨fun hmem => ?_, h.numbers⟩
    obtain ⟨p, hp, heq⟩ := List.mem_map.mp hmem
    exact Nat.lt_irrefl _ (heq ▸ h.lt_length hp)
  known := by
    intro p hp
    rcases List.mem_cons.mp hp with rfl | hp
    · refine ⟨_, List.getElem?_concat_length, ?_⟩
      simp only [AddedTimer.deadline, List.take_length, now]
    · obtain ⟨a, ha, hd⟩ := h.known p hp
      exact ⟨a, (List.getElem?_append_left (h.lt_length hp)).trans ha, hd⟩
  members := by
    intro i hi
    rw [List.length_append, List.length_singleton] at hi
    rcases Nat.lt_succ_iff_lt_or_eq.mp hi with hi | rfl
    · rw [← h.members i hi]
      refine exists_congr fun d => List.mem_cons.trans (or_iff_right fun heq => ?_)
      exact absurd (congrArg Prod.fst heq) (Nat.ne_of_lt hi)
    · exact iff_of_true ⟨_, List.mem_cons_self⟩ fun k hk => Nat.lt_irrefl _ (h.called k _ hk)
  called := by
    intro k i hi
    rw [List.length_append]
    exact Nat.lt_add_right _ (h.called k i hi)
  since := by
    intro a ha
    rcases List.mem_append.mp ha with ha | ha
    · exact h.since a ha
    · rw [List.mem_singleton.mp ha]

/-- A timer is called. -/
theorem Tasks.call {l : List (Nat × Nat)} {p : Nat × Nat} (h : Tasks s (p :: l)) (k : Nat) (ts : List TimerTask) :
    Tasks { s with timers := ts, called := s.called ++ [(k, p.1)] } l where
  numbers := (List.nodup_cons.mp h.numbers).2
  known := fun q hq => h.known q (List.mem_cons_of_mem _ hq)
  members := by
    intro i hi
    have hnot : p.1 ∉ l.map Prod.fst := (List.nodup_cons.mp h.numbers).1
    have hmembers := h.members i hi
    simp only [List.mem_append, List.mem_singleton, not_or, forall_and, Prod.mk.injEq, not_and]
    constructor
    · rintro ⟨d, hd⟩
      refine ⟨hmembers.mp ⟨d, List.mem_cons_of_mem _ hd⟩, fun k' _ heq => hnot ?_⟩
      exact heq ▸ List.mem_map_of_mem hd
    · rintro ⟨hcalled, hne⟩
      obtain ⟨d, hd⟩ := hmembers.mpr hcalled
      refine ⟨d, (List.mem_cons.mp hd).resolve_left fun heq => hne k rfl ?_⟩
      exact congrArg Prod.fst heq
  called := by
    intro k' i hi
    rcases List.mem_append.mp hi with hi | hi
    · exact h.called k' i hi
    · cases List.mem_singleton.mp hi
      exact h.lt_length List.mem_cons_self
  since := h.since

/-- A heartbeat begins. -/
theorem Tasks.begin {l : List (Nat × Nat)} (h : Tasks s l) (diff timePassed : Nat) :
    Tasks { s with timePassed, diffs := s.diffs ++ [diff] } l where
  numbers := h.numbers
  known := by
    intro p hp
    obtain ⟨a, ha, hd⟩ := h.known p hp
    exact ⟨a, ha, hd.trans (deadline_concat (h.since a (List.mem_of_getElem? ha)) diff).symm⟩
  members := h.members
  called := h.called
  since := by
    intro a ha
    have := h.since a ha
    simp only [List.length_append, List.length_singleton]
    omega

/-! ### Lists of tasks -/

theorem rotateTask_eq (timePassed : Nat) (t : TimerTask) : rotateTask timePassed t = { t with time := t.time - timePassed } := by
  unfold rotateTask
  split
  · rename_i h
    rw [Nat.sub_eq_zero_of_le h]
  · rfl

/-- What `addTimer` makes of the list: the time that passed is taken from all timers. -/
theorem addTimer_eq (s : TimerService) (tk : Nat) :
    s.addTimer tk = { s with
      timePassed := 0
      timers := (s.timers.map (rotateTask s.timePassed)).orderedInsert (fun val it => val.time ≤ it.time)
        ⟨s.added.length, s.now + tk, tk⟩
      added := s.added ++ [⟨s.diffs.length, tk⟩] } := by
  unfold addTimer timerRotation
  by_cases h : s.timePassed = 0
  · have hmap : s.timers.map (rotateTask 0) = s.timers := by
      conv_rhs => rw [← List.map_id s.timers]
      refine List.map_congr_left fun t _ => ?_
      rw [rotateTask_eq]
      rfl
    simp [h, hmap, now]
  · simp [h, now]

theorem ids_map_rotateTask (timePassed : Nat) (ts : List TimerTask) : ids (ts.map (rotateTask timePassed)) = ids ts := by
  unfold ids
  rw [List.map_map]
  refine List.map_congr_left fun t _ => ?_
  simp [rotateTask_eq]

/-- The numbers of the tasks whose time is over, in order. -/
def dueNumbers (now : Nat) (ts : List TimerTask) : List Nat := (ts.filter (·.deadline ≤ now)).map (·.number)

theorem dueNumbers_map_rotateTask (now timePassed : Nat) (ts : List TimerTask) :
    dueNumbers now (ts.map (rotateTask timePassed)) = dueNumbers now ts := by
  induction ts with
  | nil => rfl
  | cons t ts ih =>
    simp only [dueNumbers, List.map_cons, List.filter_cons, rotateTask_eq] at ih ⊢
    split <;> simp [ih]

theorem dueNumbers_orderedInsert {now : Nat} {val : TimerTask} (h : now < val.deadline) (ts : List TimerTask) :
    dueNumbers now (ts.orderedInsert (fun val it => val.time ≤ it.time) val) = dueNumbers now ts := by
  unfold dueNumbers
  rw [List.orderedInsert_eq_take_drop, List.filter_append, List.filter_cons_of_neg (by simpa using h), ← List.filter_append,
    List.takeWhile_append_dropWhile]

/-- A task is inserted after those with less time left. -/
theorem orderedInsert_append {val : TimerTask} {ts : List TimerTask} (h : ∀ t ∈ ts, t.time < val.time) (us : List TimerTask) :
    (ts ++ us).orderedInsert (fun val it => val.time ≤ it.time) val =
      ts ++ us.orderedInsert (fun val it => val.time ≤ it.time) val := by
  induction ts with
  | nil => rfl
  | cons t ts ih =>
    rw [List.cons_append, List.orderedInsert_cons, if_neg (Nat.not_le.mpr (h t List.mem_cons_self)),
      ih fun t ht => h t (List.mem_cons_of_mem _ ht), List.cons_append]

/-- A task is inserted where the times say; this is where a key that orders it against the others the same way says. -/
theorem sorted_orderedInsert {val : TimerTask} {ts : List TimerTask} (key : TimerTask → Nat)
    (h : ∀ t ∈ ts, val.time ≤ t.time ↔ key val ≤ key t) (hsorted : ts.Pairwise (key · ≤ key ·)) :
    (ts.orderedInsert (fun val it => val.time ≤ it.time) val).Pairwise (key · ≤ key ·) := by
  induction ts with
  | nil => exact List.pairwise_singleton _ _
  | cons t ts ih =>
    have hts := List.pairwise_cons.mp hsorted
    by_cases hle : val.time ≤ t.time
    · rw [List.orderedInsert_cons, if_pos hle]
      have hval := (h t List.mem_cons_self).mp hle
      refine List.pairwise_cons.mpr ⟨fun u hu => ?_, hsorted⟩
      rcases List.mem_cons.mp hu with rfl | hu
      · exact hval
      · exact Nat.le_trans hval (hts.1 u hu)
    · rw [List.orderedInsert_cons, if_neg hle]
      refine List.pairwise_cons.mpr ⟨fun u hu => ?_, ih (fun u hu => h u (List.mem_cons_of_mem _ hu)) hts.2⟩
      rcases (List.mem_orderedInsert _).mp hu with rfl | hu
      · have := mt (h t List.mem_cons_self).mpr hle
        omega
      · exact hts.1 u hu

/-! ### The loop of a heartbeat -/

/-- What holds at each turn, for the tasks before `it` and those from it on. -/
structure Rotating (s : TimerService) (before rest : List TimerTask) : Prop where
  tasks : Tasks s (ids (before ++ rest))
  kept : ∀ t ∈ before, t.deadline = s.now + t.time
  left : ∀ t ∈ rest, t.time - s.timePassed = t.deadline - s.now
  sortedKept : before.Pairwise (·.time ≤ ·.time)
  sorted : rest.Pairwise (·.deadline ≤ ·.deadline)
  between : ∀ b ∈ before, ∀ t ∈ rest, s.now < t.deadline → b.deadline ≤ t.deadline
  zeros : (∃ t ∈ rest, t.deadline ≤ s.now) → ∀ b ∈ before, b.time = 0

/-- What holds while the callback of `it` runs. -/
structure Calling (s : TimerService) (before : List TimerTask) (it : TimerTask) (rest : List TimerTask) : Prop where
  timers : s.timers = before ++ it :: rest
  time : it.time = 0
  zeros : ∀ b ∈ before, b.time = 0
  called : ∃ k, (k, it.number) ∈ s.called
  rotating : Rotating s before rest

/-- The time that passed is taken from the tasks that are left. -/
theorem Rotating.rotate (h : Rotating s before rest) :
    Rotating { s with timePassed := 0 } before (rest.map (rotateTask s.timePassed)) where
  tasks := by
    have hids : ids (before ++ rest.map (rotateTask s.timePassed)) = ids (before ++ rest) := by
      rw [ids, ids, List.map_append, List.map_append]
      exact congrArg _ (ids_map_rotateTask s.timePassed rest)
    rw [hids]
    exact ⟨h.tasks.numbers, h.tasks.known, h.tasks.members, h.tasks.called, h.tasks.since⟩
  kept := h.kept
  left := by
    intro t ht
    obtain ⟨u, hu, rfl⟩ := List.mem_map.mp ht
    rw [rotateTask_eq]
    exact h.left u hu
  sortedKept := h.sortedKept
  sorted := by
    refine List.pairwise_map.mpr (h.sorted.imp fun {t u} htu => ?_)
    rw [rotateTask_eq, rotateTask_eq]
    exact htu
  between := by
    intro b hb t ht hlt
    obtain ⟨u, hu, rfl⟩ := List.mem_map.mp ht
    rw [rotateTask_eq] at hlt ⊢
    exact h.between b hb u hu hlt
  zeros := by
    rintro ⟨t, ht, hle⟩
    obtain ⟨u, hu, rfl⟩ := List.mem_map.mp ht
    rw [rotateTask_eq] at hle
    exact h.zeros ⟨u, hu, hle⟩

/-- A timer without time comes first, and is not seen any more by this heartbeat. -/
theorem Rotating.addFirst (h : Rotating s before rest) (hzeros : ∀ b ∈ before, b.time = 0) (ts : List TimerTask) :
    Rotating { s with timers := ts, added := s.added ++ [⟨s.diffs.length, 0⟩] }
      (⟨s.added.length, s.now + 0, 0⟩ :: before) rest where
  tasks := h.tasks.add 0 ts s.timePassed
  kept := List.forall_mem_cons.mpr ⟨rfl, h.kept⟩
  left := h.left
  sortedKept := List.pairwise_cons.mpr ⟨fun _ _ => Nat.zero_le _, h.sortedKept⟩
  sorted := h.sorted
  between := List.forall_mem_cons.mpr ⟨fun _ _ hlt => Nat.le_of_lt hlt, h.between⟩
  zeros := fun _ => List.forall_mem_cons.mpr ⟨rfl, hzeros⟩

/-- A timer with time comes among the tasks that are left. -/
theorem Rotating.addLater (h : Rotating s before rest) (hzeros : ∀ b ∈ before, b.time = 0) (hpassed : s.timePassed = 0)
    (hpos : 0 < tk) (ts : List TimerTask) : Rotating { s with timers := ts, added := s.added ++ [⟨s.diffs.length, tk⟩] } before
      (rest.orderedInsert (fun val it => val.time ≤ it.time) ⟨s.added.length, s.now + tk, tk⟩) := by
  let val : TimerTask := ⟨s.added.length, s.now + tk, tk⟩
  have hmem : ∀ t ∈ rest.orderedInsert (fun val it => val.time ≤ it.time) val, t = val ∨ t ∈ rest :=
    fun t ht => (List.mem_orderedInsert _).mp ht
  refine ⟨?_, h.kept, fun t ht => ?_, h.sortedKept, ?_, fun b hb t ht hlt => ?_, fun _ => hzeros⟩
  · have hperm := (List.perm_orderedInsert (fun val it : TimerTask => val.time ≤ it.time) val rest).append_left before
    exact (h.tasks.add tk ts s.timePassed).perm (perm_ids (hperm.trans List.perm_middle)).symm
  · rcases hmem t ht with rfl | ht
    · show tk - s.timePassed = s.now + tk - s.now
      omega
    · exact h.left t ht
  · refine sorted_orderedInsert TimerTask.deadline (fun t ht => ?_) h.sorted
    have hleft := h.left t ht
    show tk ≤ _ ↔ s.now + tk ≤ _
    omega
  · rcases hmem t ht with rfl | ht
    · rw [h.kept b hb, hzeros b hb]
      exact Nat.le_of_lt hlt
    · exact h.between b hb t ht hlt

/-- The callback adds a timer: before `it` if it has no time left, and else somewhere after it. -/
theorem Calling.addTimer (h : Calling s before it rest) (tk : Nat) : ∃ before' rest', Calling (s.addTimer tk) before' it rest' ∧
    rest'.length ≤ rest.length + 1 ∧ dueNumbers s.now rest' = dueNumbers s.now rest := by
  let val : TimerTask := ⟨s.added.length, s.now + tk, tk⟩
  let rest₀ := rest.map (rotateTask s.timePassed)
  have hzero : ∀ t : TimerTask, t.time = 0 → rotateTask s.timePassed t = t := fun t ht => by
    rw [rotateTask_eq, ht, Nat.zero_sub, ← ht]
  have hbefore : before.map (rotateTask s.timePassed) = before := by
    conv_rhs => rw [← List.map_id before]
    exact List.map_congr_left fun t ht => hzero t (h.zeros t ht)
  have htimers : s.timers.map (rotateTask s.timePassed) = before ++ it :: rest₀ := by
    rw [h.timers, List.map_append, List.map_cons, hbefore, hzero it h.time]
  rw [addTimer_eq, htimers]
  by_cases htk : tk = 0
  · subst htk
    have hinsert : (before ++ it :: rest₀).orderedInsert (fun val it => val.time ≤ it.time) val =
        val :: before ++ it :: rest₀ := by
      cases before with
      | nil => exact List.orderedInsert_cons_of_le _ _ (Nat.zero_le _)
      | cons b before => exact List.orderedInsert_cons_of_le _ _ (Nat.zero_le _)
    refine ⟨val :: before, rest₀, ⟨hinsert, h.time, ?_, h.called, h.rotating.rotate.addFirst h.zeros _⟩, ?_,
      dueNumbers_map_rotateTask _ _ _⟩
    · exact List.forall_mem_cons.mpr ⟨rfl, h.zeros⟩
    · simp [rest₀]
  · have hpos : 0 < tk := Nat.pos_of_ne_zero htk
    have hinsert : (before ++ it :: rest₀).orderedInsert (fun val it => val.time ≤ it.time) val =
        before ++ it :: rest₀.orderedInsert (fun val it => val.time ≤ it.time) val := by
      have hlt : ∀ t ∈ before ++ [it], t.time < val.time := by
        intro t ht
        rcases List.mem_append.mp ht with ht | ht
        · rw [h.zeros t ht]
          exact hpos
        · rw [List.mem_singleton.mp ht, h.time]
          exact hpos
      have := orderedInsert_append hlt rest₀
      rwa [List.append_assoc, List.append_assoc] at this
    refine ⟨before, rest₀.orderedInsert (fun val it => val.time ≤ it.time) val,
      ⟨hinsert, h.time, h.zeros, h.called, h.rotating.rotate.addLater h.zeros rfl hpos _⟩, ?_, ?_⟩
    · rw [List.orderedInsert_length]
      simp [rest₀]
    · rw [dueNumbers_orderedInsert (show s.now < s.now + tk by omega), dueNumbers_map_rotateTask]

/-- What a callback leaves as it was: the heartbeats, and the timers that were added before. -/
structure Extends (s t : TimerService) : Prop where
  diffs : t.diffs = s.diffs
  old : ∀ {i : Nat} {a : AddedTimer}, s.added[i]? = some a → t.added[i]? = some a
  new : ∀ {i : Nat} {a : AddedTimer}, t.added[i]? = some a → s.added[i]? = some a ∨ a.since = s.diffs.length

theorem Extends.refl (s : TimerService) : Extends s s := ⟨rfl, id, .inl⟩

theorem Extends.trans {u : TimerService} (h : Extends s t) (h' : Extends t u) : Extends s u where
  diffs := h'.diffs.trans h.diffs
  old := fun ha => h'.old (h.old ha)
  new := fun ha => by
    rcases h'.new ha with ha | ha
    · exact h.new ha
    · exact .inr (h.diffs ▸ ha)

theorem Extends.now (h : Extends s t) : t.now = s.now := congrArg List.sum h.diffs

theorem extends_addTimer (s : TimerService) (tk : Nat) : Extends s (s.addTimer tk) := by
  rw [addTimer_eq]
  refine ⟨rfl, fun ha => ?_, fun {i a} ha => ?_⟩
  · exact (List.getElem?_append_left (List.getElem?_eq_some_iff.mp ha).1).trans ha
  · have hlen := (List.getElem?_eq_some_iff.mp ha).1
    simp only [List.length_append, List.length_singleton] at hlen
    rcases Nat.lt_succ_iff_lt_or_eq.mp hlen with hi | rfl
    · exact .inl ((List.getElem?_append_left hi).symm.trans ha)
    · rw [List.getElem?_concat_length] at ha
      cases ha
      exact .inr rfl

theorem called_addTimer (s : TimerService) (tk : Nat) : (s.addTimer tk).called = s.called := by
  rw [addTimer_eq]

/-- The whole callback. -/
theorem Calling.foldl (h : Calling s before it rest) (tks : List Nat) : ∃ before' rest',
    Calling (tks.foldl TimerService.addTimer s) before' it rest' ∧ rest'.length ≤ rest.length + tks.length ∧
      dueNumbers s.now rest' = dueNumbers s.now rest ∧ Extends s (tks.foldl TimerService.addTimer s) ∧
      (tks.foldl TimerService.addTimer s).called = s.called := by
  induction tks generalizing s before rest with
  | nil => exact ⟨before, rest, h, Nat.le_refl _, rfl, .refl s, rfl⟩
  | cons tk tks ih =>
    obtain ⟨before₁, rest₁, h₁, hlen₁, hdue₁⟩ := h.addTimer tk
    obtain ⟨before₂, rest₂, h₂, hlen₂, hdue₂, hext, hcalled⟩ := ih h₁
    have hadd := extends_addTimer s tk
    rw [hadd.now, hdue₁] at hdue₂
    refine ⟨before₂, rest₂, h₂, ?_, hdue₂, hadd.trans hext, hcalled.trans (called_addTimer s tk)⟩
    rw [List.length_cons]
    omega

/-- After the callback, the tasks before its timer and those after it. -/
theorem Calling.split (h : Calling s before it rest) : s.timers.takeWhile (·.number ≠ it.number) = before ∧
    (s.timers.dropWhile (·.number ≠ it.number)).tail = rest := by
  have hne : ∀ b ∈ before, (decide (b.number ≠ it.number)) = true := by
    intro b hb
    refine decide_eq_true fun heq => ?_
    obtain ⟨k, hk⟩ := h.called
    have hmem : (it.number, b.deadline) ∈ ids (before ++ rest) :=
      heq ▸ mem_ids (List.mem_append_left _ hb)
    exact (h.rotating.tasks.members _ (h.rotating.tasks.called k _ hk)).mp ⟨_, hmem⟩ k hk
  rw [h.timers, List.takeWhile_append_of_pos hne, List.dropWhile_append_of_pos hne]
  simp

variable {adds : Nat → List Nat}

/-- The turns that are left to the loop. -/
def turnsLeft (adds : Nat → List Nat) (now : Nat) (rest : List TimerTask) : Nat :=
  rest.length + ((dueNumbers now rest).map fun i => (adds i).length).sum

/-- A turn for a task whose time is over. -/
theorem Rotating.call (h : Rotating s before (it :: rest)) (hdue : it.deadline ≤ s.now) :
    Calling { s with
      timers := before ++ { it with time := 0 } :: rest, called := s.called ++ [(s.diffs.length, it.number)] }
      before { it with time := 0 } rest where
  timers := rfl
  time := rfl
  zeros := h.zeros ⟨it, List.mem_cons_self, hdue⟩
  called := ⟨s.diffs.length, List.mem_append_right _ (List.mem_singleton_self _)⟩
  rotating := by
    have htasks : Tasks s ((it.number, it.deadline) :: ids (before ++ rest)) := by
      refine h.tasks.perm ?_
      have hmiddle : (before ++ it :: rest).Perm (it :: (before ++ rest)) := List.perm_middle
      exact perm_ids hmiddle
    exact {
      tasks := htasks.call s.diffs.length _
      kept := h.kept
      left := fun t ht => h.left t (List.mem_cons_of_mem _ ht)
      sortedKept := h.sortedKept
      sorted := (List.pairwise_cons.mp h.sorted).2
      between := fun b hb t ht => h.between b hb t (List.mem_cons_of_mem _ ht)
      zeros := fun ⟨t, ht, hle⟩ => h.zeros ⟨t, List.mem_cons_of_mem _ ht, hle⟩ }

/-- A turn for a task whose time is not over; the same holds of those after it. -/
theorem Rotating.keep (h : Rotating s before (it :: rest)) (hdue : s.now < it.deadline) :
    Rotating s (before ++ [{ it with time := it.time - s.timePassed }]) rest := by
  have hahead : ∀ t ∈ rest, s.now < t.deadline := fun t ht =>
    Nat.lt_of_lt_of_le hdue ((List.pairwise_cons.mp h.sorted).1 t ht)
  have hit : it.deadline = s.now + (it.time - s.timePassed) := by
    rw [h.left it List.mem_cons_self]
    omega
  refine ⟨?_, ?_, fun t ht => h.left t (List.mem_cons_of_mem _ ht), ?_, (List.pairwise_cons.mp h.sorted).2, ?_, ?_⟩
  · have := h.tasks
    simpa [ids] using this
  · intro t ht
    rcases List.mem_append.mp ht with ht | ht
    · exact h.kept t ht
    · rw [List.mem_singleton.mp ht]
      exact hit
  · refine List.pairwise_append.mpr ⟨h.sortedKept, List.pairwise_singleton _ _, fun b hb t ht => ?_⟩
    rw [List.mem_singleton.mp ht]
    have := h.between b hb it List.mem_cons_self hdue
    rw [h.kept b hb, hit] at this
    exact Nat.le_of_add_le_add_left this
  · intro b hb t ht hlt
    rcases List.mem_append.mp hb with hb | hb
    · exact h.between b hb t (List.mem_cons_of_mem _ ht) hlt
    · rw [List.mem_singleton.mp hb]
      exact (List.pairwise_cons.mp h.sorted).1 t ht
  · rintro ⟨t, ht, hle⟩
    exact absurd (hahead t ht) (Nat.not_lt.mpr hle)

/-- The end of the loop. -/
theorem Rotating.done (h : Rotating s before []) : Rotating { s with timers := before } before [] :=
  ⟨⟨h.tasks.numbers, h.tasks.known, h.tasks.members, h.tasks.called, h.tasks.since⟩, h.kept, h.left, h.sortedKept, h.sorted,
    h.between, h.zeros⟩

/-- The loop ends, and has called the timers whose time was over, in their order. -/
theorem rotationLoop_spec (turns : Nat) (h : Rotating s before rest) (hturns : turnsLeft adds s.now rest ≤ turns) :
    ∃ t, rotationLoop adds turns before rest s = some t ∧ Rotating t t.timers [] ∧ Extends s t ∧
      t.called = s.called ++ (dueNumbers s.now rest).map fun i => (s.diffs.length, i) := by
  have hnil : ∀ {s : TimerService} {before : List TimerTask} (turns : Nat), Rotating s before [] →
      ∃ t, rotationLoop adds turns before [] s = some t ∧ Rotating t t.timers [] ∧ Extends s t ∧
        t.called = s.called ++ (dueNumbers s.now []).map fun i => (s.diffs.length, i) := by
    intro s before turns h
    refine ⟨{ s with timers := before }, by cases turns <;> rfl, h.done, ⟨rfl, id, .inl⟩, ?_⟩
    simp [dueNumbers]
  induction turns generalizing s before rest with
  | zero =>
    cases rest with
    | nil => exact hnil 0 h
    | cons it rest => simp [turnsLeft] at hturns
  | succ turns ih =>
    cases rest with
    | nil => exact hnil _ h
    | cons it rest =>
      have hleft := h.left it List.mem_cons_self
      rw [rotationLoop]
      by_cases hdue : it.deadline ≤ s.now
      · rw [if_pos (by omega)]
        obtain ⟨before₁, rest₁, h₁, hlen, hsame, hext, hcalled⟩ := (h.call hdue).foldl (adds it.number)
        have hnumbers : dueNumbers s.now (it :: rest) = it.number :: dueNumbers s.now rest := by
          simp [dueNumbers, hdue]
        have hturns₁ : turnsLeft adds (callTimer adds
            { s with timers := before ++ { it with time := 0 } :: rest } it.number).now rest₁ ≤ turns := by
          rw [callTimer, hext.now, turnsLeft, hsame]
          simp only [turnsLeft, hnumbers, List.length_cons, List.map_cons, List.sum_cons] at hturns
          show _ + ((dueNumbers s.now rest).map _).sum ≤ turns
          omega
        have hsplit := h₁.split
        obtain ⟨t, ht, hRt, hextt, hcalledt⟩ := ih h₁.rotating hturns₁
        simp only [callTimer] at ht ⊢
        rw [hsplit.1, hsplit.2]
        refine ⟨t, ht, hRt, ?_, ?_⟩
        · have hbegin : Extends s { s with
              timers := before ++ { it with time := 0 } :: rest
              called := s.called ++ [(s.diffs.length, it.number)] } := ⟨rfl, id, .inl⟩
          exact hbegin.trans (hext.trans hextt)
        · rw [hcalledt, hcalled, hext.now, hsame, hext.diffs, hnumbers]
          simp [now]
      · have hdue := Nat.not_le.mp hdue
        rw [if_neg (by omega)]
        have hnumbers : dueNumbers s.now (it :: rest) = dueNumbers s.now rest := by
          simp [dueNumbers, Nat.not_le.mpr hdue]
        rw [hnumbers]
        refine ih (h.keep hdue) ?_
        rw [turnsLeft, hnumbers, List.length_cons] at hturns
        unfold turnsLeft
        omega

/-! ### Between the heartbeats -/

structure Inv (s : TimerService) : Prop where
  tasks : Tasks s (ids s.timers)
  time : ∀ t ∈ s.timers, t.deadline + s.timePassed = s.now + t.time
  front : s.timePassed = 0 ∨ ∀ t ∈ s.timers, s.timePassed < t.time
  empty : s.timers = [] → s.timePassed = 0
  sorted : s.timers.Pairwise (·.time ≤ ·.time)
  punctual : s.Punctual

theorem inv_init : Inv {} where
  tasks := ⟨List.nodup_nil, fun p hp => absurd hp List.not_mem_nil, fun i hi => absurd hi (Nat.not_lt_zero i),
    fun k i hi => absurd hi List.not_mem_nil, fun a ha => absurd ha List.not_mem_nil⟩
  time := fun t ht => absurd ht List.not_mem_nil
  front := .inl rfl
  empty := fun _ => rfl
  sorted := .nil
  punctual := ⟨List.nodup_nil, fun k i => ⟨fun h => absurd h List.not_mem_nil, fun ⟨a, ha, _⟩ => by cases ha⟩, .nil⟩

theorem firstDue_congr (h : t.diffs = s.diffs) : t.FirstDue a k ↔ s.FirstDue a k := by
  rw [firstDue_iff, firstDue_iff, h]

/-- A timer that is added now is not due till the next heartbeat. -/
theorem not_firstDue_of_since (h : a.since = s.diffs.length) : ¬s.FirstDue a k := fun hdue =>
  Nat.not_lt.mpr hdue.begun (h ▸ hdue.later)

/-- The timers that are called are among those added. -/
theorem Punctual.exists_added (h : Punctual s) {p : Nat × Nat} (hp : p ∈ s.called) : ∃ a, s.added[p.2]? = some a := by
  obtain ⟨a, ha, -⟩ := (h.due p.1 p.2).mp hp
  exact ⟨a, ha⟩

/-- More timers are added, and the deadlines of the others stay. -/
theorem Punctual.ordered_of_old (h : Punctual s)
    (hold : ∀ {i : Nat} {a : AddedTimer}, s.added[i]? = some a → t.added[i]? = some a)
    (hdeadline : ∀ a ∈ s.added, a.deadline t.diffs = a.deadline s.diffs) :
    s.called.Pairwise fun x y => x.1 = y.1 →
      ∀ a b, t.added[x.2]? = some a → t.added[y.2]? = some b → a.deadline t.diffs ≤ b.deadline t.diffs := by
  refine h.ordered.imp_of_mem fun {x y} hx hy hxy heq a b ha hb => ?_
  obtain ⟨a', ha'⟩ := h.exists_added hx
  obtain ⟨b', hb'⟩ := h.exists_added hy
  obtain rfl : a' = a := Option.some.inj ((hold ha').symm.trans ha)
  obtain rfl : b' = b := Option.some.inj ((hold hb').symm.trans hb)
  rw [hdeadline a' (List.mem_of_getElem? ha'), hdeadline b' (List.mem_of_getElem? hb')]
  exact hxy heq a' b' ha' hb'

theorem Punctual.of_extends (h : Punctual s) (hext : Extends s t) (hcalled : t.called = s.called) : Punctual t where
  once := hcalled ▸ h.once
  due := by
    intro k i
    rw [hcalled, h.due]
    constructor
    · rintro ⟨a, ha, hdue⟩
      exact ⟨a, hext.old ha, (firstDue_congr hext.diffs).mpr hdue⟩
    · rintro ⟨a, ha, hdue⟩
      have hdue := (firstDue_congr hext.diffs).mp hdue
      exact ⟨a, (hext.new ha).resolve_right fun hsince => not_firstDue_of_since hsince hdue, hdue⟩
  ordered := by
    rw [hcalled]
    exact h.ordered_of_old hext.old fun a _ => by rw [hext.diffs]

theorem inv_addTimer (hI : Inv s) (tk : Nat) : Inv (s.addTimer tk) := by
  have hpunctual := hI.punctual.of_extends (extends_addTimer s tk) (called_addTimer s tk)
  rw [addTimer_eq] at hpunctual ⊢
  have hrotated : ∀ t ∈ s.timers.map (rotateTask s.timePassed), t.deadline = s.now + t.time := by
    intro t ht
    obtain ⟨u, hu, rfl⟩ := List.mem_map.mp ht
    have htime := hI.time u hu
    have hfront := hI.front.imp_right fun h => h u hu
    rw [rotateTask_eq]
    simp only
    omega
  refine ⟨?_, ?_, .inl rfl, fun _ => rfl, ?_, hpunctual⟩
  · refine (hI.tasks.add tk _ 0).perm ?_
    rw [← ids_map_rotateTask s.timePassed s.timers]
    let val : TimerTask := ⟨s.added.length, s.now + tk, tk⟩
    have hperm := List.perm_orderedInsert (fun val it : TimerTask => val.time ≤ it.time) val
      (s.timers.map (rotateTask s.timePassed))
    exact (perm_ids hperm).symm
  · intro t ht
    rcases (List.mem_orderedInsert _).mp ht with rfl | ht
    · rfl
    · exact hrotated t ht
  · refine sorted_orderedInsert TimerTask.time (fun t _ => Iff.rfl) (List.pairwise_map.mpr (hI.sorted.imp fun {t u} htu => ?_))
    rw [rotateTask_eq, rotateTask_eq]
    exact Nat.sub_le_sub_right htu _

/-! ### A heartbeat -/

theorem sum_take_concat (diff : Nat) (hk : k ≤ s.diffs.length) :
    ((s.diffs ++ [diff]).take k).sum = (s.diffs.take k).sum := by
  rw [List.take_append_of_le_length hk]

/-- What is due first in the heartbeat that begins. -/
theorem firstDue_concat (diff : Nat) (hsince : a.since ≤ s.diffs.length) :
    FirstDue { s with diffs := s.diffs ++ [diff] } a k ↔
      s.FirstDue a k ∨ k = s.diffs.length + 1 ∧ a.deadline s.diffs ≤ s.now + diff ∧ ∀ j, ¬s.FirstDue a j := by
  rw [firstDue_iff, firstDue_iff]
  simp only [deadline_concat hsince, List.length_append, List.length_singleton]
  have hnow : ((s.diffs ++ [diff]).take (s.diffs.length + 1)).sum = s.now + diff := by
    rw [List.take_of_length_le (by simp), List.sum_append, List.sum_singleton, now]
  constructor
  · rintro ⟨hlater, hbegun, hdue, hfirst⟩
    rcases Nat.le_succ_iff.mp hbegun with hk | rfl
    · rw [sum_take_concat diff hk] at hdue
      refine .inl ⟨hlater, hk, hdue, fun j hj hjk => ?_⟩
      rw [← sum_take_concat diff (Nat.le_trans (Nat.le_of_lt hjk) hk)]
      exact hfirst j hj hjk
    · rw [Nat.succ_eq_add_one, hnow] at hdue
      refine .inr ⟨rfl, hdue, fun j hj => ?_⟩
      obtain ⟨hj, hjlen, hjdue, -⟩ := firstDue_iff.mp hj
      have := hfirst j hj (Nat.lt_succ_of_le hjlen)
      rw [sum_take_concat diff hjlen] at this
      exact absurd hjdue (Nat.not_le.mpr this)
  · rintro (⟨hlater, hk, hdue, hfirst⟩ | ⟨rfl, hdue, hnone⟩)
    · refine ⟨hlater, Nat.le_succ_of_le hk, by rwa [sum_take_concat diff hk], fun j hj hjk => ?_⟩
      rw [sum_take_concat diff (Nat.le_trans (Nat.le_of_lt hjk) hk)]
      exact hfirst j hj hjk
    · refine ⟨Nat.lt_succ_of_le hsince, Nat.le_refl _, by rwa [hnow], fun j hj hjk => ?_⟩
      rw [sum_take_concat diff (Nat.le_of_lt_succ hjk)]
      exact lt_deadline_of_forall hnone hj (Nat.le_of_lt_succ hjk)

/-- The numbers of the tasks whose time is over are those of the timers that are due and were not called. -/
theorem mem_dueNumbers (hI : Inv s) {n : Nat} : i ∈ dueNumbers n s.timers ↔
    ∃ a, s.added[i]? = some a ∧ a.deadline s.diffs ≤ n ∧ ∀ k, (k, i) ∉ s.called := by
  unfold dueNumbers
  simp only [List.mem_map, List.mem_filter, decide_eq_true_eq]
  constructor
  · rintro ⟨t, ⟨ht, hle⟩, rfl⟩
    have hmem := mem_ids ht
    obtain ⟨a, ha, hdeadline⟩ := hI.tasks.known _ hmem
    exact ⟨a, ha, hdeadline ▸ hle, (hI.tasks.members _ (hI.tasks.lt_length hmem)).mp ⟨_, hmem⟩⟩
  · rintro ⟨a, ha, hle, hcalled⟩
    obtain ⟨d, hd⟩ := (hI.tasks.members i (List.getElem?_eq_some_iff.mp ha).1).mpr hcalled
    obtain ⟨t, ht, heq⟩ := List.mem_map.mp hd
    cases heq
    have hdeadline : t.deadline = a.deadline s.diffs := hI.tasks.deadline_eq hd ha
    exact ⟨t, ⟨ht, hdeadline ▸ hle⟩, rfl⟩

/-- The deadlines of the tasks go up with the times. -/
theorem Inv.sortedDeadlines (hI : Inv s) : s.timers.Pairwise (·.deadline ≤ ·.deadline) := by
  refine hI.sorted.imp_of_mem fun {t u} ht hu htu => ?_
  have := hI.time t ht
  have := hI.time u hu
  omega

/-- A timer that was not called has not been due. -/
theorem Punctual.not_called_iff (h : Punctual s) (ha : s.added[i]? = some a) :
    (∀ k, (k, i) ∉ s.called) ↔ ∀ k, ¬s.FirstDue a k := by
  refine forall_congr' fun k => not_congr ((h.due k i).trans ⟨?_, fun hdue => ⟨a, ha, hdue⟩⟩)
  rintro ⟨b, hb, hdue⟩
  cases ha.symm.trans hb
  exact hdue

theorem mem_map_mk {n : Nat} {l : List Nat} : (k, i) ∈ l.map (fun i => (n, i)) ↔ k = n ∧ i ∈ l := by
  rw [List.mem_map]
  constructor
  · rintro ⟨j, hj, heq⟩
    cases heq
    exact ⟨rfl, hj⟩
  · rintro ⟨rfl, hi⟩
    exact ⟨i, hi, rfl⟩

/-- The callbacks of a heartbeat are those of the timers that are due, in their order. -/
theorem punctual_heartbeat (hI : Inv s) (diff : Nat) (hext : Extends { s with diffs := s.diffs ++ [diff] } t)
    (hcalled : t.called = s.called ++ (dueNumbers (s.now + diff) s.timers).map fun i => (s.diffs.length + 1, i)) :
    t.Punctual where
  once := by
    have hnumbers : ((dueNumbers (s.now + diff) s.timers).map fun i => (s.diffs.length + 1, i)).map Prod.snd =
        dueNumbers (s.now + diff) s.timers := by
      rw [List.map_map]
      exact List.map_id _
    rw [hcalled, List.map_append, hnumbers]
    refine List.nodup_append'.mpr ⟨hI.punctual.once, ?_, fun i hold hnew => ?_⟩
    · have := hI.tasks.numbers
      rw [ids, List.map_map] at this
      exact this.sublist (List.filter_sublist.map _)
    · obtain ⟨p, hp, rfl⟩ := List.mem_map.mp hold
      obtain ⟨-, -, -, hnot⟩ := (mem_dueNumbers hI).mp hnew
      exact hnot p.1 hp
  due := by
    intro k i
    rw [hcalled, List.mem_append, hI.punctual.due]
    rw [mem_map_mk, mem_dueNumbers hI]
    constructor
    · rintro (⟨a, ha, hdue⟩ | ⟨hk, a, ha, hle, hcalled⟩)
      · have hsince := hI.tasks.since a (List.mem_of_getElem? ha)
        exact ⟨a, hext.old ha, (firstDue_congr hext.diffs).mpr ((firstDue_concat diff hsince).mpr (.inl hdue))⟩
      · have hsince := hI.tasks.since a (List.mem_of_getElem? ha)
        refine ⟨a, hext.old ha, (firstDue_congr hext.diffs).mpr ((firstDue_concat diff hsince).mpr (.inr ⟨hk, hle, ?_⟩))⟩
        exact (hI.punctual.not_called_iff ha).mp hcalled
    · rintro ⟨a, ha, hdue⟩
      have hdue := (firstDue_congr hext.diffs).mp hdue
      have ha : s.added[i]? = some a := (hext.new ha).resolve_right fun hsince => not_firstDue_of_since hsince hdue
      have hsince := hI.tasks.since a (List.mem_of_getElem? ha)
      rcases (firstDue_concat diff hsince).mp hdue with hdue | ⟨hk, hle, hnever⟩
      · exact .inl ⟨a, ha, hdue⟩
      · exact .inr ⟨hk, a, ha, hle, (hI.punctual.not_called_iff ha).mpr hnever⟩
  ordered := by
    have hdeadline : ∀ a ∈ s.added, a.deadline t.diffs = a.deadline s.diffs := fun a ha => by
      rw [hext.diffs]
      exact deadline_concat (hI.tasks.since a ha) diff
    rw [hcalled]
    refine List.pairwise_append.mpr ⟨hI.punctual.ordered_of_old hext.old hdeadline, ?_, ?_⟩
    · have hknown : ∀ {u : TimerTask} {a : AddedTimer}, u ∈ s.timers → t.added[u.number]? = some a →
          a.deadline t.diffs = u.deadline := by
        intro u a hu ha
        obtain ⟨b, hb, heq⟩ := hI.tasks.known _ (mem_ids hu)
        obtain rfl : b = a := Option.some.inj ((hext.old hb).symm.trans ha)
        exact (hdeadline b (List.mem_of_getElem? hb)).trans heq.symm
      refine List.pairwise_map.mpr (List.pairwise_map.mpr ?_)
      refine (hI.sortedDeadlines.filter _).imp_of_mem fun {u v} hu hv huv _ a b ha hb => ?_
      rw [hknown (List.mem_filter.mp hu).1 ha, hknown (List.mem_filter.mp hv).1 hb]
      exact huv
    · intro x hx y hy heq
      obtain ⟨j, -, rfl⟩ := List.mem_map.mp hy
      obtain ⟨a, -, hdue⟩ := (hI.punctual.due x.1 x.2).mp hx
      exact absurd (heq ▸ hdue.begun) (Nat.not_succ_le_self _)

/-- The turns that the loop is given are enough. -/
theorem turnsLeft_le (n : Nat) : turnsLeft adds n s.timers ≤ s.turns adds := by
  refine Nat.add_le_add_left ?_ _
  induction s.timers with
  | nil => exact Nat.le_refl _
  | cons t ts ih =>
    simp only [dueNumbers, List.filter_cons, List.map_cons, List.sum_cons] at ih ⊢
    split
    · rw [List.map_cons, List.map_cons, List.sum_cons]
      exact Nat.add_le_add_left ih _
    · exact Nat.le_add_left_of_le ih

theorem sum_concat_diff (s : TimerService) (diff : Nat) : (s.diffs ++ [diff]).sum = s.now + diff := by
  rw [List.sum_append, List.sum_singleton, now]

/-- No callback runs in a heartbeat at which no time is over. -/
theorem punctual_quiet (hI : Inv s) {diff : Nat} (hahead : ∀ t ∈ s.timers, s.now + diff < t.deadline) (timePassed : Nat) :
    Punctual { s with timePassed, diffs := s.diffs ++ [diff] } := by
  have hnone : dueNumbers (s.now + diff) s.timers = [] := by
    rw [dueNumbers, List.filter_eq_nil_iff.mpr fun t ht => by simpa using hahead t ht, List.map_nil]
  exact punctual_heartbeat hI diff ⟨rfl, id, .inl⟩ (by rw [hnone]; simp)

/-- A heartbeat without timers. -/
theorem inv_heartbeat_nil (hI : Inv s) (htimers : s.timers = []) (diff : Nat) : Inv { s with diffs := s.diffs ++ [diff] } := by
  have hzero := hI.empty htimers
  have hno : ∀ {P : TimerTask → Prop}, ∀ t ∈ s.timers, P t := by
    rw [htimers]
    exact fun t ht => absurd ht List.not_mem_nil
  exact ⟨hI.tasks.begin diff _, hno, .inl hzero, fun _ => hzero, hI.sorted, punctual_quiet hI hno _⟩

/-- A heartbeat in which the time passed stays below that of the first timer. -/
theorem inv_heartbeat_passed (hI : Inv s) {front : TimerTask} {rest : List TimerTask} (htimers : s.timers = front :: rest)
    {diff : Nat} (hlt : s.timePassed + diff < front.time) :
    Inv { s with timePassed := s.timePassed + diff, diffs := s.diffs ++ [diff] } := by
  have hall : ∀ t ∈ s.timers, s.timePassed + diff < t.time := by
    intro t ht
    have hsorted := hI.sorted
    rw [htimers] at hsorted ht
    rcases List.mem_cons.mp ht with rfl | ht
    · exact hlt
    · exact Nat.lt_of_lt_of_le hlt ((List.pairwise_cons.mp hsorted).1 t ht)
  refine ⟨hI.tasks.begin diff _, fun t ht => ?_, .inr hall, fun h => ?_, hI.sorted, punctual_quiet hI (fun t ht => ?_) _⟩
  · have htime := hI.time t ht
    have hnow := sum_concat_diff s diff
    show t.deadline + (s.timePassed + diff) = (s.diffs ++ [diff]).sum + t.time
    omega
  · cases htimers.symm.trans h
  · have := hI.time t ht
    have := hall t ht
    omega

/-- The loop of a heartbeat begins. -/
theorem rotating_begin (hI : Inv s) (diff : Nat) :
    Rotating { s with timePassed := s.timePassed + diff, diffs := s.diffs ++ [diff] } [] s.timers where
  tasks := hI.tasks.begin diff _
  kept := fun t ht => absurd ht List.not_mem_nil
  left := by
    intro t ht
    have htime := hI.time t ht
    have hnow := sum_concat_diff s diff
    show t.time - (s.timePassed + diff) = t.deadline - (s.diffs ++ [diff]).sum
    omega
  sortedKept := .nil
  sorted := hI.sortedDeadlines
  between := fun b hb => absurd hb List.not_mem_nil
  zeros := fun _ b hb => absurd hb List.not_mem_nil

/-- A heartbeat in which timers are called. -/
theorem heartbeat_call (adds : Nat → List Nat) {diff : Nat} (hI : Inv s) (hpos : 0 < diff) :
    ∃ t, ({ s with timePassed := s.timePassed + diff, diffs := s.diffs ++ [diff] } : TimerService).timerRotationCall adds =
      some t ∧ Inv { t with timePassed := 0 } := by
  have hturns (n : Nat) : turnsLeft adds n s.timers ≤ s.turns adds := turnsLeft_le n
  obtain ⟨t, ht, hR, hext, hcalled⟩ := rotationLoop_spec _ (rotating_begin hI diff) (hturns _)
  have hlast : t.called = s.called ++ (dueNumbers (s.now + diff) s.timers).map fun i => (s.diffs.length + 1, i) := by
    have hnow := sum_concat_diff s diff
    simp only [now] at hcalled hnow ⊢
    rw [hcalled, hnow, List.length_append, List.length_singleton]
  have hne : ¬(s.timePassed + diff = 0) := by omega
  refine ⟨t, by rw [timerRotationCall, if_neg hne]; exact ht, ?_⟩
  have htasks := hR.tasks
  rw [List.append_nil] at htasks
  exact ⟨⟨htasks.numbers, htasks.known, htasks.members, htasks.called, htasks.since⟩, hR.kept, .inl rfl, fun _ => rfl,
    hR.sortedKept, punctual_heartbeat hI diff ⟨hext.diffs, hext.old, hext.new⟩ hlast⟩

theorem heartbeat_spec {diff : Nat} (hI : Inv s) (hpos : 0 < diff) (hbound : s.timePassed + diff < 2 ^ 32) :
    ∃ t, s.heartbeat adds diff = some t ∧ Inv t := by
  unfold heartbeat
  simp only [Nat.mod_eq_of_lt hbound]
  split
  · rename_i htimers
    exact ⟨_, rfl, inv_heartbeat_nil hI htimers diff⟩
  · rename_i front rest htimers
    split
    · rename_i hlt
      exact ⟨_, rfl, inv_heartbeat_passed hI htimers hlt⟩
    · obtain ⟨t, ht, hIt⟩ := heartbeat_call adds hI hpos
      exact ⟨_, congrArg (Option.map _) ht, hIt⟩

/-! ### Runs -/

theorem step_spec {action : Action} (hI : Inv s) (hbound : s.Bounded action) : ∃ t, step adds s action = .ok t ∧ Inv t := by
  cases action with
  | addTimer tk => exact ⟨_, rfl, inv_addTimer hI tk⟩
  | heartbeat diff =>
    obtain ⟨t, ht, hIt⟩ : ∃ t, s.heartbeat adds diff = some t ∧ Inv t := heartbeat_spec hI hbound.1 hbound.2
    exact ⟨t, by rw [step, ht], hIt⟩

/-- Whatever the callbacks add, every heartbeat ends, and each callback runs once, in the first heartbeat after the time
    of its timer is over, those of one heartbeat in the order of their deadlines. -/
theorem timers_punctual (adds : Nat → List Nat) {as : List Action} (hbound : Along (step adds) Bounded {} as) :
    ∃ s, run (step adds) {} as = .ok s ∧ s.Punctual := by
  have hI : Always (step adds) Inv {} as := by
    refine (always_iff_along_of (A := Bounded) (P := fun _ _ => True) (J := Inv) id ?_ (fun _ _ _ _ => trivial) inv_init
      hbound).mpr (along_true _ _)
    exact fun hI hA _ => step_spec hI hA
  obtain ⟨s, hs, hI⟩ := hI.run
  exact ⟨s, hs, hI.punctual⟩

/-- The callback of the second timer adds two timers while the first is still to run. -/
theorem timers_punctual_nested :
    let adds : Nat → List Nat := fun i => if i = 1 then [0, 3] else []
    let as : List Action := [.addTimer 9, .addTimer 4, .heartbeat 3, .addTimer 20, .heartbeat 6, .heartbeat 2, .heartbeat 1]
    ∃ s, run (step adds) {} as = .ok s ∧ s.Punctual ∧ s.called = [(2, 1), (2, 0), (3, 3), (4, 4)] := by
  intro adds as
  obtain ⟨s, hs, hpunctual⟩ := timers_punctual adds (by decide : Along (step adds) Bounded {} as)
  have h : run (step adds) {} as = .ok _ := rfl
  refine ⟨s, hs, hpunctual, ?_⟩
  cases hs.symm.trans h
  rfl

end TimerService

end Zylib.GameServer
