import Zylib.Theorems.ZySoft.WheelInv

/-! When a timer of a timing wheel is put out. In a run that calls `get_expired()` after each `tick()`,
    a timer that is pending is put out by the first such call at its tick, whatever is done to other
    timers, and never again. -/

namespace Zylib.ZySoft.TimingWheel
open Run

variable {α : Type} {N : Nat}

/-! ### Runs that are polled -/

/-- `get_expired()` is called between any two calls of `tick()`; the flag tells whether it has been
    called since the last one. No other tick is asked for. -/
def Paced : Bool → List (Op α) → Prop
  | _, [] => True
  | polled, .tick :: ops => polled = true ∧ Paced false ops
  | _, .getExpired :: ops => Paced true ops
  | _, .getExpiredAt _ :: _ => False
  | polled, _ :: ops => Paced polled ops

def Op.isTick : Op α → Bool
  | .tick => true
  | _ => false

/-- In the run there is a call of `get_expired()` after `r` ticks. -/
def Due (r : Nat) (ops : List (Op α)) : Prop := ∃ a b, ops = a ++ .getExpired :: b ∧ r ≤ a.countP Op.isTick

variable {ops : List (Op α)} {op : Op α} {r : Nat}

theorem not_due_nil : ¬Due r ([] : List (Op α)) := by
  rintro ⟨a, b, h, -⟩
  cases a <;> cases h

theorem due_tick_iff : Due r (.tick :: ops) ↔ Due (r - 1) ops := by
  constructor
  · rintro ⟨a, b, h, hr⟩
    cases a with
    | nil => cases h
    | cons x a =>
      obtain ⟨rfl, rfl⟩ := List.cons.inj h
      rw [List.countP_cons_of_pos rfl] at hr
      exact ⟨a, b, rfl, by omega⟩
  · rintro ⟨a, b, rfl, hr⟩
    refine ⟨.tick :: a, b, rfl, ?_⟩
    rw [List.countP_cons_of_pos rfl]
    omega

theorem due_zero_getExpired : Due 0 (.getExpired :: ops) := ⟨[], ops, rfl, Nat.le_refl _⟩

theorem due_cons_iff (hop : op.isTick = false) (h0 : op = .getExpired → 0 < r) : Due r (op :: ops) ↔ Due r ops := by
  constructor
  · rintro ⟨a, b, h, hr⟩
    cases a with
    | nil =>
      obtain ⟨rfl, rfl⟩ := List.cons.inj h
      exact absurd hr (Nat.not_le.mpr (h0 rfl))
    | cons x a =>
      obtain ⟨rfl, rfl⟩ := List.cons.inj h
      rw [List.countP_cons_of_neg (by simp [hop])] at hr
      exact ⟨a, b, rfl, hr⟩
  · rintro ⟨a, b, rfl, hr⟩
    refine ⟨op :: a, b, rfl, ?_⟩
    rwa [List.countP_cons_of_neg (by simp [hop])]

/-! ### What is put out of one timer -/

/-- What has been put out of the timer. -/
def State.outputs (s : State α N) (id : Nat) : List (Expired α) := s.log.filter (·.id == id)

variable {s t : State α N} {id k : Nat} {ids : List Nat} {e : Entry α}

theorem pairOf_eq_some (he : s.wheel.heap[id]? = some e) :
    s.pairOf id = some ⟨id, e.value, e.duration, s.wheel.currentTick⟩ := by
  rw [State.pairOf, he, Option.map_some]

theorem filter_pairOf_of_not_mem (hid : id ∉ ids) : (ids.filterMap s.pairOf).filter (·.id == id) = [] := by
  rw [List.filter_eq_nil_iff]
  intro x hx
  obtain ⟨j, hj, hx⟩ := List.mem_filterMap.mp hx
  obtain ⟨e, -, rfl⟩ := Option.map_eq_some_iff.mp hx
  rw [beq_iff_eq]
  exact fun e => hid (by rwa [← e])

variable [NeZero N]

theorem Puts.outputs_of_not_mem (h : Puts s k ids t) (hid : id ∉ ids) : t.outputs id = s.outputs id := by
  rw [State.outputs, h.log, List.filter_append, filter_pairOf_of_not_mem hid, List.append_nil]
  rfl

theorem Puts.outputs_of_mem (h : Puts s k ids t) (hid : id ∈ ids) (he : s.wheel.heap[id]? = some e) :
    t.outputs id = s.outputs id ++ [⟨id, e.value, e.duration, s.wheel.currentTick⟩] := by
  obtain ⟨a, b, hab⟩ := List.append_of_mem hid
  have hnodup := h.nodup
  rw [hab, List.nodup_middle, List.nodup_cons, List.mem_append, not_or] at hnodup
  obtain ⟨⟨ha, hb⟩, -⟩ := hnodup
  rw [State.outputs, h.log, hab, List.filter_append, List.filterMap_append, List.filterMap_cons, pairOf_eq_some he,
    List.filter_append, List.filter_cons_of_pos (by simp), filter_pairOf_of_not_mem ha, filter_pairOf_of_not_mem hb]
  rfl

/-! ### Timers that are no longer stored -/

/-- The timer was added, is no longer stored, and `out` is what has been put out of it. -/
structure Done (s : State α N) (id : Nat) (out : List (Expired α)) : Prop where
  inv : Inv s.wheel
  lt : id < s.wheel.heap.length
  not_mem : id ∉ s.wheel.allEntries
  outputs : s.outputs id = out

theorem Done.step {out : List (Expired α)} (h : Done s id out) (ht : step s op = .ok t) : Done t id out := by
  obtain ⟨hinv, heff⟩ := step_inv h.inv ht
  have hputs : ∀ {k : Nat}, (∃ ids, Puts s k ids t) → Done t id out := by
    rintro k ⟨ids, hp⟩
    have hid : id ∉ ids := fun hm => h.not_mem ((hp.mem_iff id).mp hm).1
    refine ⟨hinv, by rw [hp.heap]; exact h.lt, ?_, (hp.outputs_of_not_mem hid).trans h.outputs⟩
    rw [hp.allEntries]
    exact fun hm => h.not_mem (List.diff_subset _ _ hm)
  have hkept : t.log = s.log → id < t.wheel.heap.length → (id ∈ t.wheel.allEntries → id ∈ s.wheel.allEntries) →
      Done t id out := fun hlog hlt hmem =>
    ⟨hinv, hlt, fun hm => h.not_mem (hmem hm), by rw [State.outputs, hlog]; exact h.outputs⟩
  cases op with
  | tick =>
    obtain rfl := heff
    exact hkept rfl h.lt fun hm => hm
  | getExpired => exact hputs heff
  | getExpiredAt k => exact hputs heff
  | add value duration =>
    obtain ⟨hlog, -, hall, e, hheap, -⟩ := heff
    refine hkept hlog ?_ fun hm => ?_
    · rw [hheap, List.length_append]
      exact Nat.lt_add_right _ h.lt
    · rw [hall] at hm
      exact (List.mem_append.mp hm).resolve_right fun hm => Nat.ne_of_lt h.lt (List.mem_singleton.mp hm)
  | cancel hdl =>
    rcases heff with ⟨-, rfl⟩ | ⟨-, hlog, -, hall, hheap⟩
    · exact h
    · refine hkept hlog (by rw [hheap]; exact h.lt) fun hm => ?_
      rw [hall] at hm
      exact List.mem_of_mem_erase hm
  | reset hdl =>
    rcases heff with ⟨-, rfl⟩ | ⟨e, -, -, hlog, -, hall, hheap⟩
    · exact h
    · exact hkept hlog (by rw [hheap, List.length_set]; exact h.lt) fun hm => hall ▸ hm
  | clear =>
    obtain ⟨hlog, hall, hheap⟩ := heff
    exact hkept hlog (by rw [hheap]; exact h.lt) fun hm => (by rw [hall] at hm; cases hm)
  | size =>
    obtain rfl := heff
    exact h

theorem Done.run {out : List (Expired α)} (h : Done s id out) (ht : run TimingWheel.step s ops = .ok t) :
    Done t id out :=
  run_invariant (I := fun s => Done s id out) (P := fun _ _ => True) (fun h _ ht => h.step ht) h (along_true s ops) ht

/-! ### Timers that are pending -/

/-- The call does not cancel, clear or effectively reset the timer as long as it is stored. -/
def Undisturbed (id : Nat) (s : State α N) : Op α → Prop
  | .cancel hdl => hdl = id → s.wheel.lock id = none
  | .reset hdl => hdl = id → ∀ e, s.wheel.lock id = some e → ¬s.wheel.Moves e
  | .clear => s.wheel.lock id = none
  | _ => True

/-- The timer is stored, and its tick is `r` ticks away; it is not due if the wheel has been polled since
    the last tick. Nothing has been put out of it. -/
structure Pending (s : State α N) (id : Nat) (e : Entry α) (polled : Bool) (r : Nat) : Prop where
  inv : Inv s.wheel
  lock : s.wheel.lock id = some e
  outputs : s.outputs id = []
  due : (e.duration = 0 ∧ r = 0) ∨
    (e.duration ≠ 0 ∧ e.tick = s.wheel.currentTick + r ∧ e.tick < 2 ^ 64 ∧ (polled = true → 0 < r))

namespace Pending
variable {polled : Bool}

theorem mem (h : Pending s id e polled r) : id ∈ s.wheel.allEntries := (h.inv.lock_eq_some_iff.mp h.lock).1

theorem heap (h : Pending s id e polled r) : s.wheel.heap[id]? = some e := (h.inv.lock_eq_some_iff.mp h.lock).2

theorem expires_iff (h : Pending s id e polled r) : s.wheel.Expires s.wheel.currentTick e ↔ r = 0 := by
  rcases h.due with ⟨hd, hr⟩ | ⟨hd, htick, -, -⟩
  · exact ⟨fun _ => hr, fun _ => Or.inl hd⟩
  · constructor
    · rintro (hd' | ⟨-, hle⟩)
      · exact absurd hd' hd
      · omega
    · rintro rfl
      rw [Nat.add_zero] at htick
      exact Or.inr ⟨by rw [htick], Nat.le_of_eq htick⟩

theorem kept (h : Pending s id e polled r) (hinv : Inv t.wheel) (hmem : id ∈ t.wheel.allEntries)
    (hheap : t.wheel.heap[id]? = some e) (hlog : t.log = s.log) (htick : t.wheel.currentTick = s.wheel.currentTick) :
    Pending t id e polled r where
  inv := hinv
  lock := hinv.lock_eq_some_iff.mpr ⟨hmem, hheap⟩
  outputs := by rw [State.outputs, hlog]; exact h.outputs
  due := by rw [htick]; exact h.due

theorem ticked (h : Pending s id e true r) (hinv : Inv s.wheel.tick) :
    Pending { s with wheel := s.wheel.tick } id e false (r - 1) where
  inv := hinv
  lock := h.lock
  outputs := h.outputs
  due := by
    rcases h.due with ⟨hd, hr⟩ | ⟨hd, htick, hlt, hpos⟩
    · exact Or.inl ⟨hd, by rw [hr]⟩
    · have hr := hpos rfl
      have hnow : s.wheel.tick.currentTick = s.wheel.currentTick + 1 := Nat.mod_eq_of_lt (by omega)
      refine Or.inr ⟨hd, ?_, hlt, fun hf => (by cases hf)⟩
      show e.tick = s.wheel.tick.currentTick + (r - 1)
      omega

theorem putOut (h : Pending s id e polled 0) (hinv : Inv t.wheel) {ids : List Nat}
    (hputs : Puts s s.wheel.currentTick ids t) : Done t id [⟨id, e.value, e.duration, s.wheel.currentTick⟩] := by
  have hid : id ∈ ids := by
    refine (hputs.mem_iff id).mpr ⟨h.mem, fun e' he' => ?_⟩
    rw [h.heap] at he'
    cases he'
    exact h.expires_iff.mpr rfl
  refine ⟨hinv, ?_, ?_, ?_⟩
  · rw [hputs.heap]
    exact h.inv.lt_length h.mem
  · rw [hputs.allEntries]
    exact fun hm => (h.inv.nodup.mem_sdiff_iff.mp hm).2 hid
  · rw [hputs.outputs_of_mem hid h.heap, h.outputs, List.nil_append]

theorem passedOver (h : Pending s id e polled r) (hr : r ≠ 0) (hinv : Inv t.wheel) {ids : List Nat}
    (hputs : Puts s s.wheel.currentTick ids t) : Pending t id e true r := by
  have hid : id ∉ ids := fun hm => hr (h.expires_iff.mp (((hputs.mem_iff id).mp hm).2 e h.heap))
  refine ⟨hinv, hinv.lock_eq_some_iff.mpr ⟨?_, ?_⟩, ?_, ?_⟩
  · rw [hputs.allEntries]
    exact List.mem_diff_of_mem h.mem hid
  · rw [hputs.heap]
    exact h.heap
  · rw [hputs.outputs_of_not_mem hid, h.outputs]
  · rw [hputs.currentTick]
    rcases h.due with hzero | ⟨hd, htick, hlt, -⟩
    · exact Or.inl hzero
    · exact Or.inr ⟨hd, htick, hlt, fun _ => Nat.pos_of_ne_zero hr⟩

/-- A call of a paced run keeps the timer pending, or it is the `get_expired()` that puts it out. -/
theorem step (h : Pending s id e polled r) (hp : Paced polled (op :: ops)) (hu : Undisturbed id s op)
    (ht : step s op = .ok t) :
    (∃ polled' r', Pending t id e polled' r' ∧ Paced polled' ops ∧ (Due r (op :: ops) ↔ Due r' ops)) ∨
      (Due r (op :: ops) ∧ r = 0 ∧ Done t id [⟨id, e.value, e.duration, s.wheel.currentTick⟩]) := by
  obtain ⟨hinv, heff⟩ := step_inv h.inv ht
  cases op with
  | tick =>
    obtain ⟨rfl, hp⟩ := hp
    obtain rfl := heff
    exact Or.inl ⟨false, r - 1, h.ticked hinv, hp, due_tick_iff⟩
  | getExpired =>
    obtain ⟨ids, hputs⟩ := heff
    by_cases hr : r = 0
    · subst hr
      exact Or.inr ⟨due_zero_getExpired, rfl, h.putOut hinv hputs⟩
    · exact Or.inl ⟨true, r, h.passedOver hr hinv hputs, hp, due_cons_iff rfl fun _ => Nat.pos_of_ne_zero hr⟩
  | getExpiredAt k => exact hp.elim
  | add value duration =>
    obtain ⟨hlog, htick, hall, e', hheap, -⟩ := heff
    have hlt := h.inv.lt_length h.mem
    refine Or.inl ⟨polled, r, h.kept hinv ?_ ?_ hlog htick, hp, due_cons_iff rfl fun hc => (by cases hc)⟩
    · rw [hall]
      exact List.mem_append_left _ h.mem
    · rw [hheap, List.getElem?_append_left hlt, h.heap]
  | cancel hdl =>
    have hne : hdl ≠ id := fun heq => by
      have := hu heq
      rw [h.lock] at this
      cases this
    refine Or.inl ⟨polled, r, ?_, hp, due_cons_iff rfl fun hc => (by cases hc)⟩
    rcases heff with ⟨-, rfl⟩ | ⟨-, hlog, htick, hall, hheap⟩
    · exact h
    · refine h.kept hinv ?_ (by rw [hheap]; exact h.heap) hlog htick
      rw [hall]
      exact (List.mem_erase_of_ne hne.symm).mpr h.mem
  | reset hdl =>
    refine Or.inl ⟨polled, r, ?_, hp, due_cons_iff rfl fun hc => (by cases hc)⟩
    rcases heff with ⟨-, rfl⟩ | ⟨e', hl, hm, hlog, htick, hall, hheap⟩
    · exact h
    · have hne : hdl ≠ id := by
        rintro rfl
        exact hu rfl e' hl hm
      refine h.kept hinv (by rw [hall]; exact h.mem) ?_ hlog htick
      rw [hheap, List.getElem?_set_ne hne, h.heap]
  | clear =>
    have := h.lock
    rw [show s.wheel.lock id = none from hu] at this
    cases this
  | size =>
    obtain rfl := heff
    exact Or.inl ⟨polled, r, h, hp, due_cons_iff rfl fun hc => (by cases hc)⟩

/-- Of a pending timer nothing is put out before it is due, and then once, with its value and duration,
    at its tick. -/
theorem run (h : Pending s id e polled r) (hp : Paced polled ops) (hu : Along TimingWheel.step (Undisturbed id) s ops)
    (hrun : run TimingWheel.step s ops = .ok t) :
    (¬Due r ops ∧ t.outputs id = []) ∨
      (Due r ops ∧ ∃ tick, t.outputs id = [⟨id, e.value, e.duration, tick⟩] ∧ (e.duration ≠ 0 → tick = e.tick)) := by
  induction ops generalizing s polled r with
  | nil =>
    cases hrun
    exact Or.inl ⟨not_due_nil, h.outputs⟩
  | cons op ops ih =>
    rw [Run.run] at hrun
    split at hrun
    · cases hrun
    · rename_i u hstep
      rcases h.step hp hu.1 hstep with ⟨polled', r', h', hp', hdue⟩ | ⟨hdue, hr, hdone⟩
      · rw [hdue]
        exact ih h' hp' (hu.2 u hstep) hrun
      · refine Or.inr ⟨hdue, s.wheel.currentTick, (hdone.run hrun).outputs, fun hd => ?_⟩
        rcases h.due with ⟨hd', -⟩ | ⟨-, htick, -, -⟩
        · exact absurd hd' hd
        · rw [htick, hr, Nat.add_zero]

end Pending

/-! ### Whole runs -/

/-- What has been put out is no longer stored. -/
structure Logged (s : State α N) : Prop where
  inv : Inv s.wheel
  log : ∀ x ∈ s.log, x.id ∉ s.wheel.allEntries ∧ x.id < s.wheel.heap.length

theorem logged_empty : Logged ({} : State α N) := ⟨inv_empty, fun x hx => by cases hx⟩

theorem Logged.outputs_eq_nil (h : Logged s) (hid : id ∈ s.wheel.allEntries ∨ s.wheel.heap.length ≤ id) :
    s.outputs id = [] := by
  rw [State.outputs, List.filter_eq_nil_iff]
  intro x hx
  rw [beq_iff_eq]
  rintro rfl
  obtain ⟨hmem, hlt⟩ := h.log x hx
  rcases hid with hid | hid
  · exact hmem hid
  · exact Nat.lt_irrefl _ (Nat.lt_of_lt_of_le hlt hid)

theorem Effect.log (h : Effect s op t) : (∃ k ids, Puts s k ids t) ∨ t.log = s.log := by
  cases op with
  | tick =>
    obtain rfl := h
    exact Or.inr rfl
  | getExpired => exact Or.inl ⟨_, h⟩
  | getExpiredAt k => exact Or.inl ⟨_, h⟩
  | add value duration => exact Or.inr h.1
  | cancel hdl =>
    rcases h with ⟨-, rfl⟩ | ⟨-, hlog, -⟩
    · exact Or.inr rfl
    · exact Or.inr hlog
  | reset hdl =>
    rcases h with ⟨-, rfl⟩ | ⟨e, -, -, hlog, -⟩
    · exact Or.inr rfl
    · exact Or.inr hlog
  | clear => exact Or.inr h.1
  | size =>
    obtain rfl := h
    exact Or.inr rfl

theorem Logged.step (h : Logged s) (ht : step s op = .ok t) : Logged t := by
  obtain ⟨hinv, heff⟩ := step_inv h.inv ht
  have hold : ∀ x ∈ s.log, x.id ∉ t.wheel.allEntries ∧ x.id < t.wheel.heap.length := fun x hx => by
    obtain ⟨hmem, hlt⟩ := h.log x hx
    have hdone : Done s x.id (s.outputs x.id) := ⟨h.inv, hlt, hmem, rfl⟩
    exact ⟨(hdone.step ht).not_mem, (hdone.step ht).lt⟩
  refine ⟨hinv, fun x hx => ?_⟩
  rcases heff.log with ⟨k, ids, hputs⟩ | hlog
  · rw [hputs.log] at hx
    rcases List.mem_append.mp hx with hx | hx
    · exact hold x hx
    · obtain ⟨id, hid, hx⟩ := List.mem_filterMap.mp hx
      obtain ⟨e, he, rfl⟩ := Option.map_eq_some_iff.mp hx
      rw [hputs.allEntries, hputs.heap]
      exact ⟨fun hm => (h.inv.nodup.mem_sdiff_iff.mp hm).2 hid, (List.getElem?_eq_some_iff.mp he).1⟩
  · exact hold x (hlog ▸ hx)

/-- The call starts the timer with this value and duration: it adds it, or moves it. -/
def Starts (s : State α N) (op : Op α) (id : Nat) (value : α) (duration : Nat) : Prop :=
  match op with
  | .add v d => id = s.wheel.heap.length ∧ v = value ∧ d.toNat = duration
  | .reset hdl => hdl = id ∧ ∃ e, s.wheel.lock id = some e ∧ s.wheel.Moves e ∧ e.value = value ∧ e.duration = duration
  | _ => False

theorem pending_of_starts {value : α} {duration : Nat} (h : Logged s) (hs : Starts s op id value duration)
    (hfit : s.wheel.currentTick + duration < 2 ^ 64) (ht : step s op = .ok t) (polled : Bool) :
    ∃ e, Pending t id e polled duration ∧ e.value = value ∧ e.duration = duration ∧
      (duration ≠ 0 → e.tick = s.wheel.currentTick + duration) := by
  obtain ⟨hinv, heff⟩ := step_inv h.inv ht
  have hmod : uint64 (duration + s.wheel.currentTick) = s.wheel.currentTick + duration := by
    rw [uint64, Nat.add_comm, Nat.mod_eq_of_lt hfit]
  cases op with
  | add v d =>
    obtain ⟨rfl, rfl, rfl⟩ := hs
    obtain ⟨hlog, htick, hall, e, hheap, hv, hd, hetick⟩ := heff
    rw [hmod] at hetick
    have hself : t.wheel.heap[s.wheel.heap.length]? = some e := by rw [hheap]; simp
    have hmem : s.wheel.heap.length ∈ t.wheel.allEntries := by rw [hall]; simp
    refine ⟨e, ⟨hinv, hinv.lock_eq_some_iff.mpr ⟨hmem, hself⟩, ?_, ?_⟩, hv, hd, fun hne => hetick (hd ▸ hne)⟩
    · rw [State.outputs, hlog]
      exact h.outputs_eq_nil (Or.inr (Nat.le_refl _))
    · rw [htick]
      by_cases hzero : e.duration = 0
      · exact Or.inl ⟨hzero, hd ▸ hzero⟩
      · exact Or.inr ⟨hzero, hetick hzero, by rw [hetick hzero]; exact hfit, fun _ => by omega⟩
  | reset hdl =>
    obtain ⟨rfl, e, hl, hm, rfl, rfl⟩ := hs
    rcases heff with ⟨hno, -⟩ | ⟨e', hl', -, hlog, htick, hall, hheap⟩
    · exact absurd hm (hno e hl)
    · rw [hl] at hl'
      cases hl'
      rw [hmod] at hheap
      obtain ⟨hmem, he⟩ := h.inv.lock_eq_some_iff.mp hl
      have hself : t.wheel.heap[hdl]? = some { e with tick := s.wheel.currentTick + e.duration } := by
        rw [hheap, List.getElem?_set_self (h.inv.lt_length hmem)]
      refine ⟨_, ⟨hinv, hinv.lock_eq_some_iff.mpr ⟨by rw [hall]; exact hmem, hself⟩, ?_, Or.inr ⟨hm.1, ?_, hfit, ?_⟩⟩,
        rfl, rfl, fun _ => rfl⟩
      · rw [State.outputs, hlog]
        exact h.outputs_eq_nil (Or.inl hmem)
      · rw [htick]
      · exact fun _ => Nat.pos_of_ne_zero hm.1
  | _ => exact hs.elim

theorem paced_append {polled : Bool} {pre : List (Op α)} (h : Paced polled (pre ++ ops)) : ∃ polled', Paced polled' ops := by
  induction pre generalizing polled with
  | nil => exact ⟨polled, h⟩
  | cons op pre ih =>
    cases op with
    | tick => exact ih h.2
    | getExpiredAt k => exact h.elim
    | _ => exact ih h

/-- In a paced run of allowed calls, a timer that is started at the tick `t` with a duration `d`, where
    `t + d` is below 2^64, and that is not disturbed afterwards, is put out exactly once, with its value
    and duration and (if `d` is not 0) at the tick `t + d`, as soon as `get_expired()` has been called
    after `d` ticks, and not before. -/
theorem expires_once (pre post : List (Op α)) (start : Op α) (s : State α N) (id : Nat) (value : α) (duration : Nat)
    (hpaced : Paced true (pre ++ start :: post)) (hallowed : Along step Allowed ({} : State α N) (pre ++ start :: post))
    (hpre : run step {} pre = .ok s) (hstart : Starts s start id value duration)
    (hfit : s.wheel.currentTick + duration < 2 ^ 64)
    (hundisturbed : ∀ u, step s start = .ok u → Along step (Undisturbed id) u post) :
    ∃ t, run step ({} : State α N) (pre ++ start :: post) = .ok t ∧
      ((¬Due duration post ∧ t.outputs id = []) ∨
        (Due duration post ∧ ∃ tick, t.outputs id = [⟨id, value, duration, tick⟩] ∧
          (duration ≠ 0 → tick = s.wheel.currentTick + duration))) := by
  obtain ⟨t, hrun, -⟩ := ((always_inv_iff _).mpr hallowed).run
  refine ⟨t, hrun, ?_⟩
  have hlogged : Logged s :=
    run_invariant (I := fun s : State α N => Logged s) (P := fun _ _ => True) (fun h _ ht => h.step ht) logged_empty
      (along_true _ pre) hpre
  rw [run_append hpre, Run.run] at hrun
  split at hrun
  · cases hrun
  · rename_i u hstep
    have hpost : ∃ polled, Paced polled post := by
      obtain ⟨polled, hp⟩ := paced_append hpaced
      exact paced_append (show Paced polled ([start] ++ post) from hp)
    obtain ⟨polled, hpost⟩ := hpost
    obtain ⟨e, hpending, rfl, rfl, htick⟩ := pending_of_starts hlogged hstart hfit hstep polled
    rcases hpending.run hpost (hundisturbed u hstep) hrun with hnot | ⟨hdue, tick, hout, hat⟩
    · exact Or.inl hnot
    · exact Or.inr ⟨hdue, tick, hout, fun hd => (hat hd).trans (htick hd)⟩

theorem expires_once_one :
    ∃ t, run step ({} : State Nat 3) ([] ++ .add 5 1 :: [.add 6 4, .tick, .getExpired]) = .ok t ∧
      ((¬Due 1 [.add 6 4, .tick, (.getExpired : Op Nat)] ∧ t.outputs 0 = []) ∨
        (Due 1 [.add 6 4, .tick, (.getExpired : Op Nat)] ∧ ∃ tick, t.outputs 0 = [⟨0, 5, 1, tick⟩] ∧
          (1 ≠ 0 → tick = ({} : State Nat 3).wheel.currentTick + 1))) :=
  expires_once [] [.add 6 4, .tick, .getExpired] (.add 5 1) {} 0 5 1 ⟨rfl, trivial⟩
    ⟨trivial, fun _ _ => ⟨trivial, fun _ _ => ⟨trivial, fun _ _ => ⟨trivial, fun _ _ => trivial⟩⟩⟩⟩ rfl ⟨rfl, rfl, rfl⟩
    (by decide) fun _ _ => ⟨trivial, fun _ _ => ⟨trivial, fun _ _ => ⟨trivial, fun _ _ => trivial⟩⟩⟩

/-- Another timer, the only one of its slot, is cancelled. -/
theorem not_expires_once_cancel :
    ¬∀ (pre post : List (Op Nat)) (start : Op Nat) (s : State Nat 3) (id value duration : Nat),
      Paced true (pre ++ start :: post) → run step ({} : State Nat 3) pre = .ok s → Starts s start id value duration →
      s.wheel.currentTick + duration < 2 ^ 64 →
      (∀ u, step s start = .ok u → Along step (Undisturbed id) u post) →
      ∃ t, run step ({} : State Nat 3) (pre ++ start :: post) = .ok t ∧
        ((¬Due duration post ∧ t.outputs id = []) ∨
          (Due duration post ∧ ∃ tick, t.outputs id = [⟨id, value, duration, tick⟩] ∧
            (duration ≠ 0 → tick = s.wheel.currentTick + duration))) := by
  intro h
  obtain ⟨t, ht, -⟩ := h [] [.add 6 1, .cancel 1] (.add 5 2) {} 0 5 2 trivial rfl ⟨rfl, rfl, rfl⟩ (by decide)
    fun _ _ => ⟨trivial, fun _ _ => ⟨fun h0 => absurd h0 (by decide), fun _ _ => trivial⟩⟩
  have habort : (run step ({} : State Nat 3) ([] ++ .add 5 2 :: [.add 6 1, .cancel 1])).toBool = false := by decide
  rw [ht] at habort
  cases habort

end Zylib.ZySoft.TimingWheel
