import Mathlib.Data.List.Basic

/-! Runs of a machine whose steps may fail. `Along` says that every step of a run meets a condition,
    `Always` that every step succeeds and that every state on the way has a property. -/

namespace Run

variable {σ α ε : Type*} {step : σ → α → Except ε σ}

/-- The state after the inputs, or the error of the first step that fails. -/
def run (step : σ → α → Except ε σ) : σ → List α → Except ε σ
  | s, [] => .ok s
  | s, a :: as =>
    match step s a with
    | .error e => .error e
    | .ok t => run step t as

/-- Each step of the run, as far as it goes, is taken in a state and with an input that meet `P`. -/
def Along (step : σ → α → Except ε σ) (P : σ → α → Prop) : σ → List α → Prop
  | _, [] => True
  | s, a :: as => P s a ∧ ∀ t, step s a = .ok t → Along step P t as

/-- No step of the run fails, and each of its states meets `I`. -/
def Always (step : σ → α → Except ε σ) (I : σ → Prop) : σ → List α → Prop
  | s, [] => I s
  | s, a :: as => I s ∧ ∃ t, step s a = .ok t ∧ Always step I t as

instance decidableAlong {P : σ → α → Prop} [∀ s a, Decidable (P s a)] : ∀ s as, Decidable (Along step P s as)
  | _, [] => .isTrue trivial
  | s, a :: as =>
    match h : step s a with
    | .error _ => decidable_of_iff (P s a) ⟨fun hP => ⟨hP, fun _ ht => by cases h.symm.trans ht⟩, And.left⟩
    | .ok t =>
      have := decidableAlong (P := P) t as
      decidable_of_iff (P s a ∧ Along step P t as)
        ⟨fun hP => ⟨hP.1, fun _ ht => by cases h.symm.trans ht; exact hP.2⟩, fun hP => ⟨hP.1, hP.2 t h⟩⟩

/-! ### What succeeds -/

section
variable {τ : Type*} {x : Except ε σ} {t : τ}

theorem map_eq_ok_iff {f : σ → τ} : x.map f = .ok t ↔ ∃ s, x = .ok s ∧ f s = t := by
  cases x <;> simp [Except.map]

theorem map_eq_error_iff {f : σ → τ} {e : ε} : x.map f = .error e ↔ x = .error e := by
  cases x <;> simp [Except.map]

theorem bind_eq_ok_iff {f : σ → Except ε τ} : x.bind f = .ok t ↔ ∃ s, x = .ok s ∧ f s = .ok t := by
  cases x <;> simp [Except.bind]

end

/-! ### Runs -/

variable {P : σ → α → Prop} {I : σ → Prop} {s t : σ} {as : List α}

theorem run_cons {a : α} (h : step s a = .ok t) (as : List α) : run step s (a :: as) = run step t as := by
  rw [run, h]

theorem run_append (h : run step s as = .ok t) (bs : List α) : run step s (as ++ bs) = run step t bs := by
  induction as generalizing s with
  | nil =>
    cases h
    rfl
  | cons a as ih =>
    rw [run] at h
    split at h
    · cases h
    · rename_i u hu
      rw [List.cons_append, run_cons hu]
      exact ih h

/-- A run that succeeds comes through each of its states. -/
theorem exists_of_run_append {bs : List α} (h : run step s (as ++ bs) = .ok t) :
    ∃ u, run step s as = .ok u ∧ run step u bs = .ok t := by
  induction as generalizing s with
  | nil => exact ⟨s, rfl, h⟩
  | cons a as ih =>
    rw [List.cons_append, run] at h
    split at h
    · cases h
    · rename_i v hv
      obtain ⟨u, hu, ht⟩ := ih h
      exact ⟨u, by rw [run_cons hv, hu], ht⟩

theorem along_true (s : σ) (as : List α) : Along step (fun _ _ => True) s as := by
  induction as generalizing s with
  | nil => trivial
  | cons a as ih => exact ⟨trivial, fun t _ => ih t⟩

theorem along_of_mem {P : α → Prop} (s : σ) (h : ∀ a ∈ as, P a) : Along step (fun _ a => P a) s as := by
  induction as generalizing s with
  | nil => trivial
  | cons a as ih => exact ⟨h a List.mem_cons_self, fun t _ => ih t fun b hb => h b (List.mem_cons_of_mem _ hb)⟩

theorem run_invariant (hstep : ∀ {s a t}, I s → P s a → step s a = .ok t → I t) (hI : I s) (hP : Along step P s as)
    (h : run step s as = .ok t) : I t := by
  induction as generalizing s with
  | nil =>
    cases h
    exact hI
  | cons a as ih =>
    rw [run] at h
    split at h
    · cases h
    · rename_i u hu
      exact ih (hstep hI hP.1 hu) (hP.2 u hu) h

/-- The error of a run is that of a step from a state that meets the invariant. -/
theorem run_error {E : ε → Prop} {e : ε} (hstep : ∀ {s a t}, I s → P s a → step s a = .ok t → I t)
    (herror : ∀ {s a e}, I s → P s a → step s a = .error e → E e) (hI : I s) (hP : Along step P s as)
    (h : run step s as = .error e) : E e := by
  induction as generalizing s with
  | nil => cases h
  | cons a as ih =>
    rw [run] at h
    split at h
    · rename_i e' he
      cases h
      exact herror hI hP.1 he
    · rename_i u hu
      exact ih (hstep hI hP.1 hu) (hP.2 u hu) h

/-- If a step that does not meet `P` leads to a state that fails `Q`, and no later step mends that, then
    `P` holds along a run that ends in a state that meets `Q`. -/
theorem along_of_run {Q : σ → Prop} (hI : ∀ {s a t}, I s → step s a = .ok t → I t)
    (hbad : ∀ {s a t}, I s → step s a = .ok t → Q t → P s a) (hback : ∀ {s a t}, I s → step s a = .ok t → Q t → Q s)
    (hs : I s) (h : run step s as = .ok t) (hQ : Q t) : Along step P s as ∧ Q s := by
  induction as generalizing s with
  | nil =>
    cases h
    exact ⟨trivial, hQ⟩
  | cons a as ih =>
    rw [run] at h
    split at h
    · cases h
    · rename_i u hu
      obtain ⟨hP, hQu⟩ := ih (hI hs hu) h
      refine ⟨⟨hbad hs hu hQu, fun v hv => ?_⟩, hback hs hu hQu⟩
      rw [hu] at hv
      cases hv
      exact hP

/-- If `Q` holds after a step if and only if it held before and the step meets `P`, then `Q` holds after
    a run if and only if it held before and `P` holds along the run. -/
theorem run_iff_along {Q : σ → Prop} (hI : ∀ {s a t}, I s → step s a = .ok t → I t)
    (hQ : ∀ {s a t}, I s → step s a = .ok t → (Q t ↔ Q s ∧ P s a)) (hs : I s) (h : run step s as = .ok t) :
    Q t ↔ Q s ∧ Along step P s as := by
  induction as generalizing s with
  | nil =>
    cases h
    exact ⟨fun hq => ⟨hq, trivial⟩, And.left⟩
  | cons a as ih =>
    rw [run] at h
    split at h
    · cases h
    · rename_i u hu
      rw [ih (hI hs hu) h, hQ hs hu, and_assoc, Along]
      refine and_congr_right fun _ => and_congr_right fun _ => ⟨fun h v hv => ?_, fun h => h u hu⟩
      rw [hu] at hv
      cases hv
      exact h

/-- If, from the states that meet `I`, the steps that fail with `e` are those that do not meet `P`, then a
    run fails with `e` if and only if `P` does not hold along it. -/
theorem run_ne_error_iff_along {e : ε} (hI : ∀ {s a t}, I s → step s a = .ok t → I t)
    (hP : ∀ {s a}, I s → (step s a ≠ .error e ↔ P s a)) (hs : I s) : run step s as ≠ .error e ↔ Along step P s as := by
  induction as generalizing s with
  | nil => exact ⟨fun _ => trivial, fun _ h => by cases h⟩
  | cons a as ih =>
    rw [run, Along, ← hP hs]
    cases hu : step s a with
    | error e' =>
      refine ⟨fun h => ⟨h, fun t ht => by cases ht⟩, fun h => ?_⟩
      exact fun heq => h.1 (heq ▸ rfl)
    | ok u =>
      rw [ih (hI hs hu)]
      refine ⟨fun h => ⟨fun heq => (by cases heq), fun t ht => ?_⟩, fun h => h.2 u rfl⟩
      cases ht
      exact h

/-- If, from the states that meet `I`, the steps that succeed are those that meet `P`, and lead to
    such states, then a run is always in such states if and only if `P` holds along it. -/
theorem always_iff_along (hok : ∀ {s a}, I s → ((∃ t, step s a = .ok t) ↔ P s a))
    (hstep : ∀ {s a t}, I s → step s a = .ok t → I t) (hI : I s) : Always step I s as ↔ Along step P s as := by
  induction as generalizing s with
  | nil => exact ⟨fun _ => trivial, fun _ => hI⟩
  | cons a as ih =>
    constructor
    · rintro ⟨-, t, ht, h⟩
      refine ⟨(hok hI).mp ⟨t, ht⟩, fun u hu => ?_⟩
      rw [ht] at hu
      cases hu
      exact (ih (hstep hI ht)).mp h
    · rintro ⟨hP, h⟩
      obtain ⟨t, ht⟩ := (hok hI).mpr hP
      exact ⟨hI, t, ht, (ih (hstep hI ht)).mpr (h t ht)⟩

/-- Among runs whose steps meet `A`: if the steps that meet `P` succeed and keep `J`, and those that do not meet it
    fail or leave `I`, then a run is always in `I` if and only if `P` holds along it. -/
theorem always_iff_along_of {A : σ → α → Prop} {J : σ → Prop} (hI : ∀ {s}, J s → I s)
    (hok : ∀ {s a}, J s → A s a → P s a → ∃ t, step s a = .ok t ∧ J t)
    (hbad : ∀ {s a t}, J s → A s a → step s a = .ok t → I t → P s a) (hs : J s) (hA : Along step A s as) :
    Always step I s as ↔ Along step P s as := by
  induction as generalizing s with
  | nil => exact ⟨fun _ => trivial, fun _ => hI hs⟩
  | cons a as ih =>
    have htail : ∀ t, step s a = .ok t → P s a → (Always step I t as ↔ Along step P t as) := by
      intro t ht hP
      obtain ⟨u, hu, hJ⟩ := hok hs hA.1 hP
      cases ht.symm.trans hu
      exact ih hJ (hA.2 t ht)
    constructor
    · rintro ⟨-, t, ht, h⟩
      have hIt : I t := by cases as <;> [exact h; exact h.1]
      have hP := hbad hs hA.1 ht hIt
      refine ⟨hP, fun u hu => ?_⟩
      cases ht.symm.trans hu
      exact (htail t ht hP).mp h
    · rintro ⟨hP, h⟩
      obtain ⟨t, ht, -⟩ := hok hs hA.1 hP
      exact ⟨hI hs, t, ht, (htail t ht hP).mpr (h t ht)⟩

/-- What holds of the states of a run and of the inputs before each: if, from `J`, the steps that meet `P` keep `J` and
    those that do not leave `Q`, then every state of the run meets `Q` if and only if `P` holds along it. -/
theorem forall_prefix_iff_along {J Q : List α → σ → Prop} (past : List α) (hQ : ∀ {past s}, J past s → Q past s)
    (hstep : ∀ {past s a t}, J past s → P s a → step s a = .ok t → J (past ++ [a]) t)
    (hbad : ∀ {past s a t}, J past s → step s a = .ok t → Q (past ++ [a]) t → P s a) (hs : J past s)
    (h : run step s as = .ok t) :
    (∀ as' u, as' <+: as → run step s as' = .ok u → Q (past ++ as') u) ↔ Along step P s as := by
  induction as generalizing s past with
  | nil =>
    refine ⟨fun _ => trivial, fun _ as' u has hu => ?_⟩
    cases List.prefix_nil.mp has
    cases hu
    exact (List.append_nil past).symm ▸ hQ hs
  | cons a as ih =>
    rw [run] at h
    split at h
    · cases h
    · rename_i v hv
      have hcons : ∀ as', past ++ [a] ++ as' = past ++ a :: as' := fun as' => List.append_cons past a as' ▸ rfl
      constructor
      · intro hall
        have hP : P s a := by
          refine hbad hs hv (hall [a] v (List.prefix_append [a] as) ?_)
          rw [run_cons hv, run]
        refine ⟨hP, fun w hw => ?_⟩
        cases hv.symm.trans hw
        refine (ih _ (hstep hs hP hv) h).mp fun as' u has hu => hcons as' ▸ hall (a :: as') u ?_ ?_
        · exact List.cons_prefix_cons.mpr ⟨rfl, has⟩
        · rw [run_cons hv, hu]
      · rintro ⟨hP, htail⟩ as' u has hu
        cases as' with
        | nil =>
          cases hu
          exact (List.append_nil past).symm ▸ hQ hs
        | cons b as' =>
          obtain ⟨rfl, htl⟩ := List.cons_prefix_cons.mp has
          rw [run_cons hv] at hu
          exact hcons as' ▸ (ih _ (hstep hs hP hv) h).mpr (htail v hv) as' u htl hu

/-- What is kept, with the inputs so far, by each step that meets `P` holds after a run whose steps all do. -/
theorem run_history {J : List α → σ → Prop} (past : List α)
    (hstep : ∀ {past s a t}, J past s → P s a → step s a = .ok t → J (past ++ [a]) t) (hs : J past s)
    (hP : Along step P s as) (h : run step s as = .ok t) : J (past ++ as) t := by
  induction as generalizing s past with
  | nil =>
    cases h
    rwa [List.append_nil]
  | cons a as ih =>
    rw [run] at h
    split at h
    · cases h
    · rename_i u hu
      rw [List.append_cons]
      exact ih (past ++ [a]) (hstep hs hP.1 hu) (hP.2 u hu) h

/-- If the steps that meet `P` keep `I` or fail with an error in `D`, and the others fail with another error, then the
    error of a run is in `D` if and only if `P` holds along it. -/
theorem run_error_iff_along {D : ε → Prop} (hI : ∀ {s a t}, I s → P s a → step s a = .ok t → I t)
    (herror : ∀ {s a e}, I s → P s a → step s a = .error e → D e)
    (hbad : ∀ {s a}, I s → ¬P s a → ∃ e, step s a = .error e ∧ ¬D e) (hs : I s) :
    (∀ e, run step s as = .error e → D e) ↔ Along step P s as := by
  constructor
  · intro h
    induction as generalizing s with
    | nil => trivial
    | cons a as ih =>
      have hP : P s a := by
        by_contra hP
        obtain ⟨e, he, hD⟩ := hbad hs hP
        exact hD (h e (by rw [run, he]))
      refine ⟨hP, fun t ht => ih (hI hs hP ht) fun e he => h e ?_⟩
      rw [run_cons ht, he]
  · exact fun hP e he => run_error hI herror hs hP he

theorem Along.of_append {bs : List α} (h : Along step P s (as ++ bs)) : Along step P s as := by
  induction as generalizing s with
  | nil => trivial
  | cons a as ih => exact ⟨h.1, fun t ht => ih (h.2 t ht)⟩

theorem Always.run (h : Always step I s as) : ∃ t, run step s as = .ok t ∧ I t := by
  induction as generalizing s with
  | nil => exact ⟨s, rfl, h⟩
  | cons a as ih =>
    obtain ⟨-, u, hu, h⟩ := h
    obtain ⟨t, ht, hI⟩ := ih h
    exact ⟨t, by rw [run_cons hu, ht], hI⟩

end Run
