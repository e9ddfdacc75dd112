import Mathlib.Data.List.Perm.Basic
import Mathlib.Data.List.Forall2
import Mathlib.Data.List.Nodup

/-! Lists of things that are found and taken out one at a time, of things that are numbered in the
    order in which they are made, and of things each of which is computed or fails. -/

namespace Lists

variable {β : Type*} {f : β → Bool} {l : List β} {x : β}

/-- What `find?` finds and `eraseP` takes out. -/
theorem perm_of_find? (h : l.find? f = some x) : l.Perm (x :: l.eraseP f) := by
  obtain ⟨hx, pre, post, rfl, hpre⟩ := List.find?_eq_some_iff_append.mp h
  rw [List.eraseP_append_right _ (fun y hy => by simpa using hpre y hy), List.eraseP_cons_of_pos hx]
  exact List.perm_middle

theorem ne_nil_of_find? (h : l.find? f = some x) : l ≠ [] :=
  List.ne_nil_of_mem (List.mem_of_find?_eq_some h)

theorem eq_singleton_of_find? (hone : l.length ≤ 1) (h : l.find? f = some x) : l = [x] ∧ l.eraseP f = [] := by
  have hperm := perm_of_find? h
  have hlen := hperm.length_eq
  rw [List.length_cons] at hlen
  have hnil : l.eraseP f = [] := List.length_eq_zero_iff.mp (by omega)
  rw [hnil] at hperm
  exact ⟨List.perm_singleton.mp hperm, hnil⟩

/-- What is replaced at a position, and what is not. -/
theorem perm_of_set {i : ℕ} (h : l[i]? = some x) (y : β) : ∃ rest, l.Perm (x :: rest) ∧ (l.set i y).Perm (y :: rest) := by
  obtain ⟨hi, rfl⟩ := List.getElem?_eq_some_iff.mp h
  exact ⟨l.eraseIdx i, (List.getElem_cons_eraseIdx_perm hi).symm, List.set_perm_cons_eraseIdx hi y⟩

/-- Things that are numbered in the order in which they are made have different numbers. -/
theorem fresh_of_perm {ns ns' : List ℕ} {n : ℕ} (hperm : ns'.Perm (n :: ns)) (hnodup : ns.Nodup) (hlt : ∀ x ∈ ns, x < n) :
    ns'.Nodup ∧ ∀ x ∈ ns', x < n + 1 := by
  refine ⟨hperm.nodup_iff.mpr (List.nodup_cons.mpr ⟨fun h => Nat.lt_irrefl _ (hlt n h), hnodup⟩), fun x hx => ?_⟩
  rcases List.mem_cons.mp (hperm.mem_iff.mp hx) with rfl | hx
  · exact Nat.lt_succ_self _
  · exact Nat.lt_succ_of_lt (hlt x hx)

/-! ### Computations that may fail -/

section
variable {α ε γ : Type} {g : α → Except ε γ} {xs : List α}

/-- What is computed of a list is computed of each of its elements. -/
theorem mapM_eq_ok_iff {ys : List γ} : xs.mapM g = .ok ys ↔ List.Forall₂ (fun x y => g x = .ok y) xs ys := by
  induction xs generalizing ys with
  | nil => cases ys <;> simp [pure, Except.pure]
  | cons x xs ih =>
    rw [List.mapM_cons]
    cases hx : g x with
    | error e => cases ys <;> simp [bind, Except.bind, hx]
    | ok y =>
      cases hxs : xs.mapM g with
      | error e => cases ys <;> simp [bind, Except.bind, hx, ← ih, hxs]
      | ok ys' => cases ys <;> simp [bind, Except.bind, pure, Except.pure, hx, ← ih, hxs]

/-- Nothing fails if no element does. -/
theorem exists_mapM_eq_ok_iff : (∃ ys, xs.mapM g = .ok ys) ↔ ∀ x ∈ xs, ∃ y, g x = .ok y := by
  simp only [mapM_eq_ok_iff]
  induction xs with
  | nil => simp
  | cons x xs ih =>
    rw [List.forall_mem_cons, ← ih]
    constructor
    · rintro ⟨_, _ | ⟨hx, hxs⟩⟩
      exact ⟨⟨_, hx⟩, _, hxs⟩
    · rintro ⟨⟨y, hy⟩, ys, hys⟩
      exact ⟨y :: ys, .cons hy hys⟩

end

/-- What is where after one member changes. -/
theorem getElem?_set_iff {α : Type*} {l : List α} {i j : ℕ} {x y z : α} (hi : l[i]? = some x) :
    (l.set i y)[j]? = some z ↔ i = j ∧ y = z ∨ i ≠ j ∧ l[j]? = some z := by
  by_cases hij : i = j
  · subst hij
    rw [List.getElem?_set_self (List.getElem?_eq_some_iff.mp hi).1, Option.some_inj]
    exact ⟨fun h => .inl ⟨rfl, h⟩, fun h => h.elim And.right fun h => absurd rfl h.1⟩
  · rw [List.getElem?_set_ne hij]
    exact ⟨fun h => .inr ⟨hij, h⟩, fun h => h.elim (fun h => absurd h.1 hij) And.right⟩

/-- What is where after one is added at the end. -/
theorem getElem?_concat_iff {α : Type*} {l : List α} {j : ℕ} {x z : α} :
    (l ++ [x])[j]? = some z ↔ l[j]? = some z ∨ j = l.length ∧ z = x := by
  rcases Nat.lt_trichotomy j l.length with hlt | rfl | hgt
  · rw [List.getElem?_append_left hlt]
    exact ⟨.inl, fun h => h.elim id fun h => absurd h.1 (Nat.ne_of_lt hlt)⟩
  · rw [List.getElem?_concat_length, Option.some_inj, List.getElem?_eq_none (Nat.le_refl _)]
    exact ⟨fun h => .inr ⟨rfl, h.symm⟩, fun h => h.elim (fun h => (by cases h)) fun h => h.2.symm⟩
  · have hnone : (l ++ [x])[j]? = none := List.getElem?_eq_none (by rw [List.length_append]; exact hgt)
    rw [hnone, List.getElem?_eq_none (Nat.le_of_lt hgt)]
    exact ⟨fun h => (by cases h), fun h => h.elim (fun h => (by cases h)) fun h => absurd h.1 (Nat.ne_of_gt hgt)⟩

/-- One member changes, and with it what holds of all. -/
theorem forall_mem_set {α : Type*} {l : List α} {i : Nat} {x y : α} {p : α → Prop} {P : Prop} (hi : l[i]? = some x)
    (h : p y ↔ p x ∧ P) : (∀ z ∈ l.set i y, p z) ↔ (∀ z ∈ l, p z) ∧ P := by
  have hlt : i < l.length := (List.getElem?_eq_some_iff.mp hi).1
  constructor
  · intro hall
    have hy := h.mp (hall y (List.mem_set hlt y))
    refine ⟨fun z hz => ?_, hy.2⟩
    obtain ⟨j, hj⟩ := List.mem_iff_getElem?.mp hz
    by_cases hij : i = j
    · subst hij
      cases hi.symm.trans hj
      exact hy.1
    · exact hall z (List.mem_of_getElem? ((List.getElem?_set_ne hij).trans hj))
  · rintro ⟨hall, hP⟩ z hz
    rcases List.mem_or_eq_of_mem_set hz with hz | rfl
    · exact hall z hz
    · exact h.mpr ⟨hall x (List.mem_of_getElem? hi), hP⟩

end Lists
