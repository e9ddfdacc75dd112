import Mathlib.Algebra.BigOperators.Group.List.Basic
import Mathlib.Algebra.Order.Monoid.Defs
import Mathlib.Order.Interval.Set.Union
import Mathlib.Order.SuccPred.IntervalSucc
import Mathlib.Data.Nat.SuccPred

/-! Weights that are laid out one behind the other: each takes the half-open interval from the sum of those before it, so every
    point below the sum of all is in the interval of just one. -/

namespace Weights

variable {α : Type*} [AddCommMonoid α]

/-- Where the weight at `i` begins. -/
def start (ws : List α) (i : ℕ) : α := (ws.take i).sum

@[simp] theorem start_zero (ws : List α) : start ws 0 = 0 := by
  rw [start, List.take_zero, List.sum_nil]

@[simp] theorem start_length (ws : List α) : start ws ws.length = ws.sum := by
  rw [start, List.take_length]

theorem start_succ {ws : List α} {i : ℕ} {w : α} (h : ws[i]? = some w) : start ws (i + 1) = start ws i + w := by
  rw [start, List.take_add_one, h, List.sum_append, Option.toList_some, List.sum_singleton]
  rfl

/-- A weight that comes behind the others moves none of them. -/
theorem start_concat {ws : List α} {i : ℕ} (h : i ≤ ws.length) (w : α) : start (ws ++ [w]) i = start ws i := by
  rw [start, List.take_append_of_le_length h]
  rfl

section
variable [LinearOrder α] {ws : List α}

/-- Every point is in an interval. -/
theorem exists_interval {x : α} (h0 : 0 ≤ x) (hx : x < ws.sum) : ∃ i < ws.length, start ws i ≤ x ∧ x < start ws (i + 1) := by
  have hmem : x ∈ Set.Ico (start ws 0) (start ws ws.length) := by
    rw [start_zero, start_length]
    exact ⟨h0, hx⟩
  obtain ⟨i, hi, hxi⟩ := Set.mem_iUnion₂.mp (Ico_subset_biUnion_Ico ws.length (start ws) hmem)
  exact ⟨i, Finset.mem_range.mp hi, hxi⟩

variable [IsOrderedAddMonoid α]

theorem start_mono (h : ∀ w ∈ ws, 0 ≤ w) : Monotone (start ws) := by
  refine monotone_nat_of_le_succ fun i => ?_
  cases hw : ws[i]? with
  | none =>
    have hle := List.getElem?_eq_none_iff.mp hw
    rw [start, start, List.take_of_length_le hle, List.take_of_length_le (Nat.le_succ_of_le hle)]
  | some w =>
    rw [start_succ hw]
    exact le_add_of_nonneg_right (h w (List.mem_of_getElem? hw))

theorem start_bounds (h : ∀ w ∈ ws, 0 ≤ w) {i : ℕ} (hi : i ≤ ws.length) : 0 ≤ start ws i ∧ start ws i ≤ ws.sum := by
  rw [← start_zero ws, ← start_length ws]
  exact ⟨start_mono h (Nat.zero_le i), start_mono h hi⟩

/-- The sum of the first weights is no more than that of all. -/
theorem sum_bounds {vs : List α} (h : ∀ w ∈ ws ++ vs, 0 ≤ w) : 0 ≤ ws.sum ∧ ws.sum ≤ (ws ++ vs).sum := by
  have hsum : start (ws ++ vs) ws.length = ws.sum := by
    rw [start, List.take_left]
  rw [← hsum]
  exact start_bounds h (by rw [List.length_append]; exact Nat.le_add_right _ _)

/-- No point is in two. -/
theorem interval_unique (h : ∀ w ∈ ws, 0 ≤ w) {x : α} {i j : ℕ} (hi : start ws i ≤ x ∧ x < start ws (i + 1))
    (hj : start ws j ≤ x ∧ x < start ws (j + 1)) : i = j := by
  by_contra hij
  exact Set.disjoint_left.mp ((start_mono h).pairwise_disjoint_on_Ico_succ hij) hi hj

end

end Weights
