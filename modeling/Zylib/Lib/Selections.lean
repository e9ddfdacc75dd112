import Mathlib.Data.List.Sort
import Mathlib.Data.List.Sublists

/-! The selections of `n` elements of a list, in lexicographic order when the list is sorted. They are its sublists of length `n`,
    those with the first element before those without. -/

namespace Selections

variable {α : Type*}

/-- The sublists of length `n`. -/
def selections (n : ℕ) (l : List α) : List (List α) := (l.sublistsLen n).reverse

@[simp] theorem selections_zero (l : List α) : selections 0 l = [[]] := by
  rw [selections, List.sublistsLen_zero, List.reverse_singleton]

@[simp] theorem selections_succ_nil (n : ℕ) : selections (n + 1) ([] : List α) = [] := by
  rw [selections, List.sublistsLen_succ_nil, List.reverse_nil]

theorem selections_succ_cons (n : ℕ) (a : α) (l : List α) :
    selections (n + 1) (a :: l) = (selections n l).map (a :: ·) ++ selections (n + 1) l := by
  rw [selections, List.sublistsLen_succ_cons, List.reverse_append, ← List.map_reverse]
  rfl

theorem mem_selections {n : ℕ} {l q : List α} : q ∈ selections n l ↔ q.Sublist l ∧ q.length = n := by
  rw [selections, List.mem_reverse, List.mem_sublistsLen]

/-- There is none of more elements than there are. -/
theorem selections_of_length_lt {n : ℕ} {l : List α} (h : l.length < n) : selections n l = [] := by
  rw [selections, List.sublistsLen_of_length_lt h, List.reverse_nil]

variable {r : α → α → Prop}

/-- In a sorted list the sublists are the sorted lists of its elements. -/
theorem sublist_iff [Std.Antisymm r] [Std.Irrefl r] {l q : List α} (hl : l.Pairwise r) :
    q.Sublist l ↔ q.Pairwise r ∧ ∀ x ∈ q, x ∈ l := by
  constructor
  · intro h
    exact ⟨hl.sublist h, fun x hx => h.subset hx⟩
  · rintro ⟨hq, hsub⟩
    exact List.sublist_of_subperm_of_pairwise (List.subperm_of_subset hq.nodup hsub) hq hl

/-- The selections of a sorted list are in lexicographic order, so there is none twice. -/
theorem pairwise_selections {l : List α} (hl : l.Pairwise r) (n : ℕ) : (selections n l).Pairwise (List.Lex r) := by
  induction l generalizing n with
  | nil =>
    cases n with
    | zero => simp
    | succ n => simp
  | cons a l ih =>
    obtain ⟨ha, hl⟩ := List.pairwise_cons.mp hl
    cases n with
    | zero => simp
    | succ n =>
      rw [selections_succ_cons]
      refine List.pairwise_append.mpr ⟨?_, ih hl (n + 1), ?_⟩
      · exact List.pairwise_map.mpr ((ih hl n).imp List.Lex.cons)
      · intro p hp q hq
        obtain ⟨p, -, rfl⟩ := List.mem_map.mp hp
        obtain ⟨hsub, hlen⟩ := mem_selections.mp hq
        obtain ⟨b, q, rfl⟩ := List.exists_cons_of_length_eq_add_one hlen
        exact List.Lex.rel (ha b (hsub.subset (List.mem_cons_self ..)))

/-! ### By size -/

/-- The shorter before the longer, and those of one length in lexicographic order. -/
def BySize (r : α → α → Prop) (p q : List α) : Prop := p.length < q.length ∨ p.length = q.length ∧ List.Lex r p q

/-- The selections of `n` to `n + k - 1` elements. -/
def selectionsFrom (l : List α) (n k : ℕ) : List (List α) := (List.range' n k).flatMap fun size => selections size l

theorem selectionsFrom_succ (l : List α) (n k : ℕ) :
    selectionsFrom l n (k + 1) = selections n l ++ selectionsFrom l (n + 1) k := by
  rw [selectionsFrom, List.range'_succ, List.flatMap_cons]
  rfl

theorem mem_selectionsFrom {l q : List α} {n k : ℕ} :
    q ∈ selectionsFrom l n k ↔ q.Sublist l ∧ n ≤ q.length ∧ q.length < n + k := by
  simp only [selectionsFrom, List.mem_flatMap, List.mem_range'_1, mem_selections]
  constructor
  · rintro ⟨size, hsize, hsub, rfl⟩
    exact ⟨hsub, hsize⟩
  · rintro ⟨hsub, hsize⟩
    exact ⟨q.length, hsize, hsub, rfl⟩

theorem pairwise_selectionsFrom {l : List α} (hl : l.Pairwise r) (n k : ℕ) : (selectionsFrom l n k).Pairwise (BySize r) := by
  induction k generalizing n with
  | zero => simp [selectionsFrom]
  | succ k ih =>
    rw [selectionsFrom_succ]
    refine List.pairwise_append.mpr ⟨?_, ih (n + 1), ?_⟩
    · refine (pairwise_selections hl n).imp_of_mem fun {p q} hp hq hlex => ?_
      exact .inr ⟨(mem_selections.mp hp).2.trans (mem_selections.mp hq).2.symm, hlex⟩
    · intro p hp q hq
      have hlt := (mem_selectionsFrom.mp hq).2.1
      rw [← (mem_selections.mp hp).2] at hlt
      exact .inl hlt

end Selections
