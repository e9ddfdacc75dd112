import Mathlib.Order.Bounds.Basic
import Mathlib.Order.Nat
import Mathlib.Tactic.Common

/-! The first and the last of a set of places, where a search may find one. A search is over a shorter text after its first place,
    begins behind a place, or goes backwards. -/

namespace Places

/-- The search finds the first of the places, if there is one. -/
def First (S : Set ℕ) (found : Option ℕ) : Prop := ∀ i, found = some i ↔ IsLeast S i

def Last (S : Set ℕ) (found : Option ℕ) : Prop := ∀ i, found = some i ↔ IsGreatest S i

variable {S T : Set ℕ} {found : Option ℕ}

theorem First.of_empty (h : ∀ i, i ∉ S) : First S none := fun i => iff_of_false (Option.some_ne_none i).symm fun hi => h i hi.1

theorem Last.of_empty (h : ∀ i, i ∉ S) : Last S none := fun i => iff_of_false (Option.some_ne_none i).symm fun hi => h i hi.1

theorem First.of_isLeast {i : ℕ} (h : IsLeast S i) : First S (some i) :=
  fun _ => ⟨fun hj => Option.some.inj hj ▸ h, fun hj => congrArg some (h.unique hj)⟩

theorem Last.of_isGreatest {i : ℕ} (h : IsGreatest S i) : Last S (some i) :=
  fun _ => ⟨fun hj => Option.some.inj hj ▸ h, fun hj => congrArg some (h.unique hj)⟩

/-- The places are those of a search that begins at `k`. -/
theorem First.shift {k : ℕ} (h : First T found) (hT : ∀ i, i ∈ T ↔ k + i ∈ S) (hS : ∀ i ∈ S, k ≤ i) :
    First S (found.map (k + ·)) := by
  intro i
  rw [Option.map_eq_some_iff]
  constructor
  · rintro ⟨j, hj, rfl⟩
    obtain ⟨hmem, hleast⟩ := (h j).mp hj
    refine ⟨(hT j).mp hmem, fun i hi => ?_⟩
    have hki := hS i hi
    have hle := hleast ((hT (i - k)).mpr (by rwa [Nat.add_sub_cancel' hki]))
    omega
  · rintro ⟨hmem, hleast⟩
    have hki := hS i hmem
    refine ⟨i - k, (h _).mpr ⟨(hT _).mpr (by rwa [Nat.add_sub_cancel' hki]), fun j hj => ?_⟩, Nat.add_sub_cancel' hki⟩
    have hle := hleast ((hT j).mp hj)
    omega

/-- The first place of the text is none of the places. -/
theorem First.succ (h : First T found) (hT : ∀ i, i ∈ T ↔ i + 1 ∈ S) (hS : 0 ∉ S) : First S (found.map (· + 1)) := by
  have hshift : First S (found.map (1 + ·)) :=
    h.shift (fun i => by rw [hT, Nat.add_comm]) fun i hi => Nat.one_le_iff_ne_zero.mpr fun h0 => hS (h0 ▸ hi)
  simpa only [Nat.add_comm 1] using hshift

/-- The search goes backwards from `n`. -/
theorem First.reverse {n : ℕ} (h : First T found) (hT : ∀ i ∈ T, i ≤ n ∧ n - i ∈ S) (hS : ∀ i ∈ S, i ≤ n ∧ n - i ∈ T) :
    Last S (found.map (n - ·)) := by
  intro i
  rw [Option.map_eq_some_iff]
  constructor
  · rintro ⟨j, hj, rfl⟩
    obtain ⟨hmem, hleast⟩ := (h j).mp hj
    refine ⟨(hT j hmem).2, fun i hi => ?_⟩
    have hle := hleast (hS i hi).2
    have hi' := (hS i hi).1
    omega
  · rintro ⟨hmem, hgreatest⟩
    obtain ⟨hi, hiT⟩ := hS i hmem
    refine ⟨n - i, (h _).mpr ⟨hiT, fun j hj => ?_⟩, by omega⟩
    have hle := hgreatest (hT j hj).2
    have hj' := (hT j hj).1
    omega

end Places
