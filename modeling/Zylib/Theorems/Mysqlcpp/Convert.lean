import Zylib.Mysqlcpp.Convert
import Zylib.Lib.LittleEndian

/-! Reading integers from decimal texts and from little-endian bytes. -/

namespace Zylib.Mysqlcpp
open LittleEndian

theorem isNumber_of_digits {s : Bytes} (hs : s ≠ []) (h : ∀ c ∈ s, isDigit c) :
    (!s.isEmpty && s.all (decide <| isDigit ·)) = true := by
  rw [Bool.and_eq_true, Bool.not_eq_true', List.isEmpty_eq_false_iff, List.all_eq_true]
  exact ⟨hs, fun c hc => decide_eq_true (h c hc)⟩

theorem signedDigits_of_digits {s : Bytes} (hs : s ≠ []) (h : ∀ c ∈ s, isDigit c) : signedDigits s = some (false, s) := by
  unfold signedDigits
  split
  rename_i neg digits heq
  split at heq
  · exact absurd (h 45 List.mem_cons_self) (by decide)
  · exact absurd (h 43 List.mem_cons_self) (by decide)
  · cases heq
    rw [if_pos (isNumber_of_digits hs h)]

theorem signedDigits_printfD (width : Nat) (n : Int) :
    ∃ digits, signedDigits (printfD width n) = some (decide (n < 0), digits) ∧ digitsValue digits = n.natAbs := by
  rcases Int.lt_or_le n 0 with hn | hn
  · obtain ⟨digits, heq, hne, hdigits, hvalue⟩ := printfD_of_neg width hn
    refine ⟨digits, ?_, hvalue⟩
    rw [heq, decide_eq_true hn]
    exact if_pos (isNumber_of_digits hne hdigits)
  · obtain ⟨hne, hdigits, hvalue⟩ := printfD_spec width hn
    refine ⟨_, ?_, hvalue⟩
    rw [signedDigits_of_digits hne hdigits, decide_eq_false (by omega)]

namespace IntType

/-- The values of the two types of a size. -/
theorem bounds_of_inRange {ty ty' : IntType} (hsize : ty.size = ty'.size) {n : Int} (h : ty'.InRange n) :
    -2 ^ (8 * ty.size - 1) ≤ n ∧ n < 2 ^ (8 * ty.size) := by
  cases ty <;> cases ty' <;> simp_all [InRange, min, bound, size, signed] <;> omega

theorem wrap_of_inRange {ty : IntType} {n : Int} (h : ty.InRange n) : ty.wrap n = n := by
  cases ty <;> simp_all [InRange, min, bound, size, signed, wrap] <;> omega

theorem wrap_eq_zero {ty : IntType} {n : Int} (h : -2 ^ (8 * ty.size - 1) ≤ n ∧ n < 2 ^ (8 * ty.size)) :
    ty.wrap n = 0 ↔ n = 0 := by
  cases ty <;> simp_all [bound, size, signed, wrap] <;> omega

theorem wrap_add_ne {ty : IntType} (hsize : ty.size = 1) {k : Int} (h0 : 0 < k) (h : k < 2 ^ 8) (n : Int) :
    ty.wrap (n + k) ≠ ty.wrap n := by
  cases ty <;> simp_all [bound, size, signed, wrap] <;> omega

theorem wrap_emod (ty : IntType) (n : Int) : ty.wrap (n % 2 ^ (8 * ty.size)) = ty.wrap n := by
  unfold wrap
  rw [Int.emod_emod]

theorem wrap_ofLE_toLE (ty : IntType) (n : Int) :
    ty.wrap (ofLE (toLE ty.size (n % 2 ^ (8 * ty.size)).toNat) : Nat) = ty.wrap n := by
  have hpos : (0 : Int) < 2 ^ (8 * ty.size) := Int.pow_pos (by decide)
  have hlt : (n % 2 ^ (8 * ty.size)).toNat < 256 ^ ty.size := by
    have h := Int.emod_lt_of_pos n hpos
    cases ty <;> simp only [size] at h ⊢ <;> omega
  rw [ofLE_toLE, Nat.mod_eq_of_lt hlt, Int.toNat_of_nonneg (Int.emod_nonneg _ (Int.ne_of_gt hpos)), wrap_emod]

end IntType

theorem strto_natAbs (ty : IntType) {n : Int} (hn : n.natAbs < 2 ^ 64) :
    strto ty (decide (n < 0)) n.natAbs = if ty.signed ∨ 0 ≤ n then n else n % 2 ^ 64 := by
  unfold strto
  rcases Int.lt_or_le n 0 with hneg | hneg
  · have habs : -(n.natAbs : Int) = n := by omega
    rw [habs, decide_eq_true hneg]
    cases hs : ty.signed with
    | true => rfl
    | false => simp only [Bool.false_eq_true, if_false, hn, Int.not_le.mpr hneg, true_and, if_true, false_or]
  · have habs : (n.natAbs : Int) = n := by omega
    rw [habs, decide_eq_false (Int.not_lt.mpr hneg), if_pos (Or.inr hneg)]
    cases hs : ty.signed <;> simp

/-- What `cvt_noexcept` makes of the text of a number, for a type of more than one byte. -/
theorem cvtNoexcept_printfD {ty : IntType} (hsize : ty.size ≠ 1) (width : Nat) {n : Int} (h0 : -2 ^ 63 ≤ n)
    (h : n < 2 ^ 64) :
    cvtNoexcept ty (printfD width n) = if ty.InRange n then n else if ty = .uint64 then n % 2 ^ 64 else 0 := by
  obtain ⟨digits, hdigits, hvalue⟩ := signedDigits_printfD width n
  have hstrto := strto_natAbs ty (show n.natAbs < 2 ^ 64 by omega)
  unfold cvtNoexcept convert
  rw [if_neg hsize, hdigits]
  simp only [hvalue, hstrto]
  by_cases hsign : ty.signed ∨ 0 ≤ n
  · rw [if_pos hsign]
    by_cases hrange : ty.InRange n
    · rw [if_pos hrange, if_pos hrange, Option.getD_some]
    · have hne : ty ≠ .uint64 := by
        rintro rfl
        exact hrange ⟨hsign.resolve_left (by decide), h⟩
      rw [if_neg hrange, if_neg hrange, if_neg hne, Option.getD_none]
  · rw [if_neg hsign]
    obtain ⟨hunsigned, hneg⟩ := not_or.mp hsign
    have hrange : ¬ty.InRange n := by
      rintro ⟨hmin, -⟩
      rw [IntType.min, if_neg hunsigned] at hmin
      exact hneg hmin
    rw [if_neg hrange]
    -- what `strtoull` makes of a negative number is at least 2 ^ 63
    by_cases hty : ty = .uint64
    · subst hty
      rw [if_pos rfl, if_pos ⟨Int.emod_nonneg _ (by decide), Int.emod_lt_of_pos _ (by decide)⟩, Option.getD_some]
    · have hrange : ¬ty.InRange (n % 2 ^ 64) := by
        rintro ⟨-, hr⟩
        cases ty <;> simp only [IntType.bound, IntType.signed, IntType.size] at hr hunsigned hty <;>
          simp at hr hunsigned hty <;> omega
      rw [if_neg hty, if_neg hrange, Option.getD_none]

/-- A text of one character is read as that character. -/
theorem cvtNoexcept_char {ty : IntType} (hsize : ty.size = 1) (s : Bytes) :
    cvtNoexcept ty s = match s with | [c] => ty.wrap c.toNat | _ => 0 := by
  unfold cvtNoexcept convert
  rw [if_pos hsize]
  rcases s with _ | ⟨c, _ | ⟨d, s⟩⟩ <;> rfl

end Zylib.Mysqlcpp
