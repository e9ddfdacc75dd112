import Zylib.Rediscpp.Buffer
import Zylib.Theorems.Mysqlcpp.Convert

/-! Integers through a `Buffer`. The types of one byte are read as a character, so no value of them comes back. -/

namespace Zylib.Rediscpp
open Mysqlcpp (IntType cvtNoexcept cvtNoexcept_char cvtNoexcept_printfD signedDigits_of_digits)

namespace Buffer

variable {ty : IntType} {val : Int} {s : Bytes}

theorem asString_ofString (s : Bytes) : (ofString s).asString = s := by
  cases s <;> rfl

theorem asIntDetail_ofString (hs : s ≠ []) : asIntDetail ty (ofString s) = cvtNoexcept ty s := by
  unfold asIntDetail
  rw [asString_ofString]
  exact if_neg (by simp [hs])

theorem printfD_ne_nil (val : Int) : printfD 0 val ≠ [] := by
  unfold printfD
  split <;> simp [decimal_ne_nil]

/-- All constructors write the same text. -/
theorem eq_ofInteger {construct : Int → Buffer} (h : construct ∈ constructors ty) : construct = ofInteger := by
  cases ty <;> rcases List.mem_cons.mp h with rfl | h
  case int64.inr | uint64.inr => rw [List.mem_singleton.mp h]; rfl
  all_goals first | rfl | cases h

/-- All accessors of a type read the same number. -/
theorem eq_asIntDetail {access : Buffer → Int} (h : access ∈ accessors ty) : access = asIntDetail ty := by
  cases ty <;> rcases List.mem_cons.mp h with rfl | h
  case int32.inr => rw [List.mem_singleton.mp h]; rfl
  all_goals first | rfl | cases h

/-! ### Types of more than one byte -/

theorem asIntDetail_ofInteger (hsize : ty.size ≠ 1) (h : ty.InRange val) : asIntDetail ty (ofInteger val) = val := by
  have hbounds : -2 ^ 63 ≤ val ∧ val < 2 ^ 64 := by
    obtain ⟨hmin, hbound⟩ := h
    cases ty <;> simp only [IntType.min, IntType.bound, IntType.signed, IntType.size] at hmin hbound <;> simp at hmin hbound <;>
      omega
  rw [ofInteger, asIntDetail_ofString (printfD_ne_nil val), cvtNoexcept_printfD hsize 0 hbounds.1 hbounds.2, if_pos h]

theorem asIntDetail_outOfRange (hs : s ≠ []) (hdigits : ∀ c ∈ s, isDigit c) (hrange : ¬ty.InRange (digitsValue s)) :
    asIntDetail ty (ofString s) = 0 := by
  rw [asIntDetail_ofString hs]
  by_cases hsize : ty.size = 1
  · -- a text of one digit denotes a number that every type has
    rw [cvtNoexcept_char hsize]
    split
    · rename_i c
      have hc := hdigits c (List.mem_singleton_self c)
      refine absurd ?_ hrange
      unfold isDigit at hc
      have hvalue : digitsValue [c] = c.toNat - 48 := by simp [digitsValue]
      rw [hvalue]
      cases ty <;> simp only [IntType.InRange, IntType.min, IntType.bound, IntType.signed, IntType.size] at hsize ⊢ <;>
        simp at hsize ⊢ <;> omega
    · rfl
  · unfold cvtNoexcept Mysqlcpp.convert
    rw [if_neg hsize, signedDigits_of_digits hs hdigits]
    have hstrto : Mysqlcpp.strto ty false (digitsValue s) = digitsValue s := by
      unfold Mysqlcpp.strto
      split <;> simp
    simp only [hstrto, if_neg hrange, Option.getD_none]

/-! ### Types of one byte -/

/-- A number of one digit is read as the character, and one of more characters is not read. -/
theorem asIntDetail_ofInteger_ne (hsize : ty.size = 1) : asIntDetail ty (ofInteger val) ≠ val := by
  rw [ofInteger, asIntDetail_ofString (printfD_ne_nil val), cvtNoexcept_char hsize]
  split
  · rename_i c hc
    have hneg : 0 ≤ val := by
      by_contra hneg
      obtain ⟨digits, hdigits, hne, -⟩ := printfD_of_neg 0 (Int.not_le.mp hneg)
      rw [hdigits] at hc
      exact hne (List.cons.inj hc).2
    obtain ⟨-, hdigit, hvalue⟩ := printfD_spec 0 hneg
    rw [hc] at hdigit hvalue
    have hd := hdigit c (List.mem_singleton_self c)
    unfold isDigit at hd
    have hvalue : c.toNat - 48 = val.natAbs := by simpa [digitsValue] using hvalue
    have hwrap : ty.wrap c.toNat = c.toNat := by
      cases ty <;> simp only [IntType.wrap, IntType.bound, IntType.signed, IntType.size] at hsize ⊢ <;> simp at hsize ⊢ <;> omega
    rw [hwrap]
    omega
  · rename_i hlong
    rintro rfl
    exact hlong 48 rfl

/-- A value comes back, and a number out of range is read as 0, if and only if the type has more than one byte; the
    latter is true of all types. -/
theorem integer_roundTrip_iff {construct : Int → Buffer} {access : Buffer → Int} (hc : construct ∈ constructors ty)
    (ha : access ∈ accessors ty) (h : ty.InRange val) :
    (access (construct val) = val ∧ ∀ s, s ≠ [] → (∀ c ∈ s, isDigit c) → ¬ty.InRange (digitsValue s) →
      access (ofString s) = 0) ↔ ty.size ≠ 1 := by
  rw [eq_ofInteger hc, eq_asIntDetail ha]
  constructor
  · exact fun hall hsize => asIntDetail_ofInteger_ne hsize hall.1
  · exact fun hsize => ⟨asIntDetail_ofInteger hsize h, fun s hs hdigits hrange => asIntDetail_outOfRange hs hdigits hrange⟩

theorem integer_roundTrip_iff_int64 : asInt64 (ofLongLong (-9223372036854775808)) = -9223372036854775808 :=
  have hmem : ofLongLong ∈ constructors .int64 := List.mem_cons_of_mem _ (List.mem_singleton_self _)
  ((integer_roundTrip_iff hmem (List.mem_singleton_self _) (by decide)).mpr (by decide)).1

/-- The text of 5 is read as a character, whose number is 53. -/
theorem not_integer_roundTrip : ¬∀ ty, ∀ construct ∈ constructors ty, ∀ access ∈ accessors ty, ∀ val, ty.InRange val →
    access (construct val) = val := by
  intro h
  have h5 : asUInt8 (ofInt 5) = 5 :=
    h .uint8 ofInt (List.mem_singleton_self _) asUInt8 (List.mem_singleton_self _) 5 (by decide)
  have h53 : asUInt8 (ofInt 5) = 53 := by decide
  cases h5.symm.trans h53

end Buffer

end Zylib.Rediscpp
