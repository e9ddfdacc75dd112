import Zylib.ZySoft.IntegerToString
import Zylib.Theorems.ZySoft.StaticString
import Mathlib.Data.Nat.Prime.Basic

/-! `to_static_string` writes the decimal text of every integer, the smallest one too, and never before the begin of its buffer. -/

namespace Zylib.ZySoft.Detail
open StaticString

/-- The decimal text of an integer. -/
def integerText (value : ℤ) : Bytes := if value < 0 then 45 :: decimal value.natAbs else decimal value.natAbs

variable {N value digits : ℕ} {text : Bytes}

theorem digitChar_eq {d : ℕ} (h : d < 10) : UInt8.ofNat (Nat.digitChar d).toNat = UInt8.ofNat (48 + d) := by
  revert d
  decide

theorem decimal_of_lt (h : value < 10) : decimal value = [UInt8.ofNat (48 + value)] := by
  rw [decimal, Nat.toDigits_of_lt_base h, List.map_singleton, digitChar_eq h]

theorem decimal_of_ge (h : 10 ≤ value) : decimal value = decimal (value / 10) ++ [UInt8.ofNat (48 + value % 10)] := by
  rw [decimal, Nat.toDigits_of_base_le (by decide) h, List.map_append, List.map_singleton, digitChar_eq (Nat.mod_lt _ (by decide))]
  rfl

/-- The last digit stands at the end of the text. -/
theorem exists_decimal_eq (value : ℕ) : ∃ front, decimal value = front ++ [UInt8.ofNat (48 + value % 10)] ∧
    (10 ≤ value → front = decimal (value / 10)) ∧ (value < 10 → front = []) := by
  rcases Nat.lt_or_ge value 10 with hlt | hge
  · exact ⟨[], by rw [decimal_of_lt hlt, Nat.mod_eq_of_lt hlt]; rfl, fun h => absurd hlt (by omega), fun _ => rfl⟩
  · exact ⟨_, decimal_of_ge hge, fun _ => rfl, fun h => absurd h (by omega)⟩

theorem assignBefore_eq {c : UInt8} (h : text.length < N) : assignBefore N text c = .ok (c :: text) := if_pos h

theorem writeDigits_eq (hvalue : 0 < value) (hN : (decimal value).length + text.length ≤ N) :
    writeDigits N value text = .ok (decimal value ++ text) := by
  induction value using Nat.strong_induction_on generalizing text with
  | _ value ih =>
    obtain ⟨front, hdecimal, hfront, hnil⟩ := exists_decimal_eq value
    rw [hdecimal, List.length_append, List.length_singleton] at hN
    rw [writeDigits, if_pos hvalue, assignBefore_eq (by omega), hdecimal]
    dsimp only
    rcases Nat.lt_or_ge value 10 with hlt | hge
    · rw [writeDigits, if_neg (by omega), hnil hlt]
      rfl
    · rw [hfront hge] at hN ⊢
      rw [ih (value / 10) (by omega) (by omega) (by rw [List.length_cons]; omega), List.append_assoc]
      rfl

/-! ### The smallest value -/

/-- A power of two does not end with a zero. -/
theorem two_pow_mod_ten (n : ℕ) : 2 ^ n % 10 ≠ 0 := by
  intro h
  have hdvd : 5 ∣ 2 ^ n := (show 5 ∣ 10 by decide).trans (Nat.dvd_of_mod_eq_zero h)
  exact absurd (Nat.Prime.dvd_of_dvd_pow (by decide) hdvd) (by decide)

theorem modify_concat {α : Type} (xs : List α) (x : α) (f : α → α) : (xs ++ [x]).modify xs.length f = xs ++ [f x] := by
  induction xs with
  | nil => rfl
  | cons y xs ih => simpa using ih

/-- The text of the next number, where there is no carry. -/
theorem decimal_succ (h : value % 10 ≠ 9) :
    (decimal value).modify ((decimal value).length - 1) (· + 1) = decimal (value + 1) := by
  have hmod : (value + 1) % 10 = value % 10 + 1 := by omega
  have hdiv : (value + 1) / 10 = value / 10 := by omega
  obtain ⟨front, hdecimal, hfront, hnil⟩ := exists_decimal_eq value
  obtain ⟨front', hdecimal', hfront', hnil'⟩ := exists_decimal_eq (value + 1)
  have heq : front = front' := by
    rcases Nat.lt_or_ge value 10 with hlt | hge
    · rw [hnil hlt, hnil' (by omega)]
    · rw [hfront hge, hfront' (by omega), hdiv]
  rw [hdecimal, hdecimal', heq, hmod, List.length_append, List.length_singleton, Nat.add_sub_cancel, modify_concat]
  exact congrArg (front' ++ [·]) (UInt8.ofNat_add (48 + value % 10) 1).symm

/-- No text of a value of the type is longer than `digits10` and one more. -/
theorem length_decimal_le_digits10 (h : value ≤ 2 ^ digits) : (decimal value).length ≤ digits10 digits + 1 :=
  length_decimal_le (Nat.succ_pos _) (h.trans_lt (Nat.lt_pow_succ_log_self (by decide) _))

theorem toStaticStringIntImpl_eq {buffer : Except Block.Fault Bytes} (hbuffer : buffer = .ok text) (h : text.length ≤ N) :
    ∃ t, toStaticStringIntImpl N buffer = .ok (none, t) ∧ t.content = text ∧ Terminated t := by
  obtain ⟨e, t, ht, hfailure, hrepresents⟩ := assign_meets (N := N) represents_empty (show Text.Inside [] (.outside text) from trivial)
  rw [Text.chars, Text.limited, if_pos h] at hfailure hrepresents
  refine ⟨t, ?_, hrepresents.content_eq, hrepresents.terminated⟩
  rw [hbuffer, toStaticStringIntImpl, ht, Option.map_eq_none_iff.mp hfailure]

/-- The digits of a negative value: those of the smallest are made from those of the largest, whose last digit is not a nine. -/
theorem writeDigits_negative {value : ℤ} (hdigits : 0 < digits) (hneg : value < 0)
    (hN : (decimal value.natAbs).length ≤ N) :
    ∃ text, writeDigits N (if value = -2 ^ digits then 2 ^ digits - 1 else value.natAbs) [] = .ok text ∧
      (if value = -2 ^ digits then text.modify (text.length - 1) (· + 1) else text) = decimal value.natAbs := by
  split
  next heq =>
    have habs : value.natAbs = 2 ^ digits - 1 + 1 := by
      rw [heq, Int.natAbs_neg, Int.natAbs_pow, Nat.sub_add_cancel Nat.one_le_two_pow]
      rfl
    have hlast := two_pow_mod_ten digits
    have hpow : 2 ≤ 2 ^ digits := Nat.le_self_pow hdigits.ne' 2
    have hsucc := decimal_succ (show (2 ^ digits - 1) % 10 ≠ 9 by omega)
    refine ⟨_, writeDigits_eq (by omega) ?_, ?_⟩
    · rw [habs, ← hsucc, List.length_modify] at hN
      simpa using hN
    · rw [List.append_nil, hsucc, habs]
  next => exact ⟨_, writeDigits_eq (by omega) (by simpa using hN), List.append_nil _⟩

/-- A signed integer of any width is converted to its decimal text. -/
theorem toStaticStringSigned_eq (hdigits : 0 < digits) {value : ℤ} (hmin : -2 ^ digits ≤ value) (hmax : value < 2 ^ digits) :
    ∃ t, toStaticStringSigned digits value = .ok (none, t) ∧ t.content = integerText value ∧ Terminated t := by
  have habs : value.natAbs ≤ 2 ^ digits := by
    have hcast : ((2 ^ digits : ℕ) : ℤ) = 2 ^ digits := by norm_cast
    omega
  have hlen := length_decimal_le_digits10 habs
  rcases lt_trichotomy value 0 with hneg | rfl | hpos
  · obtain ⟨text, htext, hdecimal⟩ := writeDigits_negative hdigits hneg (hlen.trans (Nat.le_succ (digits10 digits + 1)))
    have hroom : (decimal value.natAbs).length < digits10 digits + 2 := by omega
    refine toStaticStringIntImpl_eq ?_ (show (integerText value).length ≤ _ by rw [integerText, if_pos hneg]; exact hroom)
    rw [integerToStringSigned, if_neg hneg.ne, if_pos hneg]
    dsimp only
    rw [htext]
    dsimp only
    rw [hdecimal, assignBefore_eq hroom, integerText, if_pos hneg]
  · have hzero : integerText 0 = [48] := decimal_of_lt (by decide)
    rw [hzero]
    refine toStaticStringIntImpl_eq ?_ (Nat.succ_le_succ (Nat.zero_le _))
    exact assignBefore_eq (show ([] : Bytes).length < digits10 digits + 2 from Nat.succ_pos _)
  · have htext : integerText value = decimal value.natAbs := by rw [integerText, if_neg hpos.not_gt]
    refine toStaticStringIntImpl_eq ?_ (show (integerText value).length ≤ _ by rw [htext]; omega)
    rw [integerToStringSigned, if_neg hpos.ne', if_neg hpos.not_gt, writeDigits_eq (by omega) (by simp; omega), List.append_nil, htext]

/-- `INT_MIN`. -/
theorem toStaticStringSigned_eq_min :
    ∃ t, toStaticStringSigned 31 (-2147483648) = .ok (none, t) ∧ t.content = integerText (-2147483648) ∧ Terminated t :=
  toStaticStringSigned_eq (by decide) (by decide) (by decide)

theorem toStaticStringUnsigned_eq (h : value < 2 ^ digits) :
    ∃ t, toStaticStringUnsigned digits value = .ok (none, t) ∧ t.content = decimal value ∧ Terminated t := by
  have hlen := length_decimal_le_digits10 h.le
  refine toStaticStringIntImpl_eq ?_ hlen
  rw [integerToStringUnsigned]
  split
  next hzero =>
    rw [hzero, assignBefore_eq (Nat.succ_pos _), decimal_of_lt (by decide)]
    rfl
  next hne => rw [writeDigits_eq (Nat.pos_of_ne_zero hne) (by simpa using hlen), List.append_nil]

end Zylib.ZySoft.Detail
