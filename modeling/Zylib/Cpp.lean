import Zylib.Lib.LittleEndian

/-! The parts of C++ that several of the modelled sources share: byte strings, the conversions of
    integers on a platform with a 32-bit `int` and a 64-bit `size_t`, `memmove` and decimal texts. -/

namespace Zylib

/-- The contents of a `std::string`, of a `std::vector<uint8_t>` or of a region of memory. -/
abbrev Bytes := List UInt8

def int32Max : Nat := 2 ^ 31 - 1

/-- `std::vector<uint8_t>::max_size()`. -/
def vectorMaxSize : Nat := 2 ^ 63 - 1

/-- A value of type `std::uint64_t`. -/
def uint64 (n : Nat) : Nat := n % 2 ^ 64

/-- The conversion of a signed integer to `size_t`. -/
def toSizeT (n : Int) : Nat := (n % 2 ^ 64).toNat

/-- The conversion of a `size_t` to `int`. -/
def sizeToInt (n : Nat) : Int := if n % 2 ^ 32 < 2 ^ 31 then n % 2 ^ 32 else n % 2 ^ 32 - 2 ^ 32

theorem sizeToInt_le (n : Nat) : sizeToInt n ≤ n := by
  unfold sizeToInt
  split <;> omega

theorem sizeToInt_lt (n : Nat) : sizeToInt n < 2 ^ 31 := by
  unfold sizeToInt
  split <;> omega

theorem sizeToInt_of_lt {n : Nat} (h : n < 2 ^ 31) : sizeToInt n = n := by
  unfold sizeToInt
  rw [if_pos (by omega)]
  omega

theorem toSizeT_of_nonneg {n : Int} (h0 : 0 ≤ n) (h : n < 2 ^ 64) : toSizeT n = n.toNat := by
  unfold toSizeT
  rw [Int.emod_eq_of_lt h0 h]

/-- A negative `int` becomes a size that no vector has. -/
theorem vectorMaxSize_lt_toSizeT {n : Int} (h0 : n < 0) (h : -2 ^ 31 ≤ n) : vectorMaxSize < toSizeT n := by
  unfold toSizeT vectorMaxSize
  have : n % 2 ^ 64 = n + 2 ^ 64 := by omega
  omega

/-- `memmove(p, p + src, n)` on the region `bytes` that starts at `p`. -/
def memmoveFront (bytes : Bytes) (src n : Nat) : Bytes := (bytes.drop src).take n ++ bytes.drop n

theorem take_memmoveFront (bytes : Bytes) (src : Nat) :
    (memmoveFront bytes src (bytes.length - src)).take (bytes.length - src) = bytes.drop src := by
  unfold memmoveFront
  have hlen : (bytes.drop src).length = bytes.length - src := List.length_drop
  rw [← hlen, List.take_length, List.take_left]

/-! ### Decimal texts -/

/-- `std::to_string(n)`. -/
def decimal (n : Nat) : Bytes := (Nat.toDigits 10 n).map fun c => UInt8.ofNat c.toNat

def isDigit (c : UInt8) : Prop := 48 ≤ c.toNat ∧ c.toNat ≤ 57

instance (c : UInt8) : Decidable (isDigit c) := inferInstanceAs (Decidable (_ ∧ _))

/-- The number that a text of digits denotes. -/
def digitsValue (s : Bytes) : Nat := s.foldl (fun n c => 10 * n + (c.toNat - 48)) 0

/-- What `printf` writes for `n` and a conversion `%0wd`, where `w` is the width. -/
def printfD (width : Nat) (n : Int) : Bytes :=
  let digits := decimal n.natAbs
  if n < 0 then 45 :: (List.replicate (width - 1 - digits.length) 48 ++ digits)
  else List.replicate (width - digits.length) 48 ++ digits

theorem digit_bounds {n : Nat} {c : Char} (h : c ∈ Nat.toDigits 10 n) : 48 ≤ c.toNat ∧ c.toNat ≤ 57 := by
  have hd := Nat.isDigit_of_mem_toDigits (by decide) (by decide) h
  unfold Char.isDigit at hd
  simp only [Bool.and_eq_true, decide_eq_true_eq] at hd
  exact ⟨UInt32.le_iff_toNat_le.mp hd.1, UInt32.le_iff_toNat_le.mp hd.2⟩

theorem toNat_digit {n : Nat} {c : Char} (h : c ∈ Nat.toDigits 10 n) : (UInt8.ofNat c.toNat).toNat = c.toNat := by
  have hb := digit_bounds h
  exact UInt8.toNat_ofNat_of_lt' (by unfold UInt8.size; omega)

theorem isDigit_of_mem_decimal {n : Nat} {c : UInt8} (h : c ∈ decimal n) : isDigit c := by
  obtain ⟨d, hd, rfl⟩ := List.mem_map.mp h
  unfold isDigit
  rw [toNat_digit hd]
  exact digit_bounds hd

theorem decimal_ne_nil (n : Nat) : decimal n ≠ [] := by
  unfold decimal
  rw [ne_eq, List.map_eq_nil_iff]
  exact Nat.toDigits_ne_nil

theorem digitsValue_decimal (n : Nat) : digitsValue (decimal n) = n := by
  have hfold : ∀ (cs : List Char) (k : Nat), (∀ c ∈ cs, (UInt8.ofNat c.toNat).toNat = c.toNat) →
      (cs.map fun c => UInt8.ofNat c.toNat).foldl (fun n c => 10 * n + (c.toNat - 48)) k = Nat.ofDigitChars 10 cs k := by
    intro cs
    induction cs with
    | nil => exact fun k _ => rfl
    | cons c cs ih =>
      intro k hcs
      rw [List.map_cons, List.foldl_cons, hcs c List.mem_cons_self, ih _ fun d hd => hcs d (List.mem_cons_of_mem _ hd)]
      exact Nat.ofDigitChars_cons.symm
  exact (hfold _ 0 fun c hc => toNat_digit hc).trans Nat.ofDigitChars_ten_toDigits

theorem decimal_injective {n m : Nat} (h : decimal n = decimal m) : n = m := by
  rw [← digitsValue_decimal n, ← digitsValue_decimal m, h]

theorem digitsValue_replicate_append (k : Nat) (s : Bytes) : digitsValue (List.replicate k 48 ++ s) = digitsValue s := by
  induction k with
  | zero => rfl
  | succ k ih => exact ih

theorem isDigit_of_mem_padded {k n : Nat} {c : UInt8} (h : c ∈ List.replicate k 48 ++ decimal n) : isDigit c := by
  rcases List.mem_append.mp h with h | h
  · rw [List.eq_of_mem_replicate h]
    decide
  · exact isDigit_of_mem_decimal h

theorem length_decimal_le {n k : Nat} (hk : 0 < k) (h : n < 10 ^ k) : (decimal n).length ≤ k := by
  rw [decimal, List.length_map]
  exact (Nat.length_toDigits_le_iff (by decide) hk).mpr h

theorem length_printfD_le {n : Int} {k : Nat} (hk : 0 < k) (h : n.natAbs < 10 ^ k) (width : Nat) :
    (printfD width n).length ≤ width + k + 1 := by
  have hlen := length_decimal_le hk h
  unfold printfD
  split <;> simp <;> omega

theorem printfD_of_neg (width : Nat) {n : Int} (h : n < 0) :
    ∃ digits, printfD width n = 45 :: digits ∧ digits ≠ [] ∧ (∀ c ∈ digits, isDigit c) ∧ digitsValue digits = n.natAbs := by
  refine ⟨List.replicate (width - 1 - (decimal n.natAbs).length) 48 ++ decimal n.natAbs, ?_, ?_, fun c hc => ?_, ?_⟩
  · unfold printfD
    rw [if_pos h]
  · simp [decimal_ne_nil]
  · exact isDigit_of_mem_padded hc
  · rw [digitsValue_replicate_append, digitsValue_decimal]

/-- A number that is not negative is written with digits only, and reads back as itself. -/
theorem printfD_spec (width : Nat) {n : Int} (h : 0 ≤ n) :
    printfD width n ≠ [] ∧ (∀ c ∈ printfD width n, isDigit c) ∧ digitsValue (printfD width n) = n.natAbs := by
  unfold printfD
  rw [if_neg (Int.not_lt.mpr h)]
  refine ⟨?_, fun c hc => isDigit_of_mem_padded hc, ?_⟩
  · simp [decimal_ne_nil]
  · rw [digitsValue_replicate_append, digitsValue_decimal]

end Zylib
