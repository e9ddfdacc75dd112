import Mathlib.Algebra.Order.Field.Power
import Mathlib.Algebra.Order.Field.Rat
import Mathlib.Tactic.NormNum
import Mathlib.Tactic.Positivity
import Mathlib.Tactic.Linarith

/-! Two binary floating point formats: the double of IEEE 754, and the extended double of the x87, which
    is stored in 16 bytes. `value` is the number that the bits denote, and `Nearest` says that no number
    of the format is nearer to a rational one. -/

inductive FloatFormat where
  | binary64
  | extended80
deriving DecidableEq

namespace FloatFormat

/-- The bytes that a number takes in memory. -/
def size : FloatFormat → Nat
  | binary64 => 8
  | extended80 => 16

def scaled (sign significand : Nat) (exponent : Int) : ℚ := (-1) ^ sign * significand * 2 ^ exponent

/-- The number that the low bits of `n` denote. Infinities and what is not a number have none, and in the
    extended format neither has a normal exponent without the leading bit. -/
def value : FloatFormat → Nat → Option ℚ
  | binary64, n =>
    let sign := n / 2 ^ 63 % 2
    let exponent : Nat := n / 2 ^ 52 % 2 ^ 11
    let fraction := n % 2 ^ 52
    if exponent = 2047 then none
    else if exponent = 0 then some (scaled sign fraction (-1074))
    else some (scaled sign (2 ^ 52 + fraction) ((exponent : Int) - 1075))
  | extended80, n =>
    let sign := n / 2 ^ 79 % 2
    let exponent : Nat := n / 2 ^ 64 % 2 ^ 15
    let significand := n % 2 ^ 64
    if exponent = 32767 then none
    else if exponent = 0 then some (scaled sign significand (-16445))
    else if significand < 2 ^ 63 then none
    else some (scaled sign significand ((exponent : Int) - 16446))

def IsValue (f : FloatFormat) (x : ℚ) : Prop := ∃ n, f.value n = some x

def Nearest (f : FloatFormat) (x q : ℚ) : Prop := f.IsValue x ∧ ∀ y, f.IsValue y → |x - q| ≤ |y - q|

variable {f : FloatFormat} {x y q : ℚ}

theorem isValue_zero (f : FloatFormat) : f.IsValue 0 := by
  refine ⟨0, ?_⟩
  cases f <;> simp [value, scaled]

theorem isValue_two_pow {e : Nat} (h0 : 0 < e) (h : e < 2047) : binary64.IsValue (2 ^ ((e : ℤ) - 1023)) := by
  have hsign : e * 2 ^ 52 / 2 ^ 63 % 2 = 0 := by omega
  have hexponent : e * 2 ^ 52 / 2 ^ 52 % 2 ^ 11 = e := by omega
  have hfraction : e * 2 ^ 52 % 2 ^ 52 = 0 := by omega
  refine ⟨e * 2 ^ 52, ?_⟩
  simp only [value, hsign, hexponent, hfraction, if_neg (Nat.ne_of_lt h), if_neg (Nat.ne_of_gt h0), Option.some.injEq, scaled]
  have hpow : (2 : ℚ) ^ ((e : ℤ) - 1023) = 2 ^ (52 : ℤ) * 2 ^ ((e : ℤ) - 1075) := by
    rw [← zpow_add₀ two_ne_zero]
    congr 1
    omega
  rw [hpow]
  norm_num

/-- A number with a positive sign and an exponent from 1 to `b - 1`. -/
theorem value_of_lt {n b : Nat} (hb : b ≤ 2047) (h0 : 2 ^ 52 ≤ n) (h : n < b * 2 ^ 52) :
    ∃ x, binary64.value n = some x ∧ 0 < x ∧ x < 2 ^ ((b : ℤ) - 1023) := by
  have hsign : n / 2 ^ 63 % 2 = 0 := by omega
  have hmod : n / 2 ^ 52 % 2 ^ 11 = n / 2 ^ 52 := by omega
  have hpos : n / 2 ^ 52 ≠ 0 := by omega
  have hlt : n / 2 ^ 52 < b := by omega
  refine ⟨_, by simp only [value, hsign, hmod, if_neg (show n / 2 ^ 52 ≠ 2047 by omega), if_neg hpos]; rfl, ?_, ?_⟩
  · unfold scaled
    positivity
  · have hsignificand : ((2 ^ 52 + n % 2 ^ 52 : ℕ) : ℚ) < 2 ^ (53 : ℤ) := by
      have : 2 ^ 52 + n % 2 ^ 52 < 2 ^ 53 := by omega
      exact_mod_cast this
    have hexponent : (2 : ℚ) ^ (53 : ℤ) * 2 ^ (((n / 2 ^ 52 : ℕ) : ℤ) - 1075) ≤ 2 ^ ((b : ℤ) - 1023) := by
      rw [← zpow_add₀ two_ne_zero]
      exact zpow_le_zpow_right₀ one_le_two (by omega)
    unfold scaled
    rw [pow_zero, one_mul]
    exact (mul_lt_mul_of_pos_right hsignificand (by positivity)).trans_le hexponent

/-- Rounding keeps the order to the numbers of the format. -/
theorem Nearest.le (h : f.Nearest x q) (hy : f.IsValue y) (hq : q ≤ y) : x ≤ y := by
  have hdist := h.2 y hy
  rw [abs_of_nonneg (sub_nonneg.mpr hq)] at hdist
  have := le_abs_self (x - q)
  linarith

theorem Nearest.ge (h : f.Nearest x q) (hy : f.IsValue y) (hq : y ≤ q) : y ≤ x := by
  have hdist := h.2 y hy
  rw [abs_of_nonpos (sub_nonpos.mpr hq)] at hdist
  have := neg_abs_le (x - q)
  linarith

end FloatFormat
