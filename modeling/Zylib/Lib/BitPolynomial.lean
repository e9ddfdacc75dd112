import Mathlib.Algebra.Polynomial.Div
import Mathlib.Algebra.Polynomial.FieldDivision
import Mathlib.Algebra.CharP.Two
import Mathlib.Algebra.Field.ZMod
import Mathlib.Data.ZMod.Basic
import Mathlib.RingTheory.PrincipalIdealDomain

/-! A word of bits as a polynomial over the field of two elements, the first bit the highest coefficient; and which differences of
    two words a remainder cannot hide: a generator with a constant term divides no change within as many bits as its degree. -/

namespace Zylib.Lib.BitPolynomial
open Polynomial

/-! ### Words -/

noncomputable def ofBit (b : Bool) : (ZMod 2)[X] := if b then 1 else 0

@[simp] theorem ofBit_false : ofBit false = 0 := rfl

@[simp] theorem ofBit_true : ofBit true = 1 := rfl

theorem add_self (p : (ZMod 2)[X]) : p + p = 0 := CharTwo.add_self_eq_zero p

theorem ofBit_xor (b b' : Bool) : ofBit (b ^^ b') = ofBit b + ofBit b' := by
  cases b <;> cases b' <;> simp [add_self]

noncomputable def ofBits : List Bool → (ZMod 2)[X]
  | [] => 0
  | b :: l => ofBit b * X ^ l.length + ofBits l

theorem ofBits_append (l l' : List Bool) : ofBits (l ++ l') = ofBits l * X ^ l'.length + ofBits l' := by
  induction l with
  | nil => simp [ofBits]
  | cons b l ih =>
    rw [List.cons_append, ofBits, ofBits, ih, List.length_append, pow_add]
    ring

theorem ofBits_zipWith_xor {l l' : List Bool} (h : l.length = l'.length) :
    ofBits (List.zipWith xor l l') = ofBits l + ofBits l' := by
  induction l generalizing l' with
  | nil =>
    rw [List.length_nil] at h
    rw [List.eq_nil_of_length_eq_zero h.symm]
    simp [ofBits]
  | cons b l ih =>
    cases l' with
    | nil => simp at h
    | cons b' l' =>
      have hlen : l.length = l'.length := by simpa using h
      rw [List.zipWith_cons_cons, ofBits, ofBits, ofBits, ih hlen, List.length_zipWith, hlen, Nat.min_self,
        ofBit_xor]
      ring

theorem degree_ofBits_lt (l : List Bool) : (ofBits l).degree < l.length := by
  induction l with
  | nil => simp [ofBits]
  | cons b l ih =>
    have hrest : (ofBits l).degree < ((l.length + 1 : Nat) : WithBot Nat) :=
      ih.trans (by exact_mod_cast Nat.lt_succ_self _)
    rw [ofBits, List.length_cons]
    refine lt_of_le_of_lt (degree_add_le _ _) (max_lt ?_ hrest)
    cases b with
    | false => simp
    | true =>
      rw [ofBit_true, one_mul, degree_X_pow]
      exact_mod_cast Nat.lt_succ_self _

/-- No word of ones and zeros is lost. -/
theorem forall_eq_false_of_ofBits {l : List Bool} (h : ofBits l = 0) : ∀ b ∈ l, b = false := by
  induction l with
  | nil => simp
  | cons b l ih =>
    cases b with
    | false =>
      rw [ofBits, ofBit_false, zero_mul, zero_add] at h
      intro b hb
      rcases List.mem_cons.mp hb with rfl | hb
      · rfl
      · exact ih h b hb
    | true =>
      rw [ofBits, ofBit_true, one_mul] at h
      have hpow : (X : (ZMod 2)[X]) ^ l.length = ofBits l := by
        calc (X : (ZMod 2)[X]) ^ l.length
          _ = X ^ l.length + (ofBits l + ofBits l) := by rw [add_self, add_zero]
          _ = ofBits l := by rw [← add_assoc, h, zero_add]
      have hdeg := degree_ofBits_lt l
      rw [← hpow, degree_X_pow] at hdeg
      exact absurd hdeg (lt_irrefl _)

theorem eq_of_zipWith_xor {l l' : List Bool} (hlen : l.length = l'.length)
    (h : ∀ b ∈ List.zipWith xor l l', b = false) : l = l' := by
  induction l generalizing l' with
  | nil => exact (List.eq_nil_of_length_eq_zero hlen.symm).symm
  | cons b l ih =>
    cases l' with
    | nil => simp at hlen
    | cons b' l' =>
      rw [List.zipWith_cons_cons, List.forall_mem_cons] at h
      obtain ⟨hb, hrest⟩ := h
      have hlen' : l.length = l'.length := by simpa using hlen
      rw [ih hlen' hrest, show b = b' by simpa using hb]

theorem ofBits_inj {l l' : List Bool} (hlen : l.length = l'.length) (h : ofBits l = ofBits l') : l = l' := by
  apply eq_of_zipWith_xor hlen
  apply forall_eq_false_of_ofBits
  rw [ofBits_zipWith_xor hlen, h, add_self]

/-! ### Bursts -/

theorem isCoprime_X_pow {g : (ZMod 2)[X]} (h : g.coeff 0 ≠ 0) (n : Nat) : IsCoprime g (X ^ n) := by
  have hX : ¬ X ∣ g := fun hdvd => h (X_dvd_iff.mp hdvd)
  exact ((Prime.coprime_iff_not_dvd (prime_X (R := ZMod 2))).mpr hX).symm.pow_right

/-- A remainder tells a word from every other that differs from it within as many bits as the degree. -/
theorem eq_of_dvd {g : (ZMod 2)[X]} (h0 : g.coeff 0 ≠ 0) {w w' : List Bool} (hlen : w.length = w'.length)
    (hdeg : w.length ≤ g.natDegree) (pre post : List Bool) {n : Nat}
    (h : g ∣ X ^ n * (ofBits (pre ++ w ++ post) + ofBits (pre ++ w' ++ post))) : w = w' := by
  have hsum : ofBits (pre ++ w ++ post) + ofBits (pre ++ w' ++ post)
      = ofBits (List.zipWith xor w w') * X ^ post.length := by
    rw [ofBits_append, ofBits_append, ofBits_append, ofBits_append, ofBits_zipWith_xor hlen, hlen]
    calc _ = (ofBits pre * X ^ w'.length * X ^ post.length + ofBits pre * X ^ w'.length * X ^ post.length)
          + (ofBits post + ofBits post) + (ofBits w + ofBits w') * X ^ post.length := by ring
      _ = _ := by rw [add_self, add_self, zero_add, zero_add]
  rw [hsum, ← mul_assoc, mul_comm (X ^ n), mul_assoc, ← pow_add] at h
  have hdvd : g ∣ ofBits (List.zipWith xor w w') := (isCoprime_X_pow h0 _).dvd_of_dvd_mul_right h
  have hzero : ofBits (List.zipWith xor w w') = 0 := by
    refine eq_zero_of_dvd_of_degree_lt hdvd ?_
    have hlt := degree_ofBits_lt (List.zipWith xor w w')
    rw [List.length_zipWith, ← hlen, Nat.min_self] at hlt
    have hg : g ≠ 0 := by
      intro hg
      rw [hg, coeff_zero] at h0
      exact h0 rfl
    rw [degree_eq_natDegree hg]
    exact lt_of_lt_of_le hlt (by exact_mod_cast hdeg)
  exact eq_of_zipWith_xor hlen (forall_eq_false_of_ofBits hzero)

end Zylib.Lib.BitPolynomial
