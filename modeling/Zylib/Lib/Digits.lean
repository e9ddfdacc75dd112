import Mathlib.Data.Nat.Digits.Defs
import Mathlib.Data.Nat.Digits.Lemmas
import Mathlib.Tactic.Ring

/-! Numbers spelled in a power of two, the highest digit first, and the same bits cut into digits of another width. -/

namespace Zylib.Lib.Digits

/-! ### Numbers -/

def number (base : Nat) (l : List Nat) : Nat := Nat.ofDigits base l.reverse

@[simp] theorem number_nil (base : Nat) : number base [] = 0 := rfl

theorem number_append (base : Nat) (l l' : List Nat) :
    number base (l ++ l') = number base l * base ^ l'.length + number base l' := by
  rw [number, List.reverse_append, Nat.ofDigits_append, List.length_reverse]
  unfold number
  ring

theorem number_cons (base d : Nat) (l : List Nat) : number base (d :: l) = d * base ^ l.length + number base l := by
  rw [← List.singleton_append, number_append]
  simp [number]

theorem number_inj {base : Nat} (hbase : 1 < base) {l l' : List Nat} (hlen : l.length = l'.length)
    (hl : ∀ d ∈ l, d < base) (hl' : ∀ d ∈ l', d < base) (h : number base l = number base l') : l = l' := by
  have hrev := Nat.ofDigits_inj_of_len_eq hbase (by simpa using hlen) (fun d hd => hl d (List.mem_reverse.mp hd))
    (fun d hd => hl' d (List.mem_reverse.mp hd)) h
  exact List.reverse_inj.mp hrev

/-! ### Widths -/

/-- The digits `v`, of `m` bits each, spell the digits `d`, of `n` bits each, and after them `k` bits with the value `r`. -/
structure Spells (m n : Nat) (v d : List Nat) (k r : Nat) : Prop where
  length : m * v.length = n * d.length + k
  number : number (2 ^ m) v = number (2 ^ n) d * 2 ^ k + r

/-- Digits that fill one another's are put in front. -/
theorem Spells.append {m n : Nat} {v v' d d' : List Nat} {k r : Nat} (hfront : Spells m n v d 0 0)
    (h : Spells m n v' d' k r) : Spells m n (v ++ v') (d ++ d') k r where
  length := by
    have h1 := hfront.length
    have h2 := h.length
    rw [List.length_append, List.length_append, Nat.mul_add, Nat.mul_add, h1, h2]
    omega
  number := by
    have hpow : (2 ^ m) ^ v'.length = (2 ^ n) ^ d'.length * 2 ^ k := by
      rw [← pow_mul, ← pow_mul, ← pow_add, h.length]
    rw [number_append, number_append, hfront.number, h.number, hpow]
    ring

/-- What is spelled with less than a digit left over. -/
theorem Spells.inj {m n : Nat} (hn : 0 < n) {v d d' : List Nat} {k k' r r' : Nat} (h : Spells m n v d k r)
    (h' : Spells m n v d' k' r') (hk : k < n) (hk' : k' < n) (hr : r < 2 ^ k) (hr' : r' < 2 ^ k')
    (hd : ∀ x ∈ d, x < 2 ^ n) (hd' : ∀ x ∈ d', x < 2 ^ n) : d = d' := by
  have hlen : d.length = d'.length ∧ k = k' := by
    have heq : n * d.length + k = n * d'.length + k' := h.length.symm.trans h'.length
    have hdiv := congrArg (· / n) heq
    simp only [Nat.mul_add_div hn, Nat.div_eq_of_lt hk, Nat.div_eq_of_lt hk', Nat.add_zero] at hdiv
    rw [hdiv] at heq
    exact ⟨hdiv, Nat.add_left_cancel heq⟩
  obtain ⟨hlen, rfl⟩ := hlen
  have heq : Digits.number (2 ^ n) d * 2 ^ k + r = Digits.number (2 ^ n) d' * 2 ^ k + r' :=
    h.number.symm.trans h'.number
  have hdiv := congrArg (· / 2 ^ k) heq
  simp only [Nat.mul_comm _ (2 ^ k), Nat.mul_add_div (Nat.two_pow_pos k), Nat.div_eq_of_lt hr, Nat.div_eq_of_lt hr',
    Nat.add_zero] at hdiv
  exact number_inj (Nat.one_lt_two_pow hn.ne') hlen hd hd' hdiv

end Zylib.Lib.Digits
