import Mathlib.Data.List.Basic

/-! Hashes of blocks: a message is cut into blocks of `n`, and each is taken into the state by `f`. The rest of a message
    that comes in parts is kept until its block is complete: what has been taken and what is kept do not depend on where the
    message was cut (`absorb_append`). -/

namespace BlockHash

variable {α σ : Type*} (f : σ → List α → σ) (n : Nat)

/-- The state after the first `k` blocks. -/
def blocks : Nat → σ → List α → σ
  | 0, s, _ => s
  | k + 1, s, l => blocks k (f s (l.take n)) (l.drop n)

/-- The state after the complete blocks, and the rest. -/
def absorb (s : σ) (l : List α) : σ × List α := (blocks f n (l.length / n) s l, l.drop (l.length / n * n))

variable {f n} {s : σ} {b l : List α}

theorem absorb_of_lt (h : l.length < n) : absorb f n s l = (s, l) := by
  rw [absorb, Nat.div_eq_of_lt h, Nat.zero_mul, List.drop_zero]
  rfl

theorem absorb_block (hn : 0 < n) (hb : b.length = n) (l : List α) : absorb f n s (b ++ l) = absorb f n (f s b) l := by
  have hdiv : (b ++ l).length / n = l.length / n + 1 := by
    rw [List.length_append, hb, Nat.add_comm, Nat.add_div_right _ hn]
  unfold absorb
  rw [hdiv, blocks, List.take_left' hb, List.drop_left' hb, Nat.add_mul, Nat.one_mul, Nat.add_comm, ← List.drop_drop,
    List.drop_left' hb]

/-- Blocks that leave no rest. -/
theorem absorb_blocks {k : Nat} (hn : 0 < n) (hb : b.length = k * n) (l : List α) :
    absorb f n s (b ++ l) = absorb f n (blocks f n k s b) l := by
  induction k generalizing s b with
  | zero =>
    rw [Nat.zero_mul, List.length_eq_zero_iff] at hb
    rw [hb]
    rfl
  | succ k ih =>
    rw [Nat.add_mul, Nat.one_mul] at hb
    have htake : (b.take n).length = n := by rw [List.length_take_of_le (by omega)]
    have hdrop : (b.drop n).length = k * n := by rw [List.length_drop]; omega
    calc absorb f n s (b ++ l)
        = absorb f n s (b.take n ++ (b.drop n ++ l)) := by rw [← List.append_assoc, List.take_append_drop]
      _ = absorb f n (blocks f n (k + 1) s b) l := by rw [absorb_block hn htake, ih hdrop, blocks]

theorem length_absorb (s : σ) (l : List α) : (absorb f n s l).2.length = l.length % n := by
  rw [absorb, List.length_drop, Nat.mod_eq_sub_div_mul]

/-- The first `k` blocks are all that is read. -/
theorem blocks_take (k : Nat) (s : σ) (l : List α) : blocks f n k s (l.take (k * n)) = blocks f n k s l := by
  induction k generalizing s l with
  | zero => rfl
  | succ k ih =>
    have hmin : min n (n + k * n) = n := by omega
    have hsub : n + k * n - n = k * n := by omega
    rw [blocks, blocks, Nat.add_mul, Nat.one_mul, Nat.add_comm, List.take_take, hmin, List.drop_take, hsub]
    exact ih _ _

/-- A message in two parts. -/
theorem absorb_append (hn : 0 < n) (s : σ) (l m : List α) :
    absorb f n s (l ++ m) = absorb f n (absorb f n s l).1 ((absorb f n s l).2 ++ m) := by
  have htake : (l.take (l.length / n * n)).length = l.length / n * n := List.length_take_of_le (Nat.div_mul_le_self ..)
  have hsplit : l ++ m = l.take (l.length / n * n) ++ (l.drop (l.length / n * n) ++ m) := by
    rw [← List.append_assoc, List.take_append_drop]
  rw [hsplit, absorb_blocks hn htake, blocks_take]
  rfl

/-- A block that was begun is completed. -/
theorem absorb_begun {kept data : List α} (hn : 0 < n) (hkept : kept.length ≤ n) (h : n - kept.length ≤ data.length) :
    absorb f n s (kept ++ data) =
      absorb f n (f s (kept ++ data.take (n - kept.length))) (data.drop (n - kept.length)) := by
  have hblock : (kept ++ data.take (n - kept.length)).length = n := by
    rw [List.length_append, List.length_take_of_le h]
    omega
  rw [← absorb_block hn hblock, List.append_assoc, List.take_append_drop]

/-! ### Messages in parts -/

/-- `c` has taken the complete blocks of `msg`, and keeps the rest. -/
def Holds {ctx : Type*} (f : σ → List α → σ) (n : Nat) (s₀ : σ) (held : ctx → σ × List α) (c : ctx) (msg : List α) : Prop :=
  held c = absorb f n s₀ msg

/-- Updates that each take in the complete blocks of what is kept and what comes. -/
theorem Holds.foldl {ctx τ : Type*} {s₀ : σ} {held : ctx → σ × List α} {update : ctx → τ → ctx} (hn : 0 < n)
    (bytes : τ → List α) (hupdate : ∀ c part, (held c).2.length < n →
      held (update c part) = absorb f n (held c).1 ((held c).2 ++ bytes part))
    {c : ctx} {msg : List α} (h : Holds f n s₀ held c msg) (parts : List τ) :
    Holds f n s₀ held (parts.foldl update c) (msg ++ (parts.map bytes).flatten) := by
  induction parts generalizing c msg with
  | nil => simpa using h
  | cons part parts ih =>
    have hlt : (held c).2.length < n := by
      rw [show held c = _ from h, length_absorb]
      exact Nat.mod_lt _ hn
    have hnext : Holds f n s₀ held (update c part) (msg ++ bytes part) := by
      rw [Holds, hupdate c part hlt, show held c = _ from h, ← absorb_append hn]
    simpa [List.append_assoc] using ih hnext

end BlockHash
