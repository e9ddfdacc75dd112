import Mathlib.Data.List.Basic
import Mathlib.Data.List.Infix
import Mathlib.Tactic.Common

/-! A reader whose bytes come in pieces. It reads up to and including a delimiter, and may then hold more than that, or it reads
    exactly a number of further bytes. What it finds depends on the bytes only, not on how they are cut. -/

namespace Pieces

variable {α : Type*} [DecidableEq α] {delim l r : List α} {n : ℕ}

/-- Where the first occurrence of the delimiter ends. -/
def endOf (delim : List α) : List α → Option ℕ
  | [] => if delim = [] then some 0 else none
  | x :: l => if delim <+: x :: l then some delim.length else (endOf delim l).map (· + 1)

/-- What has been received, and the pieces that are to come. -/
structure Source (α : Type*) where
  buffer : List α
  pieces : List (List α)

/-- What there is to read. -/
def Source.all (s : Source α) : List α := s.buffer ++ s.pieces.flatten

/-- Receives until the delimiter is in the buffer; with the place where it ends. -/
def readUntil (delim buffer : List α) (pieces : List (List α)) : Option (ℕ × Source α) :=
  match endOf delim buffer with
  | some n => some (n, ⟨buffer, pieces⟩)
  | none =>
    match pieces with
    | [] => none
    | piece :: pieces => readUntil delim (buffer ++ piece) pieces

/-- Receives `n` elements more, and leaves the rest of the last piece. -/
def readExactly (n : ℕ) (buffer : List α) : List (List α) → Option (Source α)
  | [] => if n = 0 then some ⟨buffer, []⟩ else none
  | piece :: pieces =>
    if n = 0 then some ⟨buffer, piece :: pieces⟩
    else if n < piece.length then some ⟨buffer ++ piece.take n, piece.drop n :: pieces⟩
    else readExactly (n - piece.length) (buffer ++ piece) pieces

/-- The text cut at the given lengths, the last piece being what is left. -/
def cut : List ℕ → List α → List (List α)
  | [], l => [l]
  | n :: ns, l => l.take n :: cut ns (l.drop n)

omit [DecidableEq α] in
@[simp] theorem flatten_cut (ns : List ℕ) (l : List α) : (cut ns l).flatten = l := by
  induction ns generalizing l with
  | nil => simp [cut]
  | cons n ns ih => rw [cut, List.flatten_cons, ih, List.take_append_drop]

/-! ### The delimiter -/

theorem endOf_le (h : endOf delim l = some n) : n ≤ l.length := by
  induction l generalizing n with
  | nil =>
    rw [endOf] at h
    split at h
    · cases h
      exact le_rfl
    · cases h
  | cons x l ih =>
    rw [endOf] at h
    split at h
    · rename_i hp
      cases h
      exact hp.length_le
    · obtain ⟨m, hm, rfl⟩ := Option.map_eq_some_iff.1 h
      exact Nat.succ_le_succ (ih hm)

/-- The delimiter ends there. -/
theorem endOf_spec (h : endOf delim l = some n) : ∃ front back, l = front ++ delim ++ back ∧ (front ++ delim).length = n := by
  induction l generalizing n with
  | nil =>
    rw [endOf] at h
    split at h
    · rename_i hd
      cases h
      exact ⟨[], [], by simp [hd], by simp [hd]⟩
    · cases h
  | cons x l ih =>
    rw [endOf] at h
    split at h
    · rename_i hp
      cases h
      obtain ⟨back, hb⟩ := hp
      exact ⟨[], back, by simp [hb], by simp⟩
    · obtain ⟨m, hm, rfl⟩ := Option.map_eq_some_iff.1 h
      obtain ⟨front, back, rfl, hlen⟩ := ih hm
      exact ⟨x :: front, back, by simp, by simp [← hlen]⟩

/-- What comes behind the delimiter does not matter. -/
theorem endOf_append (h : endOf delim l = some n) (r : List α) : endOf delim (l ++ r) = some n := by
  induction l generalizing n with
  | nil =>
    rw [endOf] at h
    split at h
    · rename_i hd
      cases h
      cases r with
      | nil => simp [endOf, hd]
      | cons x r => simp [endOf, hd]
    · cases h
  | cons x l ih =>
    rw [endOf] at h
    rw [List.cons_append, endOf]
    split at h
    · rename_i hp
      cases h
      have here : delim <+: x :: (l ++ r) := hp.trans (List.prefix_append (x :: l) r)
      rw [if_pos here]
    · rename_i hp
      obtain ⟨m, hm, rfl⟩ := Option.map_eq_some_iff.1 h
      have later : ¬ delim <+: x :: (l ++ r) := by
        intro hd
        -- The delimiter is not longer than what was searched, as it occurs in it.
        obtain ⟨front, back, e, -⟩ := endOf_spec hm
        have hlen : delim.length ≤ (x :: l).length := by
          rw [e]
          simp
          omega
        exact hp (List.prefix_of_prefix_length_le hd (List.prefix_append (x :: l) r) hlen)
      rw [if_neg later, ih hm]
      rfl

theorem endOf_of_prefix (h : delim <+: l) : endOf delim l = some delim.length := by
  cases l with
  | nil => simp [endOf, List.prefix_nil.1 h]
  | cons x l => rw [endOf, if_pos h]

theorem endOf_cons {x : α} (h : ¬ delim <+: x :: l) : endOf delim (x :: l) = (endOf delim l).map (· + 1) := by
  rw [endOf, if_neg h]

/-! ### Reading -/

/-- However what is to come is cut, the reader gets to the delimiter. -/
theorem readUntil_spec (buffer : List α) (pieces : List (List α)) (h : endOf delim (buffer ++ pieces.flatten) = some n) :
    ∃ s, readUntil delim buffer pieces = some (n, s) ∧ s.all = buffer ++ pieces.flatten ∧ n ≤ s.buffer.length := by
  induction pieces generalizing buffer with
  | nil =>
    rw [List.flatten_nil, List.append_nil] at h
    exact ⟨⟨buffer, []⟩, by rw [readUntil, h], rfl, endOf_le h⟩
  | cons piece pieces ih =>
    rw [readUntil]
    cases found : endOf delim buffer with
    | some m =>
      obtain rfl : m = n := Option.some.inj ((endOf_append found _).symm.trans h)
      exact ⟨⟨buffer, piece :: pieces⟩, rfl, rfl, endOf_le found⟩
    | none =>
      obtain ⟨s, e, all, len⟩ := ih (buffer ++ piece) (by simpa using h)
      exact ⟨s, e, by simpa using all, len⟩

/-- The delimiter ends the text `front`: the reader then has this and some of what is behind it. -/
theorem readUntil_front {front back : List α} (buffer : List α) (pieces : List (List α))
    (h : buffer ++ pieces.flatten = front ++ back) (ends : endOf delim (front ++ back) = some front.length) :
    ∃ got rest, readUntil delim buffer pieces = some (front.length, ⟨front ++ got, rest⟩) ∧ got ++ rest.flatten = back := by
  obtain ⟨s, e, all, len⟩ := readUntil_spec buffer pieces (h ▸ ends)
  rcases List.append_eq_append_iff.1 (all.trans h) with ⟨got, hfront, hrest⟩ | ⟨got, hbuffer, hback⟩
  · obtain rfl : got = [] := by
      have hlen := congrArg List.length hfront
      rw [List.length_append] at hlen
      exact List.length_eq_zero_iff.1 (by omega)
    rw [List.append_nil] at hfront
    exact ⟨[], s.pieces, by rw [e, List.append_nil, hfront], by simpa using hrest⟩
  · exact ⟨got, s.pieces, by rw [e, ← hbuffer], hback.symm⟩

/-- What the reader holds when it has found the delimiter. -/
theorem readUntil_some {buffer : List α} {pieces : List (List α)} {s : Source α} (h : readUntil delim buffer pieces = some (n, s)) :
    endOf delim s.buffer = some n ∧ s.all = buffer ++ pieces.flatten := by
  induction pieces generalizing buffer with
  | nil =>
    rw [readUntil] at h
    split at h
    · rename_i hn
      cases h
      exact ⟨hn, rfl⟩
    · cases h
  | cons piece pieces ih =>
    rw [readUntil] at h
    split at h
    · rename_i hn
      cases h
      exact ⟨hn, rfl⟩
    · obtain ⟨hn, all⟩ := ih h
      exact ⟨hn, by simpa using all⟩

omit [DecidableEq α] in
/-- However what is to come is cut, the reader gets the next `n`. -/
theorem readExactly_spec (buffer : List α) (pieces : List (List α)) (h : n ≤ pieces.flatten.length) :
    ∃ rest, readExactly n buffer pieces = some ⟨buffer ++ pieces.flatten.take n, rest⟩ ∧ rest.flatten = pieces.flatten.drop n := by
  induction pieces generalizing n buffer with
  | nil =>
    obtain rfl : n = 0 := Nat.le_zero.1 h
    exact ⟨[], by simp [readExactly], rfl⟩
  | cons piece pieces ih =>
    rw [readExactly]
    split
    · rename_i hn
      exact ⟨piece :: pieces, by simp [hn], by simp [hn]⟩
    · split
      · rename_i hlt
        refine ⟨piece.drop n :: pieces, ?_, ?_⟩
        · rw [List.flatten_cons, List.take_append_of_le_length hlt.le]
        · rw [List.flatten_cons, List.flatten_cons, List.drop_append_of_le_length hlt.le]
      · rename_i hge
        have hge : piece.length ≤ n := not_lt.1 hge
        have rest : n - piece.length ≤ pieces.flatten.length := by
          rw [List.flatten_cons, List.length_append] at h
          omega
        obtain ⟨ps, e, hps⟩ := ih (buffer ++ piece) rest
        refine ⟨ps, ?_, ?_⟩
        · rw [e, List.flatten_cons, List.take_append, List.take_of_length_le hge, List.append_assoc]
        · rw [hps, List.flatten_cons, List.drop_append, List.drop_of_length_le hge, List.nil_append]

end Pieces
