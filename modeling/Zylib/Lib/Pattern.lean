import Mathlib.Data.List.Basic

/-! Patterns that are sequences of given characters and of captured runs of one or more characters of a
    class, as the regular expression `(\d+)-(\d+)` is. A run takes as much as it can and gives back a
    character at a time while the rest of the pattern does not match. -/

namespace Pattern

inductive Atom (α : Type*) where
  | char (c : α)
  | run (p : α → Bool)

variable {α β : Type*}

/-- The longest prefix of at least one and at most so many characters after which the rest matches. -/
def longest (rest : List α → Option β) (s : List α) : Nat → Option (List α × β)
  | 0 => none
  | k + 1 =>
    match rest (s.drop (k + 1)) with
    | some b => some (s.take (k + 1), b)
    | none => longest rest s k

variable [DecidableEq α]

/-- What the runs capture when the pattern matches a prefix of the text. -/
def matchHere : List (Atom α) → List α → Option (List (List α))
  | [], _ => some []
  | .char _ :: _, [] => none
  | .char c :: as, x :: s => if x = c then matchHere as s else none
  | .run p :: as, s => (longest (matchHere as) s (s.takeWhile p).length).map fun (g, gs) => g :: gs

/-- What the runs capture at the first place of the text where the pattern matches. -/
def search (as : List (Atom α)) : List α → Option (List (List α))
  | [] => matchHere as []
  | x :: s =>
    match matchHere as (x :: s) with
    | some gs => some gs
    | none => search as s

variable {as : List (Atom α)} {s : List α} {gs : List (List α)}

theorem matchHere_char (c : α) (as : List (Atom α)) (s : List α) : matchHere (.char c :: as) (c :: s) = matchHere as s :=
  if_pos rfl

/-- A run takes a whole run of the class if the rest matches after it. -/
theorem matchHere_run {p : α → Bool} {g rest : List α} (hg : g ≠ []) (hp : ∀ x ∈ g, p x = true)
    (hrest : ∀ x ∈ rest.head?, p x = false) (h : matchHere as rest = some gs) :
    matchHere (.run p :: as) (g ++ rest) = some (g :: gs) := by
  have hnone : rest.takeWhile p = [] := by
    cases rest with
    | nil => rfl
    | cons x rest => exact List.takeWhile_cons_of_neg (by simp [hrest x rfl])
  have hwhile : (g ++ rest).takeWhile p = g := by
    rw [List.takeWhile_append_of_pos hp, hnone, List.append_nil]
  obtain ⟨k, hk⟩ := Nat.exists_eq_succ_of_ne_zero (mt List.length_eq_zero_iff.mp hg)
  have hlongest : longest (matchHere as) (g ++ rest) g.length = some (g, gs) := by
    rw [hk, longest, ← Nat.succ_eq_add_one, ← hk, List.drop_left, List.take_left, h]
  rw [matchHere, hwhile, hlongest]
  rfl

theorem search_of_matchHere (h : matchHere as s = some gs) : search as s = some gs := by
  cases s with
  | nil => exact h
  | cons x s => rw [search, h]

end Pattern
