import Zylib.ZySoft.StaticString

/-! The members of `basic_static_string` that search and compare its characters, and the loops of `detail` that they call. `npos`
    is `none`. -/

namespace Zylib.ZySoft.Detail

variable {C : Type} [DecidableEq C]

/-- How the inner loop of `search` ends: at the end of what is searched for, at the end of the text, or with `break`. -/
inductive Inner where
  | found
  | ended
  | differs

def searchHere : List C → List C → Inner
  | _, [] => .found
  | [], _ :: _ => .ended
  | x :: xs, y :: ys => if x = y then searchHere xs ys else .differs

/-- The distance from `first` to the result, if it is not `last`. -/
def search (xs ys : List C) : Option ℕ :=
  match searchHere xs ys with
  | .found => some 0
  | .ended => none
  | .differs =>
    match xs with
    | [] => none
    | _ :: xs => (search xs ys).map (· + 1)

def findFirstOf : List C → List C → Option ℕ
  | [], _ => none
  | x :: xs, ys => if ys.any (x = ·) then some 0 else (findFirstOf xs ys).map (· + 1)

def findNotOf : List C → List C → Option ℕ
  | [], _ => none
  | x :: xs, ys => if !ys.contains x then some 0 else (findNotOf xs ys).map (· + 1)

/-- `Traits::compare` of the first `n` characters. -/
def compare [LT C] [DecidableLT C] : ℕ → List C → List C → Ordering
  | n + 1, x :: xs, y :: ys => if x < y then .lt else if y < x then .gt else compare n xs ys
  | _, _, _ => .eq

def lexicographicalCompare [LT C] [DecidableLT C] (xs ys : List C) : Ordering :=
  if xs.length < ys.length then if compare xs.length xs ys ≠ .gt then .lt else .gt
  else if xs.length > ys.length then if compare ys.length xs ys ≠ .lt then .gt else .lt
  else compare xs.length xs ys

end Detail

namespace StaticString

variable {C : Type} [DecidableEq C] [Zero C] {N : ℕ}

def find (s : StaticString C N) (chars : List C) (pos : ℕ) : Option ℕ :=
  if pos > s.size ∨ chars.length > s.size - pos then none
  else if chars.length = 0 then some pos
  else (Detail.search (s.content.drop pos) chars).map (pos + ·)

/-- The loop of `rfind`, from `sub` down to the first character. -/
def rfindLoop (xs chars : List C) (sub : ℕ) : Option ℕ :=
  if (xs.drop sub).take chars.length = chars then some sub
  else
    match sub with
    | 0 => none
    | sub + 1 => rfindLoop xs chars sub

def rfind (s : StaticString C N) (chars : List C) (pos : ℕ) : Option ℕ :=
  if s.size < chars.length then none
  else
    let pos := if pos > s.size - chars.length then s.size - chars.length else pos
    if chars.length = 0 then some pos else rfindLoop s.content chars pos

def findFirstOf (s : StaticString C N) (chars : List C) (pos : ℕ) : Option ℕ :=
  if pos ≥ s.size ∨ chars.length = 0 then none else (Detail.findFirstOf (s.content.drop pos) chars).map (pos + ·)

def findLastOf (s : StaticString C N) (chars : List C) (pos : ℕ) : Option ℕ :=
  if chars.length = 0 then none
  else
    let pos := if pos ≥ s.size then 0 else s.size - (pos + 1)
    (Detail.findFirstOf (s.content.reverse.drop pos) chars).map fun i => s.size - 1 - (pos + i)

def findFirstNotOf (s : StaticString C N) (chars : List C) (pos : ℕ) : Option ℕ :=
  if pos ≥ s.size then none
  else if chars.length = 0 then some pos
  else (Detail.findNotOf (s.content.drop pos) chars).map (pos + ·)

/-- In an empty string `pos` becomes `npos`, and `pos + 1` is zero. -/
def findLastNotOf (s : StaticString C N) (chars : List C) (pos : ℕ) : Option ℕ :=
  if s.size = 0 then none
  else
    let pos := if pos ≥ s.size then s.size - 1 else pos
    if chars.length = 0 then some pos
    else
      let pos := s.size - (pos + 1)
      (Detail.findNotOf (s.content.reverse.drop pos) chars).map fun i => s.size - 1 - (pos + i)

def compare [LT C] [DecidableLT C] {M : ℕ} (s : StaticString C N) (other : StaticString C M) : Ordering :=
  Detail.lexicographicalCompare s.content other.content

end StaticString

end Zylib.ZySoft
