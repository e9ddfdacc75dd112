import Mathlib.Data.List.Basic

/-! `split` of `zysoft` (split_functions.h): an overload for each number of recipients from 2 to 6. A pointer is its
    place in the source string, and the recipients are other objects than that. -/

namespace Zylib.ZySoft.Split

variable {C : Type} [DecidableEq C]

/-- `std::find(first, last, delim)`. -/
def find (s : List C) (first last : Nat) (delim : C) : Nat := first + ((s.drop first).take (last - first)).idxOf delim

/-- `S(first, last)`. -/
def text (s : List C) (first last : Nat) : List C := (s.drop first).take (last - first)

/-! ### `split_impl` -/

/-- The second recipient is only assigned behind a delimiter; `s1` is what it held. -/
def splitImpl2 (s : List C) (n : Nat) (delim : C) (s1 : List C) : Bool × List C × List C :=
  let e := n
  let it := find s 0 e delim
  let s0 := text s 0 it
  if e = it then (false, s0, s1)
  else
    let it := it + 1
    (true, s0, text s it e)

/-- The locals of the other copies. -/
structure Scan where
  it0 : Nat
  it1 : Nat
  cnt : Nat

namespace Scan

def first (s : List C) (e : Nat) (delim : C) : Scan :=
  let it1 := find s 0 e delim
  { it0 := 0, it1, cnt := if it1 ≠ e then 1 else 0 }

/-- The block in front of each of the recipients between the first and the last. -/
def next (s : List C) (e : Nat) (delim : C) (scan : Scan) : Scan :=
  if e ≠ scan.it1 then
    let it1 := scan.it1 + 1
    { it0 := it1, it1 := find s it1 e delim, cnt := scan.cnt + 1 }
  else { scan with it0 := scan.it1 }

/-- The block in front of the last recipient, which takes all that there is. -/
def last (e : Nat) (scan : Scan) : Scan :=
  if e ≠ scan.it1 then
    let it1 := scan.it1 + 1
    { it0 := it1, it1 := e, cnt := scan.cnt + 1 }
  else { scan with it0 := scan.it1 }

def piece (s : List C) (scan : Scan) : List C := text s scan.it0 scan.it1

end Scan

def splitImpl3 (s : List C) (n : Nat) (delim : C) : Nat × List C × List C × List C :=
  let e := n
  let scan := Scan.first s e delim
  let s0 := scan.piece s
  let scan := scan.next s e delim
  let s1 := scan.piece s
  let scan := scan.last e
  let s2 := scan.piece s
  (scan.cnt, s0, s1, s2)

def splitImpl4 (s : List C) (n : Nat) (delim : C) : Nat × List C × List C × List C × List C :=
  let e := n
  let scan := Scan.first s e delim
  let s0 := scan.piece s
  let scan := scan.next s e delim
  let s1 := scan.piece s
  let scan := scan.next s e delim
  let s2 := scan.piece s
  let scan := scan.last e
  let s3 := scan.piece s
  (scan.cnt, s0, s1, s2, s3)

def splitImpl5 (s : List C) (n : Nat) (delim : C) : Nat × List C × List C × List C × List C × List C :=
  let e := n
  let scan := Scan.first s e delim
  let s0 := scan.piece s
  let scan := scan.next s e delim
  let s1 := scan.piece s
  let scan := scan.next s e delim
  let s2 := scan.piece s
  let scan := scan.next s e delim
  let s3 := scan.piece s
  let scan := scan.last e
  let s4 := scan.piece s
  (scan.cnt, s0, s1, s2, s3, s4)

def splitImpl6 (s : List C) (cch : Nat) (delim : C) :
    Nat × List C × List C × List C × List C × List C × List C :=
  let e := cch
  let scan := Scan.first s e delim
  let s0 := scan.piece s
  let scan := scan.next s e delim
  let s1 := scan.piece s
  let scan := scan.next s e delim
  let s2 := scan.piece s
  let scan := scan.next s e delim
  let s3 := scan.piece s
  let scan := scan.next s e delim
  let s4 := scan.piece s
  let scan := scan.last e
  let s5 := scan.piece s
  (scan.cnt, s0, s1, s2, s3, s4, s5)

/-- `split(s, delim, s0, …)` on what the recipients hold: the count that is returned, and what they hold then. There
    is no overload for other numbers of recipients. -/
def split (s : List C) (delim : C) : List (List C) → Option (Nat × List (List C))
  | [_, s1] =>
    let (found, s0, s1) := splitImpl2 s s.length delim s1
    some (found.toNat, [s0, s1])
  | [_, _, _] =>
    let (cnt, s0, s1, s2) := splitImpl3 s s.length delim
    some (cnt, [s0, s1, s2])
  | [_, _, _, _] =>
    let (cnt, s0, s1, s2, s3) := splitImpl4 s s.length delim
    some (cnt, [s0, s1, s2, s3])
  | [_, _, _, _, _] =>
    let (cnt, s0, s1, s2, s3, s4) := splitImpl5 s s.length delim
    some (cnt, [s0, s1, s2, s3, s4])
  | [_, _, _, _, _, _] =>
    let (cnt, s0, s1, s2, s3, s4, s5) := splitImpl6 s s.length delim
    some (cnt, [s0, s1, s2, s3, s4, s5])
  | _ => none

end Zylib.ZySoft.Split
