import Mathlib
import Zylib.Lib.Block
import Zylib.Lib.Run

/-! `basic_static_string` of `zysoft` (static_string.h): a string of at most `N` characters inside the object, with a null character
    behind them. An argument may point to characters of the string itself. -/

namespace Zylib.ZySoft

/-- `value_type()` is the zero. -/
structure StaticString (C : Type) [Zero C] (N : ℕ) where
  data : Vector C (N + 1) := Vector.replicate (N + 1) 0
  size : ℕ := 0
  size_le : size ≤ N := by exact Nat.zero_le _

namespace StaticString

/-- What is undefined: an access, a size that is too large for `set_size`, an `assert` that fails, or iterators that are not
    of the string. -/
inductive Fault where
  | memory (fault : Block.Fault)
  | size
  | assertion
  | iterator
deriving DecidableEq

inductive Exception where
  | lengthError (what : String)
  | outOfRange (what : String)
deriving DecidableEq

/-- Characters that an argument points to: of the string itself, or others. -/
inductive Source (C : Type) where
  | inside (offset count : ℕ)
  | outside (chars : List C)

abbrev Source.count {C : Type} : Source C → ℕ
  | .inside _ count => count
  | .outside chars => chars.length

variable {C : Type} [Zero C] {N : ℕ}

/-- What a member that may throw leaves. -/
abbrev Member (C : Type) [Zero C] (N : ℕ) := Except Fault (Option Exception × StaticString C N)

def throwing (e : Exception) (s : StaticString C N) : Member C N := .ok (some e, s)

def returning (s : StaticString C N) : Member C N := .ok (none, s)

/-! ### Private members -/

/-- The characters of the string are written. -/
def write (s : StaticString C N) (f : Vector C (N + 1) → Except Block.Fault (Vector C (N + 1))) :
    Except Fault (StaticString C N) :=
  match f s.data with
  | .error fault => .error (.memory fault)
  | .ok data => .ok { s with data }

def setSize (s : StaticString C N) (n : ℕ) : Except Fault (StaticString C N) :=
  if h : n ≤ N then .ok { s with size := n, size_le := h } else .error .size

def term (s : StaticString C N) : StaticString C N :=
  { s with data := s.data.set s.size 0 (Nat.lt_succ_of_le s.size_le) }

/-- `traits_type::move` of the characters of an argument. -/
def moveFrom (dst : ℕ) (src : Source C) (m : Vector C (N + 1)) : Except Block.Fault (Vector C (N + 1)) :=
  match src with
  | .inside offset count => Block.move m dst offset count
  | .outside chars => Block.store m dst chars

/-- `traits_type::copy` of the characters of an argument, or `copy_with_traits`, where the model lets nothing overlap. -/
def copyFrom (dst : ℕ) (src : Source C) (m : Vector C (N + 1)) : Except Block.Fault (Vector C (N + 1)) :=
  match src with
  | .inside offset count => Block.copy m dst offset count
  | .outside chars => Block.store m dst chars

/-- `capped_length`. -/
def cappedLength (s : StaticString C N) (index length : ℕ) : Except Exception ℕ :=
  if index > s.size then .error (.outOfRange "index > size()") else .ok (min (s.size - index) length)

/-- The loop of `read_back`: the characters are stored from `new_size` on, or behind it if the null character is kept. The
    result says whether there was room for them. -/
def readLoop (overwrite_null : Bool) (s : StaticString C N) (new_size : ℕ) : List C → Except Fault (Bool × StaticString C N)
  | [] => .ok (true, s)
  | c :: chars => do
    if new_size ≥ N then return (false, if overwrite_null then s.term else s)
    let s ← s.write (Block.store · (new_size + (!overwrite_null).toNat) [c])
    readLoop overwrite_null s (new_size + 1) chars

def readBack (s : StaticString C N) (overwrite_null : Bool) (chars : List C) : Except Fault (Bool × StaticString C N) :=
  readLoop overwrite_null s s.size chars

/-! ### `assign` -/

def clear (s : StaticString C N) : Member C N := do
  let s ← s.setSize 0
  returning s.term

def assignCount (s : StaticString C N) (count : ℕ) (ch : C) : Member C N := do
  if count > N then return (some (.lengthError "count > max_size()"), s)
  let s ← s.setSize count
  let s ← s.write (Block.fill · 0 s.size ch)
  returning s.term

def assign (s : StaticString C N) (src : Source C) : Member C N := do
  if src.count > N then return (some (.lengthError "count > max_size()"), s)
  let s ← s.setSize src.count
  let s ← s.write (moveFrom 0 src)
  returning s.term

/-- `assign_unchecked`, of another string of characters. The null character is copied with them. -/
def assignUnchecked (s : StaticString C N) (chars : List C) : Member C N := do
  let s ← s.setSize chars.length
  let s ← s.write (Block.store · 0 (chars ++ [0]))
  returning s

/-- The loop of `assign(first, last)`, after `i` characters. -/
def assignLoop (s : StaticString C N) (i : ℕ) : List C → Member C N
  | [] => do
    let s ← s.setSize i
    returning s.term
  | c :: chars => do
    if i ≥ N then
      let s ← s.setSize i
      return (some (.lengthError "n > max_size()"), s.term)
    let s ← s.write (Block.store · i [c])
    assignLoop s (i + 1) chars

def assignInput (s : StaticString C N) (chars : List C) : Member C N := s.assignLoop 0 chars

def assignChar (s : StaticString C N) (ch : C) : Member C N := do
  if ¬0 < N then return (some (.lengthError "max_size() == 0"), s)
  let s ← s.setSize 1
  let s ← s.write (Block.store · 0 [ch])
  returning s.term

/-! ### `insert` -/

/-- `insert(pos, count, ch)`. -/
def insertCountAt (s : StaticString C N) (pos count : ℕ) (ch : C) : Member C N := do
  if count > N - s.size then return (some (.lengthError "count > max_size() - curr_size"), s)
  let curr_size := s.size
  let s ← s.write (Block.move · (pos + count) pos (curr_size - pos + 1))
  let s ← s.write (Block.fill · pos count ch)
  let s ← s.setSize (curr_size + count)
  returning s

/-- `insert(pos, first, last)` for forward iterators. -/
def insertAt (s : StaticString C N) (pos : ℕ) (src : Source C) : Member C N := do
  let curr_size := s.size
  let count := src.count
  if count > N - curr_size then return (some (.lengthError "count > max_size() - curr_size"), s)
  let s ← s.write (Block.move · (pos + count) pos (curr_size - pos + 1))
  let s ←
    match src with
    | .outside chars => s.write (Block.store · pos chars)
    | .inside offset _ =>
      if ¬offset < curr_size ∨ offset + count ≤ pos then s.write (Block.copy · pos offset count)
      else if offset < pos then do
        let diff := pos - offset
        let s ← s.write (Block.copy · pos offset diff)
        s.write (Block.copy · (pos + diff) (pos + count) (count - diff))
      else s.write (Block.copy · pos (offset + count) count)
  let s ← s.setSize (curr_size + count)
  returning s

/-- `insert_unchecked(pos, s, count)`, of characters of another string. -/
def insertUncheckedAt (s : StaticString C N) (pos : ℕ) (chars : List C) : Member C N := do
  let curr_size := s.size
  if chars.length > N - curr_size then return (some (.lengthError "count > max_size() - curr_size"), s)
  let s ← s.write (Block.move · (pos + chars.length) pos (curr_size - pos + 1))
  let s ← s.write (Block.store · pos chars)
  let s ← s.setSize (curr_size + chars.length)
  returning s

/-- `insert(pos, first, last)` for other input iterators. -/
def insertInputAt (s : StaticString C N) (pos : ℕ) (chars : List C) : Member C N := do
  if pos > s.size then throw .iterator
  let curr_size := s.size
  let (room, s) ← s.readBack false chars
  if !room then return (some (.lengthError "count > max_size() - size()"), s)
  let s ← s.write (Block.rotate · pos (curr_size + 1) (curr_size + chars.length + 1))
  let s ← s.setSize (curr_size + chars.length)
  returning s

def insertCount (s : StaticString C N) (index count : ℕ) (ch : C) : Member C N :=
  if index > s.size then throwing (.outOfRange "index > size()") s else s.insertCountAt index count ch

def insert (s : StaticString C N) (index : ℕ) (src : Source C) : Member C N :=
  if index > s.size then throwing (.outOfRange "index > size()") s else s.insertAt index src

def insertUnchecked (s : StaticString C N) (index : ℕ) (chars : List C) : Member C N :=
  if index > s.size then throwing (.outOfRange "index > size()") s else s.insertUncheckedAt index chars

/-! ### `erase`, `append` and `resize` -/

/-- `erase(first, last)`. -/
def eraseAt (s : StaticString C N) (index n : ℕ) : Member C N := do
  let size := s.size
  let s ← s.write (Block.move · index (index + n) (size - (index + n) + 1))
  let s ← s.setSize (size - n)
  returning s

def erase (s : StaticString C N) (index count : ℕ) : Member C N :=
  match s.cappedLength index count with
  | .error e => throwing e s
  | .ok n => s.eraseAt index n

def pushBack (s : StaticString C N) (ch : C) : Member C N := do
  let curr_size := s.size
  if curr_size ≥ N then return (some (.lengthError "curr_size >= max_size()"), s)
  let s ← s.write (Block.store · curr_size [ch])
  let s ← s.setSize (curr_size + 1)
  returning s.term

def popBack (s : StaticString C N) : Member C N := do
  if s.size = 0 then throw .assertion
  let s ← s.setSize (s.size - 1)
  returning s.term

def appendCount (s : StaticString C N) (count : ℕ) (ch : C) : Member C N := do
  let curr_size := s.size
  if count > N - curr_size then return (some (.lengthError "count > max_size() - size()"), s)
  let s ← s.write (Block.fill · curr_size count ch)
  let s ← s.setSize (curr_size + count)
  returning s.term

def append (s : StaticString C N) (src : Source C) : Member C N := do
  let curr_size := s.size
  if src.count > N - curr_size then return (some (.lengthError "count > max_size() - size()"), s)
  let s ← s.write (copyFrom curr_size src)
  let s ← s.setSize (curr_size + src.count)
  returning s.term

/-- `append(first, last)`. -/
def appendInput (s : StaticString C N) (chars : List C) : Member C N := do
  let (room, s) ← s.readBack true chars
  if !room then return (some (.lengthError "count > max_size() - size()"), s)
  let s ← s.setSize (s.size + chars.length)
  returning s.term

def resize (s : StaticString C N) (n : ℕ) (c : C) : Member C N := do
  if n > N then return (some (.lengthError "n > max_size()"), s)
  let curr_size := s.size
  let s ← if n > curr_size then s.write (Block.fill · curr_size (n - curr_size) c) else pure s
  let s ← s.setSize n
  returning s.term

/-! ### `replace` -/

/-- `replace(i1, i2, n, c)`. -/
def replaceCountAt (s : StaticString C N) (pos n1 n : ℕ) (c : C) : Member C N := do
  let curr_size := s.size
  if n > N ∨ curr_size - n1 ≥ N - n then return (some (.lengthError "replaced string exceeds max_size()"), s)
  let s ← s.write (Block.move · (pos + n) (pos + n1) (curr_size - (pos + n1) + 1))
  let s ← s.write (Block.fill · pos n c)
  let s ← s.setSize (curr_size - n1 + n)
  returning s

/-- `replace(i1, i2, j1, j2)` for forward iterators. In `(offset - n1) + n2 + diff` the difference may wrap around, the sum does
    not. -/
def replaceAt (s : StaticString C N) (pos n1 : ℕ) (src : Source C) : Member C N := do
  let curr_size := s.size
  let n2 := src.count
  if n2 > N ∨ curr_size - min n1 (curr_size - pos) ≥ N - n2 then
    return (some (.lengthError "replaced string exceeds max_size()"), s)
  match src with
  | .outside chars =>
    let s ← s.write (Block.move · (pos + n2) (pos + n1) (curr_size - pos - n1 + 1))
    let s ← s.write (Block.store · pos chars)
    let s ← s.setSize (curr_size - n1 + n2)
    returning s
  | .inside offset _ =>
    if offset < curr_size ∧ offset = pos ∧ n1 = n2 then returning s
    else
      let s ←
        if ¬offset < curr_size ∨ offset + n2 ≤ pos then do
          let s ← s.write (Block.move · (pos + n2) (pos + n1) (curr_size - pos - n1 + 1))
          s.write (Block.copy · pos offset n2)
        else if n2 ≥ n1 then do
          let diff := if offset ≤ pos + n1 then min (pos + n1 - offset) n2 else 0
          let s ← s.write (Block.move · (pos + n2) (pos + n1) (curr_size - pos - n1 + 1))
          let s ← s.write (Block.move · pos offset diff)
          s.write (Block.move · (pos + diff) (offset + n2 + diff - n1) (n2 - diff))
        else do
          let s ← s.write (Block.move · pos offset n2)
          s.write (Block.move · (pos + n2) (pos + n1) (curr_size - pos - n1 + 1))
      let s ← s.setSize (curr_size - n1 + n2)
      returning s

/-- `replace_unchecked(i1, i2, s, n2)`, with characters of another string. -/
def replaceUncheckedAt (s : StaticString C N) (pos n1 : ℕ) (chars : List C) : Member C N := do
  let curr_size := s.size
  let n2 := chars.length
  if n2 > N ∨ curr_size - min n1 (curr_size - pos) ≥ N - n2 then
    return (some (.lengthError "replaced string exceeds max_size()"), s)
  let s ← s.write (Block.move · (pos + n2) (pos + n1) (curr_size - (pos + n1) + 1))
  let s ← s.write (Block.store · pos chars)
  let s ← s.setSize (curr_size - n1 + n2)
  returning s

/-- `replace(i1, i2, j1, j2)` for other input iterators. -/
def replaceInputAt (s : StaticString C N) (pos n1 : ℕ) (chars : List C) : Member C N := do
  if pos + n1 > s.size then throw .iterator
  let curr_size := s.size
  let n2 := chars.length
  let (room, s) ← s.readBack false chars
  if !room then return (some (.lengthError "count > max_size() - size()"), s)
  let s ← s.write (Block.rotate · pos (curr_size + 1) (curr_size + n2 + 1))
  let s ← s.write (Block.move · (pos + n2) (pos + n2 + n1) (curr_size - n1 + n2 - pos))
  let s ← s.setSize (curr_size - n1 + n2)
  returning s

def replaceCount (s : StaticString C N) (pos n1 n2 : ℕ) (c : C) : Member C N :=
  match s.cappedLength pos n1 with
  | .error e => throwing e s
  | .ok n1 => s.replaceCountAt pos n1 n2 c

def replace (s : StaticString C N) (pos n1 : ℕ) (src : Source C) : Member C N :=
  match s.cappedLength pos n1 with
  | .error e => throwing e s
  | .ok n1 => s.replaceAt pos n1 src

def replaceUnchecked (s : StaticString C N) (pos n1 : ℕ) (chars : List C) : Member C N :=
  if pos > s.size then throwing (.outOfRange "pos > size()") s
  else
    match s.cappedLength pos n1 with
    | .error e => throwing e s
    | .ok n1 => s.replaceUncheckedAt pos n1 chars

/-! ### `swap` -/

/-- `set_size(s.size())`, and a copy of the characters with the null character. -/
def copyWhole (s other : StaticString C N) : Except Fault (StaticString C N) := do
  let s ← s.setSize other.size
  match Block.read other.data 0 (other.size + 1) with
  | .error fault => .error (.memory fault)
  | .ok chars => s.write (Block.store · 0 chars)

def swap (s other : StaticString C N) : Except Fault (StaticString C N × StaticString C N) := do
  let tmp ← copyWhole {} other
  let other ← copyWhole other s
  let s ← copyWhole s tmp
  return (s, other)

/-! ### Programs -/

/-- A call. Where the characters are those of a list, they are read from input iterators or are those of another string. -/
inductive Op (C : Type) where
  | clear
  | assignCount (count : ℕ) (ch : C)
  | assign (src : Source C)
  | assignUnchecked (chars : List C)
  | assignInput (chars : List C)
  | assignChar (ch : C)
  | insertCount (index count : ℕ) (ch : C)
  | insert (index : ℕ) (src : Source C)
  | insertUnchecked (index : ℕ) (chars : List C)
  | insertInput (pos : ℕ) (chars : List C)
  | erase (index count : ℕ)
  | pushBack (ch : C)
  | popBack
  | appendCount (count : ℕ) (ch : C)
  | append (src : Source C)
  | appendInput (chars : List C)
  | resize (n : ℕ) (c : C)
  | replaceCount (pos n1 n2 : ℕ) (c : C)
  | replace (pos n1 : ℕ) (src : Source C)
  | replaceUnchecked (pos n1 : ℕ) (chars : List C)

def call (s : StaticString C N) : Op C → Member C N
  | .clear => s.clear
  | .assignCount count ch => s.assignCount count ch
  | .assign src => s.assign src
  | .assignUnchecked chars => s.assignUnchecked chars
  | .assignInput chars => s.assignInput chars
  | .assignChar ch => s.assignChar ch
  | .insertCount index count ch => s.insertCount index count ch
  | .insert index src => s.insert index src
  | .insertUnchecked index chars => s.insertUnchecked index chars
  | .insertInput pos chars => s.insertInputAt pos chars
  | .erase index count => s.erase index count
  | .pushBack ch => s.pushBack ch
  | .popBack => s.popBack
  | .appendCount count ch => s.appendCount count ch
  | .append src => s.append src
  | .appendInput chars => s.appendInput chars
  | .resize n c => s.resize n c
  | .replaceCount pos n1 n2 c => s.replaceCount pos n1 n2 c
  | .replace pos n1 src => s.replace pos n1 src
  | .replaceUnchecked pos n1 chars => s.replaceUnchecked pos n1 chars

/-- A string with what its calls have thrown so far. The program catches what is thrown. -/
def step (s : StaticString C N × List (Option Exception)) (op : Op C) :
    Except Fault (StaticString C N × List (Option Exception)) :=
  (s.1.call op).map fun (e, t) => (t, s.2 ++ [e])

def content (s : StaticString C N) : List C := s.data.toList.take s.size

/-- The character behind the last is null. -/
def Terminated (s : StaticString C N) : Prop := s.data[s.size]? = some 0

end StaticString

/-! ### Strings of limited length -/

namespace Text

variable {C : Type}

inductive Failure where
  | length
  | range
deriving DecidableEq

/-- The characters that an argument points to in the string `xs`, or has. -/
def chars (xs : List C) : StaticString.Source C → List C
  | .inside offset count => (xs.drop offset).take count
  | .outside chars => chars

/-- `n1` characters from `pos` on are replaced. -/
def splice (xs : List C) (pos n1 : ℕ) (ys : List C) : List C := xs.take pos ++ ys ++ xs.drop (pos + n1)

/-- A change that is made if the string is not longer than `N` after it. -/
def limited (N : ℕ) (xs ys : List C) : Option Failure × List C :=
  if ys.length ≤ N then (none, ys) else (some .length, xs)

/-- A change at a place that the string must have. -/
def within (xs : List C) (pos : ℕ) (change : Option Failure × List C) : Option Failure × List C :=
  if pos ≤ xs.length then change else (some .range, xs)

/-- A replacement must leave room for one more character. -/
def replaced (N : ℕ) (xs : List C) (pos n1 : ℕ) (ys : List C) : Option Failure × List C :=
  if (splice xs pos n1 ys).length < N then (none, splice xs pos n1 ys) else (some .length, xs)

/-- What a call throws, and the string after it. -/
def apply (N : ℕ) (xs : List C) : StaticString.Op C → Option Failure × List C
  | .clear => (none, [])
  | .assignCount count ch => limited N xs (List.replicate count ch)
  | .assign src => limited N xs (chars xs src)
  | .assignUnchecked chars => (none, chars)
  | .assignInput chars => if chars.length ≤ N then (none, chars) else (some .length, chars.take N)
  | .assignChar ch => limited N xs [ch]
  | .insertCount index count ch => within xs index (limited N xs (splice xs index 0 (List.replicate count ch)))
  | .insert index src => within xs index (limited N xs (splice xs index 0 (chars xs src)))
  | .insertUnchecked index chars => within xs index (limited N xs (splice xs index 0 chars))
  | .insertInput pos chars => limited N xs (splice xs pos 0 chars)
  | .erase index count => within xs index (none, splice xs index count [])
  | .pushBack ch => limited N xs (xs ++ [ch])
  | .popBack => (none, xs.dropLast)
  | .appendCount count ch => limited N xs (xs ++ List.replicate count ch)
  | .append src => limited N xs (xs ++ chars xs src)
  | .appendInput chars => limited N xs (xs ++ chars)
  | .resize n c => limited N xs (xs.take n ++ List.replicate (n - xs.length) c)
  | .replaceCount pos n1 n2 c => within xs pos (replaced N xs pos n1 (List.replicate n2 c))
  | .replace pos n1 src => within xs pos (replaced N xs pos n1 (chars xs src))
  | .replaceUnchecked pos n1 chars => within xs pos (replaced N xs pos n1 chars)

/-- What the calls throw, and the string after them. -/
def applyAll (N : ℕ) : List C → List (StaticString.Op C) → List (Option Failure) × List C
  | xs, [] => ([], xs)
  | xs, op :: ops =>
    let (e, xs) := apply N xs op
    let (es, xs) := applyAll N xs ops
    (e :: es, xs)

/-- The characters that an argument points to are characters of the string. -/
def Inside (xs : List C) : StaticString.Source C → Prop
  | .inside offset count => offset + count ≤ xs.length
  | .outside _ => True

instance decidableInside (xs : List C) : ∀ src, Decidable (Inside xs src)
  | .inside offset count => inferInstanceAs (Decidable (offset + count ≤ xs.length))
  | .outside _ => .isTrue trivial

/-- What the caller of a member has to see to. -/
def Valid (N : ℕ) (xs : List C) : StaticString.Op C → Prop
  | .assign src | .insert _ src | .append src | .replace _ _ src => Inside xs src
  | .assignUnchecked chars => chars.length ≤ N
  | .insertInput pos _ => pos ≤ xs.length
  | .popBack => xs ≠ []
  | _ => True

instance decidableValid (N : ℕ) (xs : List C) : ∀ op, Decidable (Valid N xs op)
  | .assign src | .insert _ src | .append src | .replace _ _ src => decidableInside xs src
  | .assignUnchecked chars => inferInstanceAs (Decidable (chars.length ≤ N))
  | .insertInput pos _ => inferInstanceAs (Decidable (pos ≤ xs.length))
  | .popBack => decidable_of_iff (0 < xs.length) List.length_pos_iff
  | .clear | .assignCount .. | .assignInput _ | .assignChar _ | .insertCount .. | .insertUnchecked .. | .erase .. | .pushBack _
  | .appendCount .. | .appendInput _ | .resize .. | .replaceCount .. | .replaceUnchecked .. => .isTrue trivial

/-- Each call is valid where it is made. -/
def Valids (N : ℕ) : List C → List (StaticString.Op C) → Prop
  | _, [] => True
  | xs, op :: ops => Valid N xs op ∧ Valids N (apply N xs op).2 ops

instance decidableValids (N : ℕ) : ∀ (xs : List C) ops, Decidable (Valids N xs ops)
  | _, [] => .isTrue trivial
  | xs, op :: ops =>
    have := decidableValids N (apply N xs op).2 ops
    inferInstanceAs (Decidable (Valid N xs op ∧ Valids N (apply N xs op).2 ops))

end Text

def StaticString.Exception.failure : StaticString.Exception → Text.Failure
  | .lengthError _ => .length
  | .outOfRange _ => .range

end Zylib.ZySoft
