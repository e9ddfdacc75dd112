import Zylib.Cpp

/-! What server_http.hpp and client_http.hpp share: lines of a stream, the fields of a header and the numbers of
    the standard library that are read from them. A text is shorter than 2 ^ 63. -/

namespace Zylib.SimpleWeb

/-- A string literal. -/
def text (s : String) : Bytes := s.toUTF8.data.toList

def crlf : Bytes := [13, 10]

/-- Why nothing comes of a request: the connection has ended, what was read is not accepted, or a loop does not end. -/
inductive Fault where
  | closed
  | refused
  | endless
deriving DecidableEq

/-- A `std::istream`; `eof` when a read has come to the end of it. -/
structure Stream where
  bytes : Bytes
  eof : Bool := false

/-- `getline(stream, line)`. At the end of the stream it takes what is left, and after that it leaves the line alone. -/
def getline (s : Stream) (line : Bytes) : Bytes × Stream :=
  if s.eof then (line, s)
  else
    match s.bytes.dropWhile (· ≠ 10) with
    | [] => (s.bytes, ⟨[], true⟩)
    | _ :: rest => (s.bytes.takeWhile (· ≠ 10), ⟨rest, false⟩)

/-- `line.find(c, pos)`, `none` for `npos`. -/
def find (line : Bytes) (c : UInt8) (pos : ℕ) : Option ℕ := ((line.drop pos).idxOf? c).map (pos + ·)

/-- `line.substr(pos, len)`. A length below zero has become one above the size of the text. -/
def substr (line : Bytes) (pos : ℕ) (len : Int) : Bytes :=
  if len < 0 then line.drop pos else (line.drop pos).take len.toNat

/-! ### Headers -/

def toupper (c : UInt8) : UInt8 := if 97 ≤ c ∧ c ≤ 122 then c - 32 else c

/-- `boost::iequals`. -/
def iequals (a b : Bytes) : Bool := a.map toupper = b.map toupper

/-- An `std::unordered_multimap` whose keys are equal if they are so without regard to case. -/
abbrev Header := List (Bytes × Bytes)

/-- `header.find(key)`. -/
def Header.find (header : Header) (key : Bytes) : Option Bytes :=
  (List.find? (fun field => iequals field.1 key) header).map Prod.snd

/-- What the loop over the lines of a header inserts for a line with a colon at `param_end`. -/
def field (line : Bytes) (param_end : ℕ) : Option (Bytes × Bytes) :=
  let value_start := param_end + 1
  if value_start < line.length then
    let value_start := if (line)[value_start]? = some 32 then value_start + 1 else value_start
    if value_start < line.length then
      some (substr line 0 param_end, substr line value_start (line.length - value_start - 1 : Int))
    else none
  else none

/-- What is left of the stream. -/
def Stream.left (s : Stream) : ℕ := if s.eof then 0 else s.bytes.length + 1

theorem left_getline {s : Stream} (h : s.eof = false) (line : Bytes) : (getline s line).2.left < s.left := by
  unfold getline Stream.left
  rw [h]
  simp only [Bool.false_eq_true, if_false]
  split
  · simp
  · rename_i c rest e
    have hlen := (List.dropWhile_suffix (· ≠ 10) (l := s.bytes)).length_le
    rw [e, List.length_cons] at hlen
    simp only [Bool.false_eq_true, if_false]
    omega

/-- The loop over the lines of a header, which begins with `line`. It is without an end when the stream has ended and the last
    line has a colon, as that line stays. -/
def readFields (line : Bytes) (s : Stream) (header : Header) : Except Fault (Header × Stream) :=
  match find line 58 0 with
  | none => .ok (header, s)
  | some param_end =>
    let header := header ++ (field line param_end).toList
    if _ : s.eof = true then .error .endless
    else readFields (getline s line).1 (getline s line).2 header
termination_by s.left
decreasing_by exact left_getline (Bool.eq_false_iff.2 ‹_›) line

/-! ### Numbers -/

def isSpace (c : UInt8) : Bool := c = 32 ∨ (9 ≤ c ∧ c ≤ 13)

/-- The sign in front of a number. -/
def sign : Bytes → Bool × Bytes
  | 45 :: s => (true, s)
  | 43 :: s => (false, s)
  | s => (false, s)

/-- `std::stoull(s)`, `none` when it throws. A minus negates the number modulo 2 ^ 64. -/
def stoull (s : Bytes) : Option ℕ :=
  let (neg, s) := sign (s.dropWhile isSpace)
  let digits := s.takeWhile (decide <| isDigit ·)
  let n := digitsValue digits
  if digits = [] ∨ 2 ^ 64 ≤ n then none else some (if neg then (2 ^ 64 - n) % 2 ^ 64 else n)

/-- The value of a hexadecimal digit. -/
def hexDigit (c : UInt8) : Option ℕ :=
  if 48 ≤ c ∧ c ≤ 57 then some (c.toNat - 48)
  else if 97 ≤ c ∧ c ≤ 102 then some (c.toNat - 87)
  else if 65 ≤ c ∧ c ≤ 70 then some (c.toNat - 55)
  else none

/-- The `0x` that may stand in front of a hexadecimal number. -/
def dropPrefix (s : Bytes) : Bytes :=
  match s with
  | 48 :: x :: c :: rest => if (x = 120 ∨ x = 88) ∧ (hexDigit c).isSome then c :: rest else s
  | _ => s

/-- `std::stol(s, 0, 16)` for a `long` of 64 bits, `none` when it throws. -/
def stol16 (s : Bytes) : Option Int :=
  let (neg, s) := sign (s.dropWhile isSpace)
  let digits := (dropPrefix s).takeWhile fun c => (hexDigit c).isSome
  let n : Int := digits.foldl (fun n c => 16 * n + (hexDigit c).getD 0) (0 : ℕ)
  let n := if neg then -n else n
  if digits = [] ∨ n < -2 ^ 63 ∨ 2 ^ 63 ≤ n then none else some n

end Zylib.SimpleWeb
