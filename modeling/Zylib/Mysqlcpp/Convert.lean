import Zylib.Cpp

/-! `detail::Convert` of `mysqlcpp2` for the integer types: `boost::convert` with a `cstream`, which
    extracts a value with `>>` and fails if a character is left. -/

namespace Zylib.Mysqlcpp

inductive IntType where
  | int8
  | uint8
  | int16
  | uint16
  | int32
  | uint32
  | int64
  | uint64
deriving DecidableEq

namespace IntType

/-- `sizeof`. -/
def size : IntType → Nat
  | int8 | uint8 => 1
  | int16 | uint16 => 2
  | int32 | uint32 => 4
  | int64 | uint64 => 8

def signed : IntType → Bool
  | int8 | int16 | int32 | int64 => true
  | uint8 | uint16 | uint32 | uint64 => false

def min (ty : IntType) : Int := if ty.signed then -2 ^ (8 * ty.size - 1) else 0

/-- One more than the largest value. -/
def bound (ty : IntType) : Int := if ty.signed then 2 ^ (8 * ty.size - 1) else 2 ^ (8 * ty.size)

def InRange (ty : IntType) (n : Int) : Prop := ty.min ≤ n ∧ n < ty.bound

instance (ty : IntType) (n : Int) : Decidable (ty.InRange n) := inferInstanceAs (Decidable (_ ∧ _))

/-- The value of the type with the bits of `n`. -/
def wrap (ty : IntType) (n : Int) : Int :=
  let m := n % 2 ^ (8 * ty.size)
  if m < ty.bound then m else m - 2 ^ (8 * ty.size)

end IntType

/-- An optional sign and digits, and nothing else: whether the sign is a minus, and the digits. -/
def signedDigits (s : Bytes) : Option (Bool × Bytes) :=
  let (neg, digits) := match s with
    | 45 :: digits => (true, digits)
    | 43 :: digits => (false, digits)
    | _ => (false, s)
  if !digits.isEmpty && digits.all (decide <| isDigit ·) then some (neg, digits) else none

/-- The number that `strtoll` or `strtoull` reads for the type. `strtoull` negates in 64 bits. -/
def strto (ty : IntType) (neg : Bool) (n : Nat) : Int :=
  if ty.signed then if neg then -n else n
  else if neg ∧ n < 2 ^ 64 then (-n : Int) % 2 ^ 64 else n

/-- `boost::convert<T>(s, cstream{})` for a text without white space. The types of one byte are characters:
    `>>` extracts one character and does not read a number. -/
def convert (ty : IntType) (s : Bytes) : Option Int :=
  if ty.size = 1 then
    match s with
    | [c] => some (ty.wrap c.toNat)
    | _ => none
  else
    match signedDigits s with
    | none => none
    | some (neg, digits) =>
      let n := strto ty neg (digitsValue digits)
      if ty.InRange n then some n else none

def cvtNoexcept (ty : IntType) (s : Bytes) : Int := (convert ty s).getD 0

end Zylib.Mysqlcpp
