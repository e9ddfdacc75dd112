import Zylib.Mysqlcpp.Field

/-! What a MySQL server sends for the value of a number column: its text in a row of a `Statement`, and
    the bytes in a row of a `PreparedStatement`, which are again the text for a `DECIMAL`. -/

namespace Zylib.Mysqlcpp
open LittleEndian

/-- A `DECIMAL`, with the digits before and after the point that the server writes. -/
structure Decimal where
  negative : Bool
  int : Bytes
  frac : Bytes
  intDigits : int ≠ [] ∧ ∀ c ∈ int, isDigit c
  fracDigits : ∀ c ∈ frac, isDigit c
  intLength : int.length ≤ 65
  fracLength : frac.length ≤ 30

namespace Decimal

def text (d : Decimal) : Bytes :=
  (if d.negative then [45] else []) ++ (d.int ++ if d.frac = [] then [] else 46 :: d.frac)

def value (d : Decimal) : ℚ := (if d.negative then -1 else 1) * (digitsValue (d.int ++ d.frac) / 10 ^ d.frac.length)

end Decimal

/-- The type of the values of an integer column. -/
def integerType : FieldType → Bool → Option IntType
  | .tiny, false => some .int8
  | .tiny, true => some .uint8
  | .short, false => some .int16
  | .short, true => some .uint16
  | .int24, false | .long, false => some .int32
  | .int24, true | .long, true => some .uint32
  | .longlong, false => some .int64
  | .longlong, true => some .uint64
  | _, _ => none

/-- A value of a column. `width` is the display width of a `ZEROFILL` column and 0 for another one; the text
    of a `DOUBLE` is what the server writes for it. -/
inductive ColumnValue where
  | integer (type : FieldType) (unsigned : Bool) (width : Nat) (n : Int)
  | double (bits : UInt64) (text : Bytes)
  | decimal (d : Decimal)

namespace ColumnValue

def type : ColumnValue → FieldType
  | integer type .. => type
  | double .. => .double
  | decimal _ => .newdecimal

def text : ColumnValue → Bytes
  | integer _ _ width n => printfD width n
  | double _ text => text
  | decimal d => d.text

def binary : ColumnValue → Bytes
  | integer type unsigned _ n =>
    match integerType type unsigned with
    | some ty => toLE ty.size (n % 2 ^ (8 * ty.size)).toNat
    | none => []
  | double bits _ => toLE 8 bits.toNat
  | decimal d => d.text

end ColumnValue

inductive Accessor where
  | asInt8
  | asUInt8
  | asInt16
  | asUInt16
  | asInt32
  | asUInt32
  | asInt64
  | asUInt64
  | asDouble
  | asLongDouble
deriving DecidableEq

/-- The table of accessors of `Field`. -/
def documented : FieldType → List Accessor
  | .tiny => [.asInt8, .asUInt8]
  | .short => [.asInt16, .asUInt16]
  | .int24 | .long => [.asInt32, .asUInt32]
  | .longlong => [.asInt64, .asUInt64]
  | .double | .newdecimal => [.asDouble, .asLongDouble]
  | _ => []

namespace Accessor

/-- The type of the result of an accessor of integers. -/
def integerType : Accessor → Option IntType
  | asInt8 => some .int8
  | asUInt8 => some .uint8
  | asInt16 => some .int16
  | asUInt16 => some .uint16
  | asInt32 => some .int32
  | asUInt32 => some .uint32
  | asInt64 => some .int64
  | asUInt64 => some .uint64
  | asDouble | asLongDouble => none

def number (result : Except MemoryFault Int) : Except MemoryFault (Option ℚ) := result.map fun n : Int => some (n : ℚ)

/-- The number that an accessor returns. -/
def read (convert : FloatFormat → Bytes → Option ℚ) (longDouble : FloatFormat) (f : Field) :
    Accessor → Except MemoryFault (Option ℚ)
  | asInt8 => number f.asInt8
  | asUInt8 => number f.asUInt8
  | asInt16 => number f.asInt16
  | asUInt16 => number f.asUInt16
  | asInt32 => number f.asInt32
  | asUInt32 => number f.asUInt32
  | asInt64 => number f.asInt64
  | asUInt64 => number f.asUInt64
  | asDouble => f.asDouble convert
  | asLongDouble => f.asLongDouble convert longDouble

end Accessor

end Zylib.Mysqlcpp
