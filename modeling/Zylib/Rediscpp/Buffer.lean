import Zylib.Mysqlcpp.Convert

/-! `Buffer` of `rediscpp` with its integers: the constructors write a number as a text, and the accessors read it with
    `detail::Convert`, the template that `mysqlcpp` has too. -/

namespace Zylib.Rediscpp
open Mysqlcpp (IntType cvtNoexcept)

structure Buffer where
  data : Bytes := []
deriving DecidableEq

namespace Buffer

/-! ### Constructors -/

/-- `Buffer(const std::string&)`. -/
def ofString (str : Bytes) : Buffer := if str.isEmpty then {} else { data := str }

/-- The constructors from an integer: `Buffer(std::to_string(val))`. -/
def ofInteger (val : Int) : Buffer := ofString (printfD 0 val)

def ofInt (val : Int) : Buffer := ofInteger val

def ofUnsignedInt (val : Int) : Buffer := ofInteger val

def ofLong (val : Int) : Buffer := ofInteger val

def ofUnsignedLong (val : Int) : Buffer := ofInteger val

def ofLongLong (val : Int) : Buffer := ofInteger val

def ofUnsignedLongLong (val : Int) : Buffer := ofInteger val

/-- The constructors that take a value of the type without changing it, where `std::int64_t` is `long` or `long long`. -/
def constructors : IntType → List (Int → Buffer)
  | .int8 | .uint8 | .int16 | .uint16 | .int32 => [ofInt]
  | .uint32 => [ofUnsignedInt]
  | .int64 => [ofLong, ofLongLong]
  | .uint64 => [ofUnsignedLong, ofUnsignedLongLong]

/-! ### Accessors -/

def asString (b : Buffer) : Bytes := if b.data.isEmpty then [] else b.data

/-- `asIntDetail<T>()`, for a text without white space. -/
def asIntDetail (ty : IntType) (b : Buffer) : Int :=
  let s := b.asString
  if s.isEmpty then 0 else cvtNoexcept ty s

def asInt (b : Buffer) : Int := b.asIntDetail .int32

def asInt8 (b : Buffer) : Int := b.asIntDetail .int8

def asInt16 (b : Buffer) : Int := b.asIntDetail .int16

def asInt32 (b : Buffer) : Int := b.asIntDetail .int32

def asInt64 (b : Buffer) : Int := b.asIntDetail .int64

def asUInt8 (b : Buffer) : Int := b.asIntDetail .uint8

def asUInt16 (b : Buffer) : Int := b.asIntDetail .uint16

def asUInt32 (b : Buffer) : Int := b.asIntDetail .uint32

def asUInt64 (b : Buffer) : Int := b.asIntDetail .uint64

/-- The accessors of a type. -/
def accessors : IntType → List (Buffer → Int)
  | .int8 => [asInt8]
  | .uint8 => [asUInt8]
  | .int16 => [asInt16]
  | .uint16 => [asUInt16]
  | .int32 => [asInt, asInt32]
  | .uint32 => [asUInt32]
  | .int64 => [asInt64]
  | .uint64 => [asUInt64]

end Buffer

end Zylib.Rediscpp
