import Zylib.Mysqlcpp.Convert
import Zylib.Lib.FloatFormat

/-! `Field` of `mysqlcpp2`: how `Statement` fills a field with text and `PreparedStatement` with the bytes
    of a value, and the accessors that read numbers from it. The checks of the type that are compiled
    in with `MYSQLCPP_DEBUG` only are left out. -/

namespace Zylib.Mysqlcpp
open LittleEndian

/-- `enum_field_types`. -/
inductive FieldType where
  | decimal
  | tiny
  | short
  | long
  | float
  | double
  | null
  | timestamp
  | longlong
  | int24
  | date
  | time
  | datetime
  | year
  | newdate
  | varchar
  | bit
  | json
  | newdecimal
  | enum
  | set
  | tinyBlob
  | mediumBlob
  | longBlob
  | blob
  | varString
  | string
  | geometry
deriving DecidableEq

/-- `outOfBounds` is a read outside of a buffer, `nullBuffer` one through a null pointer. -/
inductive MemoryFault where
  | outOfBounds
  | nullBuffer
deriving DecidableEq

/-- `memcpy(dest, src, n)`: the bytes that are copied. -/
def memcpy (src : Bytes) (n : Nat) : Except MemoryFault Bytes :=
  if n ≤ src.length then .ok (src.take n) else .error .outOfBounds

structure Field where
  type : FieldType := .decimal
  buffer : Bytes := []
  isBinary : Bool := false
  isNull : Bool := false
deriving DecidableEq

namespace Field

/-- `SetBinaryValue`. -/
def setBinaryValue (f : Field) (type : FieldType) (src : Option Bytes) (srcLen : Nat) (rawBytes : Bool) :
    Except MemoryFault Field :=
  match src with
  | none => .ok { f with type, isBinary := rawBytes, buffer := [] }
  | some src => (memcpy src srcLen).map fun buffer => { f with type, isBinary := rawBytes, buffer }

def setNullValue (f : Field) (type : FieldType) : Field := { f with type, isNull := true }

/-! ### Accessors -/

/-- The accessors of the integer types. -/
def asInteger (ty : IntType) (f : Field) : Except MemoryFault Int :=
  if f.isNull then .ok 0
  else if f.isBinary then (memcpy f.buffer ty.size).map fun bytes => ty.wrap (ofLE bytes)
  else .ok (cvtNoexcept ty f.buffer)

def asUInt8 : Field → Except MemoryFault Int := asInteger .uint8

def asInt8 : Field → Except MemoryFault Int := asInteger .int8

def asUInt16 : Field → Except MemoryFault Int := asInteger .uint16

def asInt16 : Field → Except MemoryFault Int := asInteger .int16

def asUInt32 : Field → Except MemoryFault Int := asInteger .uint32

def asInt32 : Field → Except MemoryFault Int := asInteger .int32

def asUInt64 : Field → Except MemoryFault Int := asInteger .uint64

def asInt64 : Field → Except MemoryFault Int := asInteger .int64

/-- The accessors of the floating point types. `convert` is `boost::convert` of a text to the type, and the
    result is the number that the value denotes, if it denotes one. -/
def asFloating (convert : FloatFormat → Bytes → Option ℚ) (format : FloatFormat) (f : Field) :
    Except MemoryFault (Option ℚ) :=
  if f.isNull then .ok (some 0)
  else if f.isBinary then (memcpy f.buffer format.size).map fun bytes => format.value (ofLE bytes)
  else .ok (some ((convert format f.buffer).getD 0))

def asDouble (convert : FloatFormat → Bytes → Option ℚ) : Field → Except MemoryFault (Option ℚ) :=
  asFloating convert .binary64

/-- `AsLongDouble`; `longDouble` is the format that `long double` has on the platform. -/
def asLongDouble (convert : FloatFormat → Bytes → Option ℚ) (longDouble : FloatFormat) :
    Field → Except MemoryFault (Option ℚ) :=
  asFloating convert longDouble

end Field

/-! ### Rows -/

/-- A field of a row of `Statement`; `cell` is what `mysql_fetch_row` gives. -/
def textField (type : FieldType) (cell : Option Bytes) : Except MemoryFault Field := do
  let length := (cell.getD []).length % 2 ^ 32
  let f ← ({} : Field).setBinaryValue type cell length false
  match cell with
  | some cell => f.setBinaryValue type (some cell) length false
  | none => .ok (f.setNullValue type)

/-- `sizeof(MYSQL_TIME)`. -/
def sizeofMysqlTime : Nat := 40

/-- `createBindBufferForField`: the size of the buffer and the type that is asked for. -/
def createBindBufferForField (type : FieldType) (maxLength : Nat) : Option (Nat × FieldType) :=
  match type with
  | .null => some (0, type)
  | .tiny => some (1, type)
  | .short => some (2, type)
  | .int24 | .long | .float => some (4, type)
  | .double | .longlong => some (8, type)
  | .year => some (2, .short)
  | .timestamp | .date | .time | .datetime => some (sizeofMysqlTime, type)
  | .tinyBlob | .mediumBlob | .longBlob | .blob | .string | .varString | .json => some (maxLength + 1, type)
  | .decimal | .newdecimal => some (64, type)
  | .bit => some (8, .bit)
  | .newdate | .varchar | .enum | .set | .geometry => none

/-- What `mysql_stmt_fetch` leaves in a buffer of the size; the length that it stores is that of the value. -/
def stmtFetch (size : Nat) (value : Bytes) : Bytes := value.take size ++ List.replicate (size - value.length) 0

/-- A field of a row of `PreparedStatement`; `cell` is the value that the server sends. -/
def binaryField (type : FieldType) (maxLength : Nat) (cell : Option Bytes) : Except MemoryFault Field :=
  match createBindBufferForField type maxLength with
  | none => .error .nullBuffer
  | some (size, type) =>
    match cell with
    | none => .ok (({} : Field).setNullValue type)
    | some value =>
      ({} : Field).setBinaryValue type (if size = 0 then none else some (stmtFetch size value)) value.length true

end Zylib.Mysqlcpp
