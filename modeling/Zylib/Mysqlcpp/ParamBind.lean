import Zylib.Lib.Run
import Zylib.KNet.Message
import Zylib.Mysqlcpp.Field

/-! `detail::ParamBind` of `mysqlcpp2`: an array of `MYSQL_BIND`, whose pointers go into one vector of bytes for each of the
    parameters of a statement. -/

namespace Zylib.Mysqlcpp
open LittleEndian

/-! ### Memory -/

/-- A `std::vector<uint8>` with the block that it owns; a block is never made twice. -/
structure ByteVector where
  addr : Option Nat := none
  capacity : Nat := 0
  bytes : Bytes := []

namespace ByteVector

def data (v : ByteVector) : Option Nat := v.addr

/-- A vector that is made of bytes, with what it has allocated beyond them; the next new block is `next`. -/
def ofBytes (next : Nat) (bytes : Bytes) (spare : Nat) : ByteVector × Nat :=
  if bytes.length + spare = 0 then ({}, next)
  else ({ addr := some next, capacity := bytes.length + spare, bytes }, next + 1)

/-- Another block is taken only if there is no room in the one that there is. -/
def resize (v : ByteVector) (next n : Nat) : ByteVector × Nat :=
  let bytes := KNet.MessageDecoder.resize v.bytes n
  if n ≤ v.capacity then ({ v with bytes }, next) else ({ addr := some next, capacity := n, bytes }, next + 1)

/-- `memcpy(data(), src, src_len)`. -/
def memcpy (v : ByteVector) (src : Bytes) : ByteVector :=
  { v with bytes := KNet.MessageDecoder.memcpyAt v.bytes 0 src }

end ByteVector

/-! ### The binds -/

/-- The members of `MYSQL_BIND` that are written; a pointer is to the beginning of a block. -/
structure MysqlBind where
  buffer : Option Nat := none
  bufferType : FieldType := .decimal
  bufferLength : Nat := 0
  isUnsigned : Bool := false

/-- `DateTime`, by the bytes of its `MYSQL_TIME`. -/
structure DateTime where
  mysqlTime : Bytes
  length_mysqlTime : mysqlTime.length = sizeofMysqlTime

def DateTime.getBinary (t : DateTime) : Bytes := t.mysqlTime

structure ParamBind where
  paramCount : Nat
  bind : List MysqlBind
  valueSet : List Bool
  bindBuffer : List ByteVector
  next : Nat := 0
  warnings : List Nat := []

namespace ParamBind

/-- A failed `assert`. -/
inductive Fault where
  | assertion
deriving DecidableEq

/-- The constructor. -/
def new (paramCount : Nat) : ParamBind where
  paramCount
  bind := List.replicate paramCount {}
  valueSet := List.replicate paramCount false
  bindBuffer := List.replicate paramCount {}

/-- A value that has been set is set again with a warning. -/
def checkValidIndex (p : ParamBind) (index : Nat) : Except Fault ParamBind :=
  if index < p.paramCount then
    .ok (if p.valueSet.getD index false then { p with warnings := p.warnings ++ [index] } else p)
  else .error .assertion

def set (p : ParamBind) (index : Nat) : ParamBind := { p with valueSet := p.valueSet.set index true }

def setWholeNumber (p : ParamBind) (index : Nat) (type : FieldType) (src : Bytes) (isUnsigned : Bool) : ParamBind :=
  let (v, next) := (p.bindBuffer.getD index {}).resize p.next src.length
  let v := v.memcpy src
  let param := { p.bind.getD index {} with bufferType := type, buffer := v.data, isUnsigned }
  { p with next, bindBuffer := p.bindBuffer.set index v, bind := p.bind.set index param }

def setRealNumber (p : ParamBind) (index : Nat) (type : FieldType) (src : Bytes) : ParamBind :=
  let (v, next) := (p.bindBuffer.getD index {}).resize p.next src.length
  let v := v.memcpy src
  let param := { p.bind.getD index {} with bufferType := type, buffer := v.data }
  { p with next, bindBuffer := p.bindBuffer.set index v, bind := p.bind.set index param }

/-! ### Setters -/

/-- The setters of integers. -/
def setWhole (p : ParamBind) (index : Nat) (type : FieldType) (src : Bytes) (isUnsigned : Bool) : Except Fault ParamBind := do
  let p ← p.checkValidIndex index
  return (p.set index).setWholeNumber index type src isUnsigned

def setUInt8 (p : ParamBind) (index : Nat) (value : UInt8) : Except Fault ParamBind :=
  p.setWhole index .tiny (toLE 1 value.toNat) true

def setBool (p : ParamBind) (index : Nat) (value : Bool) : Except Fault ParamBind :=
  p.setUInt8 index (if value then 1 else 0)

def setUInt16 (p : ParamBind) (index : Nat) (value : UInt16) : Except Fault ParamBind :=
  p.setWhole index .short (toLE 2 value.toNat) true

def setUInt32 (p : ParamBind) (index : Nat) (value : UInt32) : Except Fault ParamBind :=
  p.setWhole index .long (toLE 4 value.toNat) true

def setUInt64 (p : ParamBind) (index : Nat) (value : UInt64) : Except Fault ParamBind :=
  p.setWhole index .longlong (toLE 8 value.toNat) true

def setInt8 (p : ParamBind) (index : Nat) (value : Int8) : Except Fault ParamBind :=
  p.setWhole index .tiny (toLE 1 value.toUInt8.toNat) false

def setInt16 (p : ParamBind) (index : Nat) (value : Int16) : Except Fault ParamBind :=
  p.setWhole index .short (toLE 2 value.toUInt16.toNat) false

def setInt32 (p : ParamBind) (index : Nat) (value : Int32) : Except Fault ParamBind :=
  p.setWhole index .long (int32Bytes value) false

def setInt64 (p : ParamBind) (index : Nat) (value : Int64) : Except Fault ParamBind :=
  p.setWhole index .longlong (toLE 8 value.toUInt64.toNat) false

/-- The setters of floating-point numbers, by their bits. -/
def setReal (p : ParamBind) (index : Nat) (type : FieldType) (src : Bytes) : Except Fault ParamBind := do
  let p ← p.checkValidIndex index
  return (p.set index).setRealNumber index type src

def setFloat (p : ParamBind) (index : Nat) (bits : UInt32) : Except Fault ParamBind :=
  p.setReal index .float (toLE 4 bits.toNat)

def setDouble (p : ParamBind) (index : Nat) (bits : UInt64) : Except Fault ParamBind :=
  p.setReal index .double (toLE 8 bits.toNat)

/-- The vector comes with what it has allocated beyond its bytes, and is moved in. -/
def setBinary (p : ParamBind) (index : Nat) (value : Bytes) (spare : Nat) (isString : Bool) : Except Fault ParamBind := do
  let p ← p.checkValidIndex index
  let p := p.set index
  let (v, next) := ByteVector.ofBytes p.next value spare
  let param := { p.bind.getD index {} with
    buffer := if v.bytes.isEmpty then none else v.data
    bufferType := if isString then .varString else .blob
    bufferLength := value.length }
  return { p with next, bindBuffer := p.bindBuffer.set index v, bind := p.bind.set index param }

/-- `setString(uint32, const std::string&)`. -/
def setString (p : ParamBind) (index : Nat) (value : Bytes) : Except Fault ParamBind :=
  if value.isEmpty then p.setBinary index [] 0 true else p.setBinary index value 0 true

/-- `setString(uint32, const char*)`. -/
def setCString (p : ParamBind) (index : Nat) (value : Bytes) : Except Fault ParamBind :=
  let value := value.takeWhile (· ≠ 0)
  if value.length = 0 then p.setBinary index [] 0 true else p.setBinary index value 0 true

def setNull (p : ParamBind) (index : Nat) : Except Fault ParamBind := do
  let p ← p.checkValidIndex index
  let p := p.set index
  return { p with bind := p.bind.set index { p.bind.getD index {} with bufferType := .null } }

def setDateTime (p : ParamBind) (index : Nat) (value : DateTime) : Except Fault ParamBind := do
  let p ← p.checkValidIndex index
  let p := p.set index
  let (v, next) := ByteVector.ofBytes p.next value.getBinary 0
  let param := { p.bind.getD index {} with buffer := v.data, bufferType := .datetime }
  return { p with next, bindBuffer := p.bindBuffer.set index v, bind := p.bind.set index param }

def clear (p : ParamBind) : ParamBind :=
  { p with
    bind := List.replicate p.paramCount {}
    valueSet := List.replicate p.paramCount false
    bindBuffer := List.replicate p.paramCount {} }

/-! ### Histories -/

inductive Call where
  | setBool (index : Nat) (value : Bool)
  | setUInt8 (index : Nat) (value : UInt8)
  | setUInt16 (index : Nat) (value : UInt16)
  | setUInt32 (index : Nat) (value : UInt32)
  | setUInt64 (index : Nat) (value : UInt64)
  | setInt8 (index : Nat) (value : Int8)
  | setInt16 (index : Nat) (value : Int16)
  | setInt32 (index : Nat) (value : Int32)
  | setInt64 (index : Nat) (value : Int64)
  | setFloat (index : Nat) (bits : UInt32)
  | setDouble (index : Nat) (bits : UInt64)
  | setString (index : Nat) (value : Bytes)
  | setCString (index : Nat) (value : Bytes)
  | setBinary (index : Nat) (value : Bytes) (spare : Nat) (isString : Bool)
  | setNull (index : Nat)
  | setDateTime (index : Nat) (value : DateTime)
  | clear

def step (p : ParamBind) : Call → Except Fault ParamBind
  | .setBool index value => p.setBool index value
  | .setUInt8 index value => p.setUInt8 index value
  | .setUInt16 index value => p.setUInt16 index value
  | .setUInt32 index value => p.setUInt32 index value
  | .setUInt64 index value => p.setUInt64 index value
  | .setInt8 index value => p.setInt8 index value
  | .setInt16 index value => p.setInt16 index value
  | .setInt32 index value => p.setInt32 index value
  | .setInt64 index value => p.setInt64 index value
  | .setFloat index bits => p.setFloat index bits
  | .setDouble index bits => p.setDouble index bits
  | .setString index value => p.setString index value
  | .setCString index value => p.setCString index value
  | .setBinary index value spare isString => p.setBinary index value spare isString
  | .setNull index => p.setNull index
  | .setDateTime index value => p.setDateTime index value
  | .clear => .ok p.clear

/-! ### What a bind describes -/

/-- What the client library takes from a bind: of an integer the signedness too, of a text or a blob the length. -/
inductive Value where
  | null
  | whole (type : FieldType) (isUnsigned : Bool) (bytes : Bytes)
  | fixed (type : FieldType) (bytes : Bytes)
  | binary (type : FieldType) (bytes : Bytes)
deriving DecidableEq

/-- The first `n` bytes behind a pointer. -/
def read (deref : Nat → Option Bytes) (buffer : Option Nat) (n : Nat) : Option Bytes :=
  if n = 0 then some []
  else
    match buffer.bind deref with
    | none => none
    | some bytes => if n ≤ bytes.length then some (bytes.take n) else none

/-- The client library reads as many bytes as the type has, and of a text or a blob `buffer_length`. -/
def valueOf (deref : Nat → Option Bytes) (param : MysqlBind) : Option Value :=
  match param.bufferType with
  | .null => some .null
  | .tiny => (read deref param.buffer 1).map (.whole .tiny param.isUnsigned)
  | .short => (read deref param.buffer 2).map (.whole .short param.isUnsigned)
  | .long => (read deref param.buffer 4).map (.whole .long param.isUnsigned)
  | .longlong => (read deref param.buffer 8).map (.whole .longlong param.isUnsigned)
  | .float => (read deref param.buffer 4).map (.fixed .float)
  | .double => (read deref param.buffer 8).map (.fixed .double)
  | .datetime => (read deref param.buffer sizeofMysqlTime).map (.fixed .datetime)
  | .varString => (read deref param.buffer param.bufferLength).map (.binary .varString)
  | .blob => (read deref param.buffer param.bufferLength).map (.binary .blob)
  | _ => none

/-- The bytes of the vector that owns a block. -/
def deref (p : ParamBind) (addr : Nat) : Option Bytes :=
  (p.bindBuffer.find? fun v => v.addr == some addr).map (·.bytes)

/-- What the bind at an index describes. -/
def describes (p : ParamBind) (i : Nat) : Option Value := p.bind[i]?.bind (valueOf p.deref)

/-- `param->buffer` points to the vector of the index, or is null and the vector has no bytes. -/
def PointsInto (p : ParamBind) (i : Nat) : Prop :=
  ∀ param v, p.bind[i]? = some param → p.bindBuffer[i]? = some v →
    param.buffer = v.data ∨ (param.buffer = none ∧ v.bytes = [])

/-- The index that a call sets, and the value. -/
def Call.sets : Call → Option (Nat × Value)
  | .setBool index value => some (index, .whole .tiny true (toLE 1 value.toNat))
  | .setUInt8 index value => some (index, .whole .tiny true (toLE 1 value.toNat))
  | .setUInt16 index value => some (index, .whole .short true (toLE 2 value.toNat))
  | .setUInt32 index value => some (index, .whole .long true (toLE 4 value.toNat))
  | .setUInt64 index value => some (index, .whole .longlong true (toLE 8 value.toNat))
  | .setInt8 index value => some (index, .whole .tiny false (toLE 1 value.toUInt8.toNat))
  | .setInt16 index value => some (index, .whole .short false (toLE 2 value.toUInt16.toNat))
  | .setInt32 index value => some (index, .whole .long false (toLE 4 value.toUInt32.toNat))
  | .setInt64 index value => some (index, .whole .longlong false (toLE 8 value.toUInt64.toNat))
  | .setFloat index bits => some (index, .fixed .float (toLE 4 bits.toNat))
  | .setDouble index bits => some (index, .fixed .double (toLE 8 bits.toNat))
  | .setString index value => some (index, .binary .varString value)
  | .setCString index value => some (index, .binary .varString (value.takeWhile (· ≠ 0)))
  | .setBinary index value _ isString => some (index, .binary (if isString then .varString else .blob) value)
  | .setNull index => some (index, .null)
  | .setDateTime index value => some (index, .fixed .datetime value.mysqlTime)
  | .clear => none

/-- What becomes of the last value of an index. -/
def Call.effect (i : Nat) (last : Option Value) (c : Call) : Option Value :=
  match c.sets with
  | none => none
  | some (index, value) => if index = i then some value else last

/-- The last value that was set for an index since the last `clear`. -/
def lastValue (calls : List Call) (i : Nat) : Option Value := calls.foldl (Call.effect i) none

end ParamBind

end Zylib.Mysqlcpp
