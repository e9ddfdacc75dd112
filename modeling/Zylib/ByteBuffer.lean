import Zylib.Cpp

/-! The byte buffer that `nel` calls `ByteBuf` and `stream_server` calls `ByteBuffer`. The two
    classes are the same text but for `shrinkToFit`. -/

namespace Zylib

/-- `rpos` and `wpos` are the two cursors over `storage`. -/
structure ByteBuffer where
  rpos : Nat := 0
  wpos : Nat := 0
  storage : Bytes := []
deriving DecidableEq

namespace ByteBuffer

/-- What a member function may throw: `ByteBufferException`, `ByteBufferOverflowException`, or the
    `std::length_error` of a vector asked to grow beyond its `max_size()`; a decoder that reads from
    the buffer adds its own `std::runtime_error`. -/
inductive Exception where
  | message (text : String)
  | overflow (pos size remain : Nat)
  | lengthError
  | runtimeError (text : String)
deriving DecidableEq

/-- A member function; when it throws, the buffer is left as the function had made it. -/
abbrev M := EStateM Exception ByteBuffer

/-- The bytes written and not yet read. -/
def unread (b : ByteBuffer) : Bytes := (b.storage.take b.wpos).drop b.rpos

/-! ### Sizes -/

def byteSize : M Nat := fun b =>
  if b.rpos > b.wpos then .error (.message "byteSize read overflow") b else .ok (b.wpos - b.rpos) b

def byteEmpty (b : ByteBuffer) : Bool := b.rpos == b.storage.length

/-- `clear` and `reserve`, whose other effect, the capacity of the vector, is not modelled. -/
def clear : M Unit := set { : ByteBuffer }

def reserve (s : Nat) : M Unit := do
  if s > (← get).storage.length then
    if s > vectorMaxSize then throw .lengthError

/-! ### Writing -/

/-- `append(src, cnt)` with the `cnt` bytes at `src`, or with a null pointer. -/
def append (src : Option Bytes) : M Unit := do
  match src with
  | none => return
  | some bytes =>
    if bytes.length == 0 then return
    let b ← get
    let size := b.wpos + bytes.length
    if size > vectorMaxSize then throw .lengthError
    let storage := if b.storage.length < size then b.storage ++ List.replicate (size - b.storage.length) 0 else b.storage
    set { b with storage := storage.take b.wpos ++ bytes ++ storage.drop size, wpos := size }

/-- `operator<<` of a value of arithmetic type, given by the bytes of its representation. -/
def put (value : Bytes) : M Unit := append (some value)

def putBool (value : Bool) : M Unit := put [if value then 1 else 0]

/-- `operator<<` of a `std::string`. -/
def putString (value : Bytes) : M Unit := do
  if value.length ≠ 0 then append (some value)

/-- `operator<<` of a `const char*`; `strlen` counts the bytes before the first NUL. -/
def putCString (str : Option Bytes) : M Unit := do
  let bytes := match str with
    | none => []
    | some s => s.takeWhile (· ≠ 0)
  if bytes.length ≠ 0 then append (some bytes)

/-! ### Reading -/

/-- `read(dest, len)`. -/
def readBytes (len : Nat) : M Bytes := do
  let size ← byteSize
  let b ← get
  if len > size then throw (.overflow b.rpos len size)
  return (b.storage.drop b.rpos).take len

def readSkip (skip : Nat) : M Unit := do
  let size ← byteSize
  let b ← get
  if skip > size then throw (.overflow b.rpos skip size)
  set { b with rpos := b.rpos + skip }

inductive Floating where
  | float
  | double
  | longDouble
deriving DecidableEq

def Floating.name : Floating → String
  | .float => "float"
  | .double => "double"
  | .longDouble => "long double"

/-- The arithmetic types `T` of `read(T*)`: an integer or character type of `size` bytes, `bool`, or
    a floating-point type. -/
inductive Arithmetic where
  | integral (size : Nat)
  | bool
  | floating (t : Floating)
deriving DecidableEq

/-- What the platform decides: the size of `long double` and `std::isfinite`, on the bytes that
    represent a value. -/
structure Platform where
  longDoubleSize : Nat
  isfinite : Floating → Bytes → Bool

section
variable (p : Platform)

def Arithmetic.sizeof : Arithmetic → Nat
  | .integral size => size
  | .bool => 1
  | .floating .float => 4
  | .floating .double => 8
  | .floating .longDouble => p.longDoubleSize

/-- `read(T*)`: the bytes of the value that is stored. -/
def read (t : Arithmetic) : M Bytes := do
  match t with
  | .integral size => readBytes size
  | .bool =>
    let v ← readBytes 1
    return [if v ≠ [0] then 1 else 0]
  | .floating t =>
    let v ← readBytes ((Arithmetic.floating t).sizeof p)
    if !p.isfinite t v then throw (.message ("read " ++ t.name ++ " isfinite == false"))
    return v

/-- `operator>>` into a variable of arithmetic type. -/
def take (t : Arithmetic) : M Bytes := do
  let val ← read p t
  readSkip (t.sizeof p)
  return val

end

/-- At most `n` turns of the loop of `operator>>(std::string&)`. -/
def takeStringLoop : Nat → Bytes → M Bytes
  | 0, val => return val
  | n + 1, val => do
    if byteEmpty (← get) then return val
    let c ← readBytes 1
    readSkip 1
    takeStringLoop n (val ++ c)

/-- `operator>>` into a `std::string`. Each turn of the loop reads a byte or throws, so the number of
    turns allowed is enough. -/
def takeString : M Bytes := do
  let b ← get
  takeStringLoop (b.wpos - b.rpos + 1) []

/-- The `len` bytes from `data()`. -/
def data (len : Nat) : M Bytes := do
  let b ← get
  if byteEmpty b then throw (.message "buf is empty!")
  return (b.storage.drop b.rpos).take len

/-- `operator>>` into a `std::vector<uint8_t>`. -/
def takeVector : M Bytes := do
  if byteEmpty (← get) then return []
  let val ← data (← byteSize)
  readSkip val.length
  return val

/-! ### Compaction -/

/-- `shrinkToFit`; `drained` is what it does to the storage of a buffer that has no unread byte. -/
def shrinkToFitWith (drained : Bytes → Bytes) : M Unit := do
  let b ← get
  if b.rpos == 0 then return
  let len ← byteSize
  if len == 0 then
    set { rpos := 0, wpos := 0, storage := drained b.storage : ByteBuffer }
  else
    set { rpos := 0, wpos := len, storage := (memmoveFront b.storage b.rpos len).take len : ByteBuffer }

end ByteBuffer

/-! ### The two classes -/

namespace Nel

abbrev ByteBuf := ByteBuffer

/-- `m_storage.shrink_to_fit()`, which keeps the elements. -/
def ByteBuf.drained (storage : Bytes) : Bytes := storage

def ByteBuf.shrinkToFit : ByteBuffer.M Unit := ByteBuffer.shrinkToFitWith ByteBuf.drained

end Nel

namespace StreamServer

/-- `m_storage.clear()`. -/
def drained (_ : Bytes) : Bytes := []

def shrinkToFit : ByteBuffer.M Unit := ByteBuffer.shrinkToFitWith drained

end StreamServer
end Zylib
