import Zylib.Cpp

/-! `Buffer` of `zysoft/experimental/net` (Buffer.h): a vector of bytes, a cursor for reading and one for
    writing. Sizes are of type `size_t`, whose sums and differences wrap around. -/

namespace Zylib.ZySoft.Net

/-- `PrependBytes`. -/
def prependBytes : Nat := 8

/-- What ends a call: an `assert` that fails, a range that is not in the vector, which is undefined behaviour,
    or the `std::length_error` of the vector. -/
inductive BufferFault where
  | assertion
  | outOfRange
  | lengthError
deriving DecidableEq

structure Buffer where
  buffer : Bytes
  readPos : Nat
  writePos : Nat
deriving DecidableEq

/-- A region of memory; none has more than `PTRDIFF_MAX` bytes. -/
abbrev Region := { bytes : Bytes // bytes.length ≤ vectorMaxSize }

namespace Buffer

/-! ### The vector -/

/-- `resize(n)`. -/
def resize (v : Bytes) (n : Nat) : Except BufferFault Bytes :=
  if n > vectorMaxSize then .error .lengthError else .ok (v.take n ++ List.replicate (n - v.length) 0)

/-- The bytes from `first` to `last`. -/
def range (v : Bytes) (first last : Nat) : Except BufferFault Bytes :=
  if first ≤ last ∧ last ≤ v.length then .ok ((v.drop first).take (last - first)) else .error .outOfRange

/-- `std::copy` of `bytes` to `result`, which for bytes is `memmove`. -/
def copy (v bytes : Bytes) (result : Nat) : Except BufferFault Bytes :=
  if result + bytes.length ≤ v.length then .ok (v.take result ++ bytes ++ v.drop (result + bytes.length))
  else .error .outOfRange

/-! ### Members -/

def readableBytes (b : Buffer) : Nat := toSizeT (b.writePos - b.readPos)

def writableBytes (b : Buffer) : Nat := toSizeT (b.buffer.length - b.writePos)

def empty (b : Buffer) : Bool := b.readPos == b.writePos

/-- The `ReadableBytes()` bytes at `ReadablePtr()`. -/
def readable (b : Buffer) : Bytes := (b.buffer.drop b.readPos).take b.readableBytes

/-- `Buffer(n)`. -/
def construct (n : Nat) : Except BufferFault Buffer := do
  let buffer ← resize [] (uint64 (prependBytes + n))
  let b : Buffer := { buffer, readPos := prependBytes, writePos := prependBytes }
  if b.readableBytes = 0 ∧ b.writableBytes = n then return b else throw .assertion

def clear (b : Buffer) : Buffer := { b with readPos := prependBytes, writePos := prependBytes }

def consume (b : Buffer) (len : Nat) : Except BufferFault Buffer :=
  if len ≤ b.readableBytes then
    if len < b.readableBytes then .ok { b with readPos := uint64 (b.readPos + len) } else .ok b.clear
  else .error .assertion

/-- The readable bytes are moved to the front. -/
def slide (b : Buffer) : Except BufferFault Buffer := do
  let readable := b.readableBytes
  let buffer ← copy b.buffer (← range b.buffer b.readPos b.writePos) prependBytes
  return { buffer, readPos := prependBytes, writePos := uint64 (prependBytes + readable) }

def makeSpace (b : Buffer) (len : Nat) : Except BufferFault Buffer :=
  if uint64 (toSizeT (b.readPos - prependBytes) + b.writableBytes) < len then do
    let buffer ← resize b.buffer (uint64 (b.writePos + len))
    return { b with buffer }
  else b.slide

def prepareWritableBytes (b : Buffer) (len : Nat) : Except BufferFault Buffer := do
  let b ← if b.writableBytes < len then b.makeSpace len else pure b
  if b.writableBytes ≥ len then return b else throw .assertion

/-- `Append(data, len)` with the `len` bytes at `data`, or with a null pointer. -/
def append (b : Buffer) (data : Option Bytes) : Except BufferFault Buffer := do
  match data with
  | none => return b
  | some bytes =>
    if bytes.length = 0 then return b
    let b ← b.prepareWritableBytes bytes.length
    let buffer ← copy b.buffer bytes b.writePos
    return { b with buffer, writePos := uint64 (b.writePos + bytes.length) }

def shrink (b : Buffer) : Except BufferFault Buffer := do
  let b ← b.slide
  let buffer ← resize b.buffer b.writePos
  return { b with buffer }

/-- What the defaulted move constructor makes, and what it leaves: the vector is moved, the cursors are
    copied. -/
def move (b : Buffer) : Buffer × Buffer := (b, { b with buffer := [] })

end Buffer

/-! ### Programs with buffers -/

/-- A call, on the buffers numbered in the order of their construction. -/
inductive BufferOp where
  | construct (n : Nat) (hn : n < 2 ^ 64)
  | append (i : Nat) (data : Option Region)
  | consume (i len : Nat)
  | clear (i : Nat)
  | shrink (i : Nat)
  | swap (i j : Nat)

/-- The buffers, each with the bytes that have been appended to it and not yet consumed. -/
abbrev Buffers := List (Buffer × Bytes)

/-- `f` on the `i`-th buffer and `g` on the bytes that it stands for. A call that throws leaves both as
    they are. -/
def Buffers.update (s : Buffers) (i : Nat) (f : Buffer → Except BufferFault Buffer) (g : Bytes → Bytes) :
    Except BufferFault Buffers :=
  match s[i]? with
  | none => .ok s
  | some (b, q) =>
    match f b with
    | .ok b => .ok (s.set i (b, g q))
    | .error .lengthError => .ok s
    | .error e => .error e

/-- `Swap` of two of the buffers. -/
def Buffers.swap (s : Buffers) (i j : Nat) : Buffers :=
  match s[i]?, s[j]? with
  | some x, some y => (s.set i y).set j x
  | _, _ => s

/-- A call on a buffer that does not exist is not made. -/
def Buffers.step (s : Buffers) : BufferOp → Except BufferFault Buffers
  | .construct n _ =>
    match Buffer.construct n with
    | .ok b => .ok (s ++ [(b, [])])
    | .error .lengthError => .ok s
    | .error e => .error e
  | .append i data => s.update i (·.append (data.map Subtype.val)) (· ++ (data.map Subtype.val).getD [])
  | .consume i len => s.update i (·.consume len) (·.drop len)
  | .clear i => s.update i (fun b => .ok b.clear) fun _ => []
  | .shrink i => s.update i Buffer.shrink id
  | .swap i j => .ok (s.swap i j)

end Zylib.ZySoft.Net
