import Zylib.Cpp

/-! Byte buffers and messages of `zysoft/src/network` (Buffer.h, Message.h). -/

namespace Zylib.ZySoft
open LittleEndian

/-- `FlatBuffer`: the bytes of its vector. -/
structure FlatBuffer where
  buffer : Bytes
deriving DecidableEq

namespace FlatBuffer

def length (b : FlatBuffer) : Nat := b.buffer.length

/-- `Append(data, length)`: `data` is `none` for a null pointer, and otherwise the memory that
    starts there. -/
def append (b : FlatBuffer) (data : Option Bytes) (length : Nat) : FlatBuffer :=
  match data with
  | none => b
  | some pos => if length = 0 then b else ⟨b.buffer ++ pos.take length⟩

def consume (b : FlatBuffer) (length : Nat) : Bool × FlatBuffer :=
  if b.buffer.length < length then (false, b)
  else
    let remain := b.buffer.length - length
    (true, ⟨(memmoveFront b.buffer length remain).take remain⟩)

/-- `Reverse(length)` reserves capacity. -/
def reverse (b : FlatBuffer) (_length : Nat) : FlatBuffer := b

@[simp] theorem append_length (b : FlatBuffer) (data : Bytes) :
    b.append (some data) data.length = ⟨b.buffer ++ data⟩ := by
  cases data <;> simp [append]

theorem append_some (b : FlatBuffer) (data : Bytes) (length : Nat) :
    b.append (some data) length = ⟨b.buffer ++ data.take length⟩ := by
  by_cases h : length = 0 <;> simp [append, h]

theorem consume_of_le {b : FlatBuffer} {length : Nat} (h : length ≤ b.buffer.length) :
    b.consume length = (true, ⟨b.buffer.drop length⟩) := by
  unfold consume
  rw [if_neg (Nat.not_lt.mpr h)]
  simp only [take_memmoveFront]

end FlatBuffer

structure MessageHead where
  bodyLength : Int32
  unknown0 : Int32
  unknown1 : Int32
  unknown2 : Int32

/-- `HEAD_LENGTH`, the size of the packed head. -/
def headLength : Nat := 16

namespace MessageHead

/-- The head after `BZero`. -/
def zero : MessageHead := ⟨0, 0, 0, 0⟩

/-- The bytes of the packed head in memory. -/
def bytes (h : MessageHead) : Bytes :=
  int32Bytes h.bodyLength ++ int32Bytes h.unknown0 ++ int32Bytes h.unknown1 ++ int32Bytes h.unknown2

/-- The head that `memcpy` fills from `src`. -/
def ofBytes (src : Bytes) : MessageHead where
  bodyLength := int32OfBytes (src.take 4)
  unknown0 := int32OfBytes ((src.drop 4).take 4)
  unknown1 := int32OfBytes ((src.drop 8).take 4)
  unknown2 := int32OfBytes ((src.drop 12).take 4)

@[simp] theorem length_bytes (h : MessageHead) : h.bytes.length = headLength := by
  simp [bytes, headLength]

end MessageHead

structure Message where
  buffer : FlatBuffer
deriving DecidableEq

namespace Message

def empty : Message := ⟨⟨[]⟩⟩

def bytes (m : Message) : Bytes := m.buffer.buffer

def length (m : Message) : Nat := m.buffer.length

def bodyLength (m : Message) : Nat :=
  if m.buffer.length < headLength then 0 else m.buffer.length - headLength

/-- The `BodyLength()` bytes at `BodyPtr()`. -/
def body (m : Message) : Bytes := (m.buffer.buffer.drop headLength).take m.bodyLength

end Message

end Zylib.ZySoft
