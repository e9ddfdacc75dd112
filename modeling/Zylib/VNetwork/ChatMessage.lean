import Zylib.Cpp
import Zylib.KNet.Message

/-! `ChatMessage` of `vnetwork`: a header of sixteen bytes, of which four are the length of the body, and the body. -/

namespace Zylib.VNetwork
open LittleEndian
open KNet.MessageDecoder (memcpyAt)

def HEADER_LENGTH : Nat := 16

def MAX_BODY_LENGTH : Nat := 512

theorem le_length_memcpyAt (b : Bytes) (pos : Nat) (src : Bytes) : b.length ≤ (memcpyAt b pos src).length := by
  simp only [memcpyAt, List.length_append, List.length_take, List.length_drop]
  omega

/-- The buffer always has room for a header. -/
structure ChatMessage where
  bodyLength : Int32 := 0
  buffer : Bytes
  header : HEADER_LENGTH ≤ buffer.length

namespace ChatMessage

/-- The constructor. -/
def new : ChatMessage := { buffer := List.replicate HEADER_LENGTH 0, header := by simp }

def data (m : ChatMessage) : Bytes := m.buffer

def length (m : ChatMessage) : Nat := toSizeT (HEADER_LENGTH + m.bodyLength.toInt)

def getBodyLength (m : ChatMessage) : Nat := toSizeT m.bodyLength.toInt

/-- The bytes from `Body()` on. -/
def body (m : ChatMessage) : Bytes := m.buffer.drop HEADER_LENGTH

/-- Bytes that are copied to `Data() + pos`. -/
def write (m : ChatMessage) (pos : Nat) (src : Bytes) : ChatMessage :=
  { m with buffer := memcpyAt m.buffer pos src, header := Nat.le_trans m.header (le_length_memcpyAt ..) }

def reset (m : ChatMessage) : ChatMessage :=
  { m with buffer := List.replicate HEADER_LENGTH 0, header := by simp }

def prepareBody (m : ChatMessage) (len : Nat) : ChatMessage :=
  let headBk := m.buffer.take HEADER_LENGTH
  { m with
    buffer := memcpyAt (List.replicate (HEADER_LENGTH + len) 0) 0 headBk
    header := Nat.le_trans (by simp) (le_length_memcpyAt ..) }

def encodeHeader (m : ChatMessage) : ChatMessage :=
  m.write 0 (memcpyAt (List.replicate HEADER_LENGTH 0) 0 (int32Bytes m.bodyLength))

/-- `Create(data, out)`. A length that is negative as an `int32_t` is copied as a huge one, which is undefined. -/
def create (data : Bytes) (out : ChatMessage) : Option ChatMessage :=
  let out := { out with bodyLength := Int32.ofNat data.length }
  if out.bodyLength < 0 then none
  else
    let out := out.prepareBody out.getBodyLength
    let out := out.write HEADER_LENGTH (data.take out.getBodyLength)
    some out.encodeHeader

def decodeHeader (m : ChatMessage) : Bool × ChatMessage :=
  let bodyLen := int32OfBytes (m.data.take 4)
  if bodyLen < 0 then (false, m)
  else if 0 < MAX_BODY_LENGTH ∧ (MAX_BODY_LENGTH : Int) < bodyLen.toInt then (false, m)
  else
    let m := { m with bodyLength := bodyLen }
    (true, m.prepareBody m.getBodyLength)

end ChatMessage

end Zylib.VNetwork
