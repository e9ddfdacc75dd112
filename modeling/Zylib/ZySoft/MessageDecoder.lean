import Zylib.ZySoft.Message
import Zylib.Lib.Drain

/-! `DefaultMessageDecoder` (MessageDecoder.h): frames of a 16-byte head, which holds the length of
    the body, and the body. -/

namespace Zylib.ZySoft
open LittleEndian Drain

/-- What ends a call without a result: an overflow of `int`, which is undefined behaviour, or a
    failed `NETWORK_ASSERT` (an `assert`, compiled in). -/
inductive Fault where
  | signedOverflow
  | assertion
deriving DecidableEq

/-- The sum of two `int`s. -/
def addInt (a b : Int) : Except Fault Int :=
  if -2 ^ 31 ≤ a + b ∧ a + b < 2 ^ 31 then .ok (a + b) else .error .signedOverflow

/-- `Encode(data, length, out)`. -/
def encode (data : Option Bytes) (length : Nat) (out : Message) : Message :=
  let head := { MessageHead.zero with bodyLength := Int32.ofNat length }
  let msgLength := headLength + length
  ⟨((out.buffer.reverse msgLength).append (some head.bytes) headLength).append data length⟩

/-- `DecodeOnce(buffer, msg)`: the message and the buffer after it, or `none` for `false`. -/
def decodeOnce (buffer : FlatBuffer) : Except Fault (Option (Message × FlatBuffer)) :=
  if buffer.length < headLength then .ok none
  else
    let head := MessageHead.ofBytes (buffer.buffer.take headLength)
    match addInt headLength head.bodyLength.toInt with
    | .error e => .error e
    | .ok n =>
      let msgLength := toSizeT n
      if buffer.length < msgLength then .ok none
      else
        let msg := Message.empty.buffer.append (some buffer.buffer) msgLength
        match buffer.consume msgLength with
        | (false, _) => .error .assertion
        | (true, buffer) => .ok (some (⟨msg⟩, buffer))

/-- `Decode(buffer, vec)`, for at most `turns` turns of its loop. -/
def decode (turns : Nat) (buffer : FlatBuffer) (vec : List Message) :
    Except (Stop Fault) (List Message × FlatBuffer) :=
  drain decodeOnce turns buffer vec

/-- A successful read of a `Channel` (Channel.h, `DoRead` and `TryDecode`): the bytes read are
    appended to the read buffer, and the messages decoded are handed to the event. -/
def Channel.doRead (turns : Nat) (readBuffer : FlatBuffer) (chunk : Bytes) :
    Except (Stop Fault) (List Message × FlatBuffer) :=
  decode turns (readBuffer.append (some chunk) chunk.length) []

/-! ### What one turn does -/

/-- The `m_body_length` in the first four bytes. -/
def storedLength (b : Bytes) : Int := (int32OfBytes (b.take 4)).toInt

theorem storedLength_bounds (b : Bytes) : -2 ^ 31 ≤ storedLength b ∧ storedLength b < 2 ^ 31 :=
  ⟨Int32.le_toInt _, Int32.toInt_lt _⟩

theorem storedLength_append {b t : Bytes} (h : 4 ≤ b.length) : storedLength (b ++ t) = storedLength b := by
  unfold storedLength
  rw [List.take_append_of_le_length h]

theorem decodeOnce_short {b : FlatBuffer} (h : b.length < headLength) : decodeOnce b = .ok none := by
  unfold decodeOnce
  rw [if_pos h]

private theorem head_bodyLength (b : Bytes) :
    (MessageHead.ofBytes (b.take headLength)).bodyLength.toInt = storedLength b := by
  have htake : (b.take headLength).take 4 = b.take 4 := by rw [List.take_take]; rfl
  simp only [MessageHead.ofBytes, storedLength, htake]

theorem decodeOnce_overflow {b : FlatBuffer} (h : headLength ≤ b.length)
    (hn : int32Max - headLength < storedLength b.buffer) : decodeOnce b = .error .signedOverflow := by
  have hsum : ¬(-2 ^ 31 ≤ (headLength : Int) + storedLength b.buffer ∧ headLength + storedLength b.buffer < 2 ^ 31) := by
    simp only [int32Max, headLength] at hn ⊢
    omega
  unfold decodeOnce addInt
  rw [if_neg (Nat.not_lt.mpr h)]
  simp only [head_bodyLength, if_neg hsum]

private theorem addInt_storedLength {b : Bytes} (hn : storedLength b ≤ int32Max - headLength) :
    addInt headLength (storedLength b) = .ok (headLength + storedLength b) := by
  have := storedLength_bounds b
  unfold addInt
  rw [if_pos]
  simp only [int32Max, headLength] at hn ⊢
  omega

/-- A length below `-HEAD_LENGTH` becomes a size that no buffer has, and the loop breaks. -/
theorem decodeOnce_negative {b : FlatBuffer} (h : headLength ≤ b.length) (hmax : b.length ≤ vectorMaxSize)
    (hn : storedLength b.buffer < -headLength) : decodeOnce b = .ok none := by
  have hadd : addInt headLength (storedLength b.buffer) = .ok (headLength + storedLength b.buffer) :=
    addInt_storedLength (by simp only [int32Max, headLength] at hn ⊢; omega)
  have hbig : vectorMaxSize < toSizeT (headLength + storedLength b.buffer) := by
    have := storedLength_bounds b.buffer
    apply vectorMaxSize_lt_toSizeT <;> simp only [headLength] at hn ⊢ <;> omega
  unfold decodeOnce
  rw [if_neg (Nat.not_lt.mpr h)]
  simp only [head_bodyLength, hadd]
  exact if_pos (Nat.lt_of_le_of_lt hmax hbig)

/-- From `-HEAD_LENGTH` on the length of the frame is exact: the loop breaks while the frame is
    incomplete, and otherwise takes it off the buffer. -/
theorem decodeOnce_frame {b : FlatBuffer} {k : Nat} (h : headLength ≤ b.length)
    (hn : storedLength b.buffer ≤ int32Max - headLength) (hk : (k : Int) = headLength + storedLength b.buffer) :
    decodeOnce b = .ok (if b.length < k then none else some (⟨⟨b.buffer.take k⟩⟩, ⟨b.buffer.drop k⟩)) := by
  have hsize : toSizeT (headLength + storedLength b.buffer) = k := by
    rw [← hk, toSizeT_of_nonneg (by omega), Int.toNat_natCast]
    simp only [int32Max, headLength] at hn hk
    omega
  unfold decodeOnce
  rw [if_neg (Nat.not_lt.mpr h)]
  simp only [head_bodyLength, addInt_storedLength hn, hsize]
  by_cases hlt : b.length < k
  · rw [if_pos hlt, if_pos hlt]
  · have hcons : b.consume k = (true, ⟨b.buffer.drop k⟩) := FlatBuffer.consume_of_le (Nat.not_lt.mp hlt)
    rw [if_neg hlt, if_neg hlt, hcons, FlatBuffer.append_some]
    rfl

end Zylib.ZySoft
