import Zylib.Theorems.KNet.Codec
import Zylib.VNetwork.ChatMessage

/-! A message that is made is read back from its bytes if its body is no longer than the receiver takes; the receiver turns
    the others away by their header. -/

namespace Zylib.VNetwork
open LittleEndian
open KNet.MessageDecoder (memcpyAt memcpyAt_zeros)

namespace ChatMessage

/-- The four bytes of the length, in a header whose other bytes are zero. -/
def head (n : Int32) : Bytes := int32Bytes n ++ List.replicate 12 0

theorem length_head (n : Int32) : (head n).length = HEADER_LENGTH := by
  simp [head, HEADER_LENGTH]

theorem memcpyAt_front (b src : Bytes) : memcpyAt b 0 src = src ++ b.drop src.length := by
  simp [memcpyAt]

/-- What is copied behind the header is copied into the body. -/
theorem body_write (m : ChatMessage) (pos : Nat) (src : Bytes) :
    (m.write (HEADER_LENGTH + pos) src).body = memcpyAt m.body pos src := by
  have hlen : HEADER_LENGTH ≤ (m.buffer.take (HEADER_LENGTH + pos)).length := by
    rw [List.length_take]
    exact Nat.le_min.mpr ⟨Nat.le_add_right .., m.header⟩
  unfold body write memcpyAt
  dsimp only
  rw [List.append_assoc, List.drop_append_of_le_length hlen, List.drop_take, List.drop_drop, Nat.add_sub_cancel_left,
    Nat.add_assoc, List.append_assoc]

theorem buffer_prepareBody (m : ChatMessage) (len : Nat) :
    (m.prepareBody len).buffer = m.buffer.take HEADER_LENGTH ++ List.replicate len 0 := by
  have hlen : (m.buffer.take HEADER_LENGTH).length = HEADER_LENGTH := List.length_take_of_le m.header
  unfold prepareBody
  dsimp only
  rw [memcpyAt_front, hlen, List.drop_replicate, Nat.add_sub_cancel_left]

theorem body_prepareBody (m : ChatMessage) (len : Nat) : (m.prepareBody len).body = List.replicate len 0 := by
  rw [body, buffer_prepareBody, List.drop_left' (List.length_take_of_le m.header)]

theorem toInt_ofNat {n : Nat} (h : n < 2 ^ 31) : (Int32.ofNat n).toInt = n := Int32.toInt_ofNat_of_lt h

theorem not_ofNat_lt_zero {n : Nat} (h : n < 2 ^ 31) : ¬Int32.ofNat n < 0 := by
  rw [Int32.lt_iff_toInt_lt, toInt_ofNat h]
  exact Int.not_lt.mpr (Int.natCast_nonneg _)

theorem getBodyLength_ofNat {m : ChatMessage} {n : Nat} (hm : m.bodyLength = Int32.ofNat n) (h : n < 2 ^ 31) :
    m.getBodyLength = n := by
  unfold getBodyLength
  rw [hm, toInt_ofNat h, toSizeT_of_nonneg (by omega) (by omega), Int.toNat_natCast]

/-- The buffer of a message is its header and its body. -/
theorem create_eq (data : Bytes) (h : data.length < 2 ^ 31) (out : ChatMessage) :
    ∃ m, create data out = some m ∧ m.bodyLength = Int32.ofNat data.length ∧
      m.buffer = head (Int32.ofNat data.length) ++ data := by
  have hlen : ({ out with bodyLength := Int32.ofNat data.length } : ChatMessage).getBodyLength = data.length :=
    getBodyLength_ofNat rfl h
  unfold create
  dsimp only
  rw [if_neg (not_ofNat_lt_zero h), hlen]
  refine ⟨_, rfl, rfl, ?_⟩
  have hhead : memcpyAt (List.replicate HEADER_LENGTH 0) 0 (int32Bytes (Int32.ofNat data.length)) =
      head (Int32.ofNat data.length) := by
    rw [memcpyAt_front, length_int32Bytes]
    rfl
  have htake : (out.buffer.take HEADER_LENGTH).length = HEADER_LENGTH := List.length_take_of_le out.header
  have hprepared : (({ out with bodyLength := Int32.ofNat data.length } : ChatMessage).prepareBody data.length).getBodyLength =
    data.length := getBodyLength_ofNat rfl h
  unfold encodeHeader write
  dsimp only
  rw [hprepared, buffer_prepareBody, List.take_length, memcpyAt_zeros (k := 0) htake.symm (Nat.add_zero _).symm]
  exact (congrArg (memcpyAt _ 0) hhead).trans (by
    rw [memcpyAt_front, length_head]
    simp [htake])

/-- What a header says of the body decides whether the receiver takes it. -/
theorem decodeHeader_eq {m : ChatMessage} {n : Nat} (h : n < 2 ^ 31) (hm : m.buffer.take HEADER_LENGTH = head (Int32.ofNat n)) :
    m.decodeHeader =
      if n ≤ MAX_BODY_LENGTH then (true, { m with bodyLength := Int32.ofNat n }.prepareBody n) else (false, m) := by
  have hlen : int32OfBytes (m.data.take 4) = Int32.ofNat n := by
    have htake : m.data.take 4 = int32Bytes (Int32.ofNat n) := by
      have h4 : m.buffer.take 4 = (m.buffer.take HEADER_LENGTH).take 4 := by rw [List.take_take]; rfl
      rw [data, h4, hm, head, List.take_left' (length_int32Bytes _)]
    rw [htake, int32OfBytes_int32Bytes]
  have hbody : ({ m with bodyLength := Int32.ofNat n } : ChatMessage).getBodyLength = n := getBodyLength_ofNat rfl h
  unfold decodeHeader
  dsimp only
  rw [hlen, if_neg (not_ofNat_lt_zero h), toInt_ofNat h, hbody]
  by_cases hmax : n ≤ MAX_BODY_LENGTH
  · rw [if_pos hmax, if_neg fun hlt => absurd hlt.2 (by omega)]
  · rw [if_neg hmax, if_pos ⟨by decide, by omega⟩]

/-- The first bytes of a message, copied into the message that a receiver reads into. -/
theorem take_write_head {m r : ChatMessage} {n : Int32} {data : Bytes} (hm : m.buffer = head n ++ data) :
    (r.write 0 (m.data.take HEADER_LENGTH)).buffer.take HEADER_LENGTH = head n := by
  have htake : m.data.take HEADER_LENGTH = head n := by
    rw [ChatMessage.data, hm, List.take_left' (length_head n)]
  unfold write
  dsimp only
  rw [htake, memcpyAt_front, List.take_left' (length_head n)]

/-- A receiver takes the header of a message whose body is not longer than `MAX_BODY_LENGTH`, and has room for just that
    body; a longer one it turns away. -/
theorem receive_create (data : Bytes) (out r : ChatMessage) (h : data.length < 2 ^ 31) :
    ∃ m, create data out = some m ∧
      (data.length ≤ MAX_BODY_LENGTH → ∃ r', (r.write 0 (m.data.take HEADER_LENGTH)).decodeHeader = (true, r') ∧
        r'.getBodyLength = data.length ∧ HEADER_LENGTH + data.length ≤ r'.buffer.length ∧
        m.length = HEADER_LENGTH + data.length ∧
        ((r'.write HEADER_LENGTH ((m.data.drop HEADER_LENGTH).take data.length)).body.take data.length) = data) ∧
      (MAX_BODY_LENGTH < data.length →
        (r.write 0 (m.data.take HEADER_LENGTH)).decodeHeader = (false, r.write 0 (m.data.take HEADER_LENGTH))) := by
  obtain ⟨m, hm, hlen, hbuf⟩ := create_eq data h out
  have hdecode := decodeHeader_eq h (take_write_head (r := r) hbuf)
  refine ⟨m, hm, fun hle => ?_, fun hlt => ?_⟩
  · rw [if_pos hle] at hdecode
    have hroom : ∀ r : ChatMessage, HEADER_LENGTH + data.length = (r.prepareBody data.length).buffer.length := by
      intro r
      rw [buffer_prepareBody, List.length_append, List.length_take_of_le r.header, List.length_replicate]
    have hsrc : (m.data.drop HEADER_LENGTH).take data.length = data := by
      rw [ChatMessage.data, hbuf, List.drop_left' (length_head _), List.take_length]
    refine ⟨_, hdecode, getBodyLength_ofNat rfl h, Nat.le_of_eq (hroom _), ?_, ?_⟩
    · have hint : toSizeT (HEADER_LENGTH + m.bodyLength.toInt) = HEADER_LENGTH + data.length := by
        rw [hlen, toInt_ofNat h, toSizeT_of_nonneg (by omega) (by unfold HEADER_LENGTH; omega)]
        omega
      exact hint
    · have hbody := body_write (({ r.write 0 (m.data.take HEADER_LENGTH) with
        bodyLength := Int32.ofNat data.length } : ChatMessage).prepareBody data.length) 0 data
      rw [body_prepareBody, memcpyAt_front, List.drop_replicate, Nat.sub_self, List.replicate_zero, List.append_nil] at hbody
      rw [hsrc]
      exact (congrArg (List.take data.length) hbody).trans List.take_length
  · rwa [if_neg (Nat.not_le.mpr hlt)] at hdecode

theorem receive_create_one : ∃ m, create [7] new = some m ∧
    ([(7 : UInt8)].length ≤ MAX_BODY_LENGTH → ∃ r', (new.write 0 (m.data.take HEADER_LENGTH)).decodeHeader = (true, r') ∧
      r'.getBodyLength = [(7 : UInt8)].length ∧ HEADER_LENGTH + [(7 : UInt8)].length ≤ r'.buffer.length ∧
      m.length = HEADER_LENGTH + [(7 : UInt8)].length ∧
      (r'.write HEADER_LENGTH ((m.data.drop HEADER_LENGTH).take [(7 : UInt8)].length)).body.take [(7 : UInt8)].length = [7]) ∧
    (MAX_BODY_LENGTH < [(7 : UInt8)].length →
      (new.write 0 (m.data.take HEADER_LENGTH)).decodeHeader = (false, new.write 0 (m.data.take HEADER_LENGTH))) :=
  receive_create [7] new new (by decide)

/-- A body of 513 bytes is sent, and not received. -/
theorem not_receive_create : ¬ ∀ (data : Bytes) (out r : ChatMessage), data.length < 2 ^ 31 →
    ∃ m r', create data out = some m ∧ (r.write 0 (m.data.take HEADER_LENGTH)).decodeHeader = (true, r') := by
  intro h
  have hlen : (List.replicate 513 (0 : UInt8)).length = 513 := List.length_replicate
  obtain ⟨m, r', hm, hdecode⟩ := h (List.replicate 513 0) new new (by rw [hlen]; decide)
  obtain ⟨m', hm', -, hbuf⟩ := create_eq (List.replicate 513 0) (by rw [hlen]; decide) new
  cases hm.symm.trans hm'
  have hreject := decodeHeader_eq (by rw [hlen]; decide) (take_write_head (r := new) hbuf)
  rw [if_neg (by rw [hlen]; decide)] at hreject
  cases hdecode.symm.trans hreject

end ChatMessage

end Zylib.VNetwork
