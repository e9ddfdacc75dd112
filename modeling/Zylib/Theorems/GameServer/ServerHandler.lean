import Zylib.GameServer.ServerHandler
import Zylib.Theorems.KNet.Codec
import Mathlib.Data.List.TakeWhile

/-! The frames of `game_server`. The reader delivers each frame before the first one with a bad length, and of its body
    what stands before the first byte 0; so it delivers the messages that were sent if none of them has such a byte. -/

namespace Zylib.GameServer
open LittleEndian
open KNet.MessageDecoder

theorem cString_append_zero (b : Bytes) : cString (b ++ [0]) = b.takeWhile (· ≠ 0) := by
  unfold cString
  induction b with
  | nil => rfl
  | cons c b ih =>
    rw [List.cons_append, List.takeWhile_cons, List.takeWhile_cons, ih]

theorem takeWhile_ne_zero_iff {b : Bytes} : b.takeWhile (· ≠ 0) = b ↔ 0 ∉ b := by
  rw [List.takeWhile_eq_self_iff]
  exact ⟨fun h hmem => absurd rfl (of_decide_eq_true (h 0 hmem)), fun h c hc => decide_eq_true fun heq => h (heq ▸ hc)⟩

theorem asyncRead_append {bytes : Bytes} {n : Nat} (h : bytes.length = n) (rest : Bytes) :
    asyncRead n (bytes ++ rest) = some (bytes, rest) := by
  subst h
  unfold asyncRead
  rw [if_pos (by simp), List.take_left, List.drop_left]

/-- The signed length in a head. -/
def lengthOf (head : Bytes) : Int := (int32OfBytes (head.take 4)).toInt

/-- A head with its body, as the reader takes them. -/
structure Frame where
  head : Bytes
  body : Bytes
  head_length : head.length = 8
  length_gt : 8 < lengthOf head
  length_le : lengthOf head ≤ 1024
  body_length : body.length = (lengthOf head - 8).toNat

namespace Frame

def bytes (f : Frame) : Bytes := f.head ++ f.body

/-- What is delivered of a frame. -/
def msg (f : Frame) : NetworkMsg := ⟨int32OfBytes ((f.head.drop 4).take 4), f.body.takeWhile (· ≠ 0)⟩

end Frame

namespace ServerHandler

/-- The handler waits for a head. -/
structure Ready (h : ServerHandler) : Prop where
  bodyBuffer : h.bodyBuffer = []
  isClosed : h.isClosed = false

theorem readStream_of_reads {h : ServerHandler} {stream head rest body rest' : Bytes}
    (hhead : asyncRead (4 + 4) stream = some (head, rest)) (hopen : (h.readHead head).isClosed = false)
    (hbody : asyncRead ((h.readHead head).bodyBuffer.length - 1) rest = some (body, rest')) :
    h.readStream stream = ((h.readHead head).readBody body).readStream rest' := by
  rw [readStream]
  split
  · rename_i hnone
    cases hhead.symm.trans hnone
  · rename_i hsome
    cases hhead.symm.trans hsome
    rw [if_neg (by rw [hopen]; exact Bool.false_ne_true)]
    split
    · rename_i hnone
      cases hbody.symm.trans hnone
    · rename_i hsome
      cases hbody.symm.trans hsome
      rfl

theorem readStream_frame {h : ServerHandler} (hr : h.Ready) (f : Frame) :
    ∃ h' : ServerHandler, h'.Ready ∧ h'.received = h.received ++ [f.msg] ∧
      ∀ rest, h.readStream (f.bytes ++ rest) = h'.readStream rest := by
  have hgt := f.length_gt
  have hle := f.length_le
  have hbad : ¬((int32OfBytes (f.head.take 4)).toInt ≤ 8 ∨ 1024 < (int32OfBytes (f.head.take 4)).toInt) := by
    unfold lengthOf at hgt hle
    omega
  have hsize : toSizeT ((int32OfBytes (f.head.take 4)).toInt - 8 + 1) = f.body.length + 1 := by
    rw [f.body_length, ← lengthOf, toSizeT_of_nonneg (by omega) (by omega)]
    omega
  have hbuffer : resize h.bodyBuffer (f.body.length + 1) = [] ++ List.replicate (f.body.length + 1) 0 := by
    rw [hr.bodyBuffer, resize, List.take_nil, List.length_nil, Nat.sub_zero]
  have hhead : h.readHead f.head = { h with
      headBuffer := f.head
      totalLen := int32OfBytes (f.head.take 4)
      msgId := int32OfBytes ((f.head.drop 4).take 4)
      bodyBuffer := [] ++ List.replicate (f.body.length + 1) 0 } := by
    unfold readHead
    simp only
    rw [if_neg hbad, hsize, hbuffer]
  refine ⟨(h.readHead f.head).readBody f.body, ⟨rfl, ?_⟩, ?_, fun rest => ?_⟩
  · rw [hhead]
    exact hr.isClosed
  · rw [hhead]
    unfold readBody
    simp only
    rw [memcpyAt_zeros (a := []) (k := 1) (show 0 = ([] : Bytes).length from rfl) rfl, List.nil_append,
      List.replicate_one, cString_append_zero, Frame.msg]
  · have hopen : (h.readHead f.head).isClosed = false := by
      rw [hhead]
      exact hr.isClosed
    have hlen : (h.readHead f.head).bodyBuffer.length - 1 = f.body.length := by
      rw [hhead]
      simp
    rw [Frame.bytes, List.append_assoc]
    exact readStream_of_reads (asyncRead_append f.head_length _) hopen (hlen ▸ asyncRead_append rfl rest)

theorem readStream_frames {h : ServerHandler} (hr : h.Ready) (fs : List Frame) :
    ∃ h' : ServerHandler, h'.Ready ∧ h'.received = h.received ++ fs.map Frame.msg ∧
      ∀ rest, h.readStream (fs.flatMap Frame.bytes ++ rest) = h'.readStream rest := by
  induction fs generalizing h with
  | nil => exact ⟨h, hr, (List.append_nil _).symm, fun _ => rfl⟩
  | cons f fs ih =>
    obtain ⟨h₁, hr₁, hreceived₁, hread₁⟩ := readStream_frame hr f
    obtain ⟨h₂, hr₂, hreceived₂, hread₂⟩ := ih hr₁
    refine ⟨h₂, hr₂, ?_, fun rest => ?_⟩
    · rw [hreceived₂, hreceived₁, List.map_cons, List.append_assoc, List.singleton_append]
    · rw [List.flatMap_cons, List.append_assoc, hread₁, hread₂]

theorem readStream_nil (h : ServerHandler) : h.readStream [] = h.onClosed := by
  rw [readStream, asyncRead, if_neg (by decide)]

/-- A bad length closes the connection, and the rest of the stream is not read. -/
theorem readStream_bad (h : ServerHandler) {head : Bytes} (hhead : head.length = 8)
    (hbad : lengthOf head ≤ 8 ∨ 1024 < lengthOf head) (rest : Bytes) :
    (h.readStream (head ++ rest)).isClosed = true ∧ (h.readStream (head ++ rest)).received = h.received := by
  have hread : h.readHead head = { h with
      headBuffer := head
      totalLen := int32OfBytes (head.take 4)
      msgId := int32OfBytes ((head.drop 4).take 4)
      isClosed := true } := by
    unfold readHead
    exact if_pos hbad
  have hstream : h.readStream (head ++ rest) = h.readHead head := by
    rw [readStream, asyncRead_append hhead]
    exact if_pos (congrArg isClosed hread)
  rw [hstream, hread]
  exact ⟨rfl, rfl⟩

end ServerHandler

/-! ### What was sent -/

/-- The length of a message that a reader takes. -/
def NetworkMsg.Fits (m : NetworkMsg) : Prop := 1 ≤ m.data.length ∧ m.data.length ≤ 1016

theorem toInt_total_len {n : Nat} (h : n ≤ 1016) : (Int32.ofNat (4 + 4 + n)).toInt = 8 + n := by
  rw [Int32.toInt_ofNat_of_lt (by omega)]
  omega

theorem lengthOf_head {m : NetworkMsg} (h : m.Fits) :
    lengthOf (int32Bytes (Int32.ofNat (4 + 4 + m.data.length)) ++ int32Bytes m.msgId) = 8 + m.data.length := by
  have hlen := length_int32Bytes (Int32.ofNat (4 + 4 + m.data.length))
  rw [lengthOf, List.take_left' hlen, int32OfBytes_int32Bytes, toInt_total_len h.2]

theorem sendMessage_eq {m : NetworkMsg} (h : m.Fits) :
    sendMessage m = .ok (some (int32Bytes (Int32.ofNat (4 + 4 + m.data.length)) ++ int32Bytes m.msgId ++ m.data)) := by
  obtain ⟨h1, h2⟩ := h
  have hempty : ¬m.data.isEmpty = true := by
    rw [List.isEmpty_iff_length_eq_zero]
    omega
  have hsize : toSizeT (Int32.ofNat (4 + 4 + m.data.length)).toInt = 8 + m.data.length := by
    rw [toInt_total_len h2, toSizeT_of_nonneg (by omega) (by omega)]
    omega
  unfold sendMessage
  rw [if_neg hempty]
  simp only [hsize]
  rw [if_neg (by unfold vectorMaxSize; omega), if_neg (by omega), ← List.nil_append (List.replicate _ _),
    memcpyAt_zeros (a := []) (k := 4 + m.data.length) (show 0 = ([] : Bytes).length from rfl)
      (by rw [length_int32Bytes]; omega),
    List.nil_append, memcpyAt_zeros (k := m.data.length) (by simp) (by simp),
    memcpyAt_zeros (k := 0) (by simp) (Nat.add_zero _).symm,
    List.replicate_zero, List.append_nil]

/-- The frame of a message. -/
def frameOf (m : NetworkMsg) (h : m.Fits) : Frame where
  head := int32Bytes (Int32.ofNat (4 + 4 + m.data.length)) ++ int32Bytes m.msgId
  body := m.data
  head_length := by simp
  length_gt := by
    have := h.1
    rw [lengthOf_head h]
    omega
  length_le := by
    have := h.2
    rw [lengthOf_head h]
    omega
  body_length := by
    rw [lengthOf_head h]
    omega

theorem msg_frameOf {m : NetworkMsg} (h : m.Fits) : (frameOf m h).msg = { m with data := m.data.takeWhile (· ≠ 0) } := by
  have hlen := length_int32Bytes (Int32.ofNat (4 + 4 + m.data.length))
  have hid : (((frameOf m h).head.drop 4).take 4) = int32Bytes m.msgId := by
    rw [frameOf, List.drop_left' hlen, List.take_of_length_le (length_int32Bytes _).le]
  rw [Frame.msg, hid, int32OfBytes_int32Bytes]
  rfl

theorem sent_eq {ms : List NetworkMsg} (h : ∀ m ∈ ms, m.Fits) : ∃ fs : List Frame, sent ms = fs.flatMap Frame.bytes ∧
    fs.map Frame.msg = ms.map fun m => { m with data := m.data.takeWhile (· ≠ 0) } := by
  induction ms with
  | nil => exact ⟨[], rfl, rfl⟩
  | cons m ms ih =>
    have hm := h m List.mem_cons_self
    obtain ⟨fs, hbytes, hmsgs⟩ := ih fun m' hm' => h m' (List.mem_cons_of_mem _ hm')
    refine ⟨frameOf m hm :: fs, ?_, ?_⟩
    · rw [List.flatMap_cons, ← hbytes, sent, List.flatMap_cons, sendMessage_eq hm]
      rfl
    · rw [List.map_cons, List.map_cons, hmsgs, msg_frameOf]

theorem ServerHandler.ready_init : ({} : ServerHandler).Ready := ⟨rfl, rfl⟩

/-- What is received of the messages that were sent. -/
theorem received_sent {ms : List NetworkMsg} (h : ∀ m ∈ ms, m.Fits) :
    (({} : ServerHandler).readStream (sent ms)).received = ms.map fun m => { m with data := m.data.takeWhile (· ≠ 0) } := by
  obtain ⟨fs, hbytes, hmsgs⟩ := sent_eq h
  obtain ⟨h', -, hreceived, hread⟩ := ServerHandler.readStream_frames ServerHandler.ready_init fs
  have hread := hread []
  rw [List.append_nil, ServerHandler.readStream_nil] at hread
  rw [hbytes, hread, ServerHandler.onClosed, hreceived, hmsgs]
  rfl

/-- The messages arrive as they were sent if and only if none of them has a byte 0; and of every stream, what stands
    before the first bad length is delivered, and nothing else. -/
theorem handled_iff {ms : List NetworkMsg} (h : ∀ m ∈ ms, m.Fits) :
    ((({} : ServerHandler).readStream (sent ms)).received = ms ↔ ∀ m ∈ ms, 0 ∉ m.data) ∧
      ∀ (fs : List Frame) (head rest : Bytes), head.length = 8 → lengthOf head ≤ 8 ∨ 1024 < lengthOf head →
        (({} : ServerHandler).readStream (fs.flatMap Frame.bytes ++ (head ++ rest))).isClosed = true ∧
          (({} : ServerHandler).readStream (fs.flatMap Frame.bytes ++ (head ++ rest))).received = fs.map Frame.msg := by
  constructor
  · have hid : ms = ms.map id := (List.map_id ms).symm
    rw [received_sent h]
    nth_rewrite 2 [hid]
    rw [List.map_inj_left]
    refine forall₂_congr fun m _ => ?_
    rw [← takeWhile_ne_zero_iff]
    exact ⟨fun heq => congrArg NetworkMsg.data heq, fun heq => by rw [heq, id]⟩
  · intro fs head rest hhead hbad
    obtain ⟨h', -, hreceived, hread⟩ := ServerHandler.readStream_frames ServerHandler.ready_init fs
    obtain ⟨hclosed, hsame⟩ := h'.readStream_bad hhead hbad rest
    rw [hread]
    exact ⟨hclosed, hsame.trans hreceived⟩

theorem handled_iff_two :
    ((({} : ServerHandler).readStream (sent [⟨1, [65, 66]⟩, ⟨-2, [67]⟩])).received = [⟨1, [65, 66]⟩, ⟨-2, [67]⟩] ↔
      ∀ m ∈ [(⟨1, [65, 66]⟩ : NetworkMsg), ⟨-2, [67]⟩], 0 ∉ m.data) :=
  (handled_iff (by unfold NetworkMsg.Fits; decide)).1

/-- A message with a byte 0 in it arrives cut off. -/
theorem received_cut : ¬∀ ms : List NetworkMsg, (∀ m ∈ ms, m.Fits) →
    (({} : ServerHandler).readStream (sent ms)).received = ms := by
  intro h
  have hfits : ∀ m ∈ [(⟨1, [65, 0, 66]⟩ : NetworkMsg)], m.Fits := by
    unfold NetworkMsg.Fits
    decide
  have hcut := h _ hfits
  rw [received_sent hfits] at hcut
  exact absurd hcut (by decide)

end Zylib.GameServer
