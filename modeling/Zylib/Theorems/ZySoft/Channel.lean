import Zylib.ZySoft.MessageDecoder
import Zylib.Lib.Framing

/-! A stream of encoded messages, read by a `Channel` in chunks that are cut anywhere. -/

namespace Zylib.ZySoft
open LittleEndian Drain Framing

/-- The largest length of a body whose frame has a length that fits in an `int`. -/
def maxBodyLength : Nat := int32Max - headLength

def frameOf (p : Bytes) : Message := encode (some p) p.length .empty

def IsFrame (m : Message) : Prop := ∃ p : Bytes, p.length ≤ maxBodyLength ∧ m = frameOf p

theorem bytes_frameOf (p : Bytes) :
    (frameOf p).bytes = { MessageHead.zero with bodyLength := Int32.ofNat p.length }.bytes ++ p := by
  have hhead : ∀ h : MessageHead, h.bytes.take headLength = h.bytes := fun h => by
    rw [← MessageHead.length_bytes h, List.take_length]
  simp only [frameOf, encode, Message.bytes, FlatBuffer.append_some, FlatBuffer.reverse, hhead, List.take_length]
  rfl

theorem length_frameOf (p : Bytes) : (frameOf p).bytes.length = headLength + p.length := by
  rw [bytes_frameOf, List.length_append, MessageHead.length_bytes]

theorem body_frameOf (p : Bytes) : (frameOf p).body = p := by
  have hlen : (frameOf p).buffer.length = headLength + p.length := length_frameOf p
  have hbody : (frameOf p).bodyLength = p.length := by
    unfold Message.bodyLength
    rw [hlen, if_neg (by omega), Nat.add_sub_cancel_left]
  show ((frameOf p).bytes.drop headLength).take (frameOf p).bodyLength = p
  rw [hbody, bytes_frameOf, List.drop_left' (MessageHead.length_bytes _), List.take_length]

theorem storedLength_frameOf {p : Bytes} (hp : p.length ≤ maxBodyLength) (t : Bytes) :
    storedLength ((frameOf p).bytes ++ t) = p.length := by
  have htake : ((frameOf p).bytes ++ t).take 4 = int32Bytes (Int32.ofNat p.length) := by
    rw [bytes_frameOf]
    simp only [MessageHead.bytes, List.append_assoc]
    exact List.take_left' (length_int32Bytes _)
  unfold storedLength
  rw [htake, int32OfBytes_int32Bytes]
  apply Int32.toInt_ofNat_of_lt
  simp only [maxBodyLength, int32Max, headLength] at hp
  omega

/-- No encoded message begins another one: the heads tell the lengths. -/
theorem prefixCode_frames : PrefixCode Message.bytes IsFrame where
  ne_nil := by
    rintro _ ⟨p, -, rfl⟩ hnil
    have := congrArg List.length hnil
    simp only [length_frameOf, headLength, List.length_nil] at this
    omega
  eq_of_prefix := by
    rintro _ _ ⟨p, hp, rfl⟩ ⟨q, hq, rfl⟩ ⟨t, ht⟩
    have hlen : p.length = q.length := by
      have h := storedLength_frameOf hp t
      have h' := storedLength_frameOf hq []
      rw [List.append_nil] at h'
      rw [ht, h'] at h
      exact_mod_cast h.symm
    have htnil : t = [] := by
      have := congrArg List.length ht
      simp only [List.length_append, length_frameOf] at this
      exact List.length_eq_zero_iff.mp (by omega)
    rw [htnil, List.append_nil, bytes_frameOf, bytes_frameOf, hlen] at ht
    rw [List.append_cancel_left ht]

theorem decodeOnce_frameOf {p : Bytes} (hp : p.length ≤ maxBodyLength) (t : Bytes) :
    decodeOnce ⟨(frameOf p).bytes ++ t⟩ = .ok (some (frameOf p, ⟨t⟩)) := by
  have hlen := length_frameOf p
  have hlong : (frameOf p).bytes.length ≤ ((frameOf p).bytes ++ t).length := by
    rw [List.length_append]
    omega
  have hstored := storedLength_frameOf hp t
  have hhead : headLength ≤ FlatBuffer.length ⟨(frameOf p).bytes ++ t⟩ := Nat.le_trans (by omega) hlong
  have hmax : storedLength ((frameOf p).bytes ++ t) ≤ int32Max - headLength := by
    simp only [maxBodyLength, int32Max, headLength] at hp ⊢
    omega
  have hfits : ¬FlatBuffer.length ⟨(frameOf p).bytes ++ t⟩ < (frameOf p).bytes.length := Nat.not_lt.mpr hlong
  rw [decodeOnce_frame hhead hmax (k := (frameOf p).bytes.length) (by rw [hstored, hlen]; rfl), if_neg hfits]
  simp only [List.take_left, List.drop_left]
  rfl

theorem decodeOnce_unfinished {r : Bytes} (h : Unfinished Message.bytes IsFrame r) : decodeOnce ⟨r⟩ = .ok none := by
  rcases h with rfl | ⟨_, t, ⟨p, hp, rfl⟩, ht, e⟩
  · exact decodeOnce_short (by decide)
  · by_cases hshort : r.length < headLength
    · exact decodeOnce_short hshort
    have hstored : storedLength r = p.length := by
      rw [← storedLength_frameOf hp [], List.append_nil, e, storedLength_append]
      exact Nat.le_trans (by decide) (Nat.not_lt.mp hshort)
    have hpos : 0 < t.length := List.length_pos_iff.mpr ht
    have hlen := congrArg List.length e
    rw [length_frameOf, List.length_append] at hlen
    have hmax : storedLength r ≤ int32Max - headLength := by
      simp only [maxBodyLength, int32Max, headLength] at hp ⊢
      omega
    rw [decodeOnce_frame (k := headLength + p.length) (Nat.not_lt.mp hshort) hmax (by rw [hstored]; rfl), if_pos]
    show r.length < headLength + p.length
    omega

theorem drains_of_splits {ms : List Message} {r b : Bytes} (h : Splits Message.bytes IsFrame ms r b) :
    Drains decodeOnce ⟨b⟩ ms ⟨r⟩ := by
  induction ms generalizing b with
  | nil =>
    obtain rfl : b = r := by simpa using h.eq
    exact .done (decodeOnce_unfinished h.rest)
  | cons m ms ih =>
    obtain ⟨b', rfl, ⟨p, hp, rfl⟩, h'⟩ := h.of_cons
    exact .more (decodeOnce_frameOf hp b') (ih h')

theorem length_le_stream {ms : List Message} (h : ∀ m ∈ ms, IsFrame m) : ms.length ≤ (stream Message.bytes ms).length := by
  induction ms with
  | nil => exact Nat.zero_le _
  | cons m ms ih =>
    obtain ⟨p, -, rfl⟩ := h m List.mem_cons_self
    have := ih fun n hn => h n (List.mem_cons_of_mem _ hn)
    simp only [List.length_cons, stream_cons, List.length_append, length_frameOf, headLength]
    omega

/-- However the stream of encoded payloads is cut into chunks, a channel that reads them decodes
    exactly the payloads, in order, and holds no byte at the end. -/
theorem doRead_stream (payloads chunks : List Bytes) (hp : ∀ p ∈ payloads, p.length ≤ maxBodyLength)
    (hc : chunks.flatten = payloads.flatMap fun p => (encode (some p) p.length .empty).bytes) :
    ∃ least, ∀ turns, least ≤ turns → ∃ msgs,
      feed (Channel.doRead turns) ⟨[]⟩ chunks = .ok (msgs, ⟨[]⟩) ∧ msgs.map Message.body = payloads := by
  -- Each loop has a turn for every byte still to come, and so for every message.
  refine ⟨chunks.flatten.length + 1, fun turns hturns => ⟨payloads.map frameOf, ?_, ?_⟩⟩
  · have hframes : ∀ m ∈ payloads.map frameOf, IsFrame m := by
      intro m hm
      obtain ⟨p, hmem, rfl⟩ := List.mem_map.mp hm
      exact ⟨p, hp p hmem, rfl⟩
    have hstream : chunks.flatten = stream Message.bytes (payloads.map frameOf) := by
      rw [hc, stream, List.flatMap_map]
      rfl
    have hread : ∀ (s : FlatBuffer) (c : Bytes) (cs : List Bytes) (ms : List Message) (r : Bytes),
        (s.buffer ++ (c :: cs).flatten).length < turns → Splits Message.bytes IsFrame ms r (s.buffer ++ c) →
        ∃ t, Channel.doRead turns s c = .ok (ms, t) ∧ t.buffer = r ∧ (t.buffer ++ cs.flatten).length < turns := by
      intro s c cs ms r hlt hs
      have hb := congrArg List.length hs.eq
      have hms := length_le_stream hs.valid
      simp only [List.length_append, List.flatten_cons] at hlt hb ⊢
      refine ⟨⟨r⟩, ?_, rfl, by simp only; omega⟩
      unfold Channel.doRead decode
      rw [FlatBuffer.append_length]
      exact drain_mono ((drains_of_splits hs).drain []) (by omega)
    have hlt : (([] : Bytes) ++ chunks.flatten).length < turns := hturns
    obtain ⟨⟨_⟩, ht, rfl, -⟩ : ∃ t, feed (Channel.doRead turns) ⟨[]⟩ chunks = .ok (payloads.map frameOf, t) ∧
        t.buffer = [] ∧ (t.buffer ++ [].flatten).length < turns :=
      feed_stream prefixCode_frames FlatBuffer.buffer (fun s cs => (s.buffer ++ cs.flatten).length < turns) hread
        hlt hframes (Or.inl rfl) hstream
    exact ht
  · rw [List.map_map]
    exact (List.map_congr_left fun p _ => body_frameOf p).trans (List.map_id _)

theorem doRead_stream_two : ∃ least, ∀ turns, least ≤ turns → ∃ msgs,
    feed (Channel.doRead turns) ⟨[]⟩ [[1, 0, 0], [], [0, 0, 0, 0, 0, 0, 0, 0, 0, 0, 0, 0, 0, 9, 0, 0, 0, 0, 0, 0, 0, 0,
      0, 0, 0, 0, 0, 0, 0, 0]] = .ok (msgs, ⟨[]⟩) ∧ msgs.map Message.body = [[9], []] :=
  doRead_stream [[9], []] _ (by decide) (by decide)

end Zylib.ZySoft
