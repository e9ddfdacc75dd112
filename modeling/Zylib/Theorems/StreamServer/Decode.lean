import Zylib.StreamServer.CallbackUtility
import Zylib.Theorems.ByteBuffer
import Zylib.Lib.Framing

/-! One turn of `callbackMessageDecoder` on a buffer that begins with an encoded message, or with a part
    of one. -/

namespace Zylib.StreamServer
open LittleEndian Drain Framing ByteBuffer

def frame (m : CallbackMessage) : Bytes := (callbackMessageEncoder m.msgId m.data).data

/-- The frame of the message has a length that is an `int32_t`. -/
def Fits (m : CallbackMessage) : Prop := m.data.length + 8 < 2 ^ 31

variable {m n : CallbackMessage} {b : ByteBuffer} {q r : Bytes}

theorem frame_eq (m : CallbackMessage) :
    frame m = int32Bytes (Int32.ofNat (8 + m.data.length)) ++ (int32Bytes m.msgId ++ m.data) := by
  simp [frame, callbackMessageEncoder]

@[simp] theorem length_frame (m : CallbackMessage) : (frame m).length = m.data.length + 8 := by
  rw [frame_eq]
  simp only [List.length_append, length_int32Bytes]
  omega

theorem Fits.length_frame (h : Fits m) : (frame m).length < 2 ^ 31 := by
  rw [StreamServer.length_frame]
  exact h

/-- The length that the first four bytes of a buffer tell. -/
def storedLength (q : Bytes) : Int32 := int32OfBytes (q.take 4)

theorem storedLength_frame (m : CallbackMessage) (t : Bytes) :
    storedLength (frame m ++ t) = Int32.ofNat (8 + m.data.length) := by
  rw [storedLength, frame_eq, List.append_assoc, List.take_left' (length_int32Bytes _), int32OfBytes_int32Bytes]

theorem toInt_storedLength_frame (h : Fits m) (t : Bytes) :
    (storedLength (frame m ++ t)).toInt = 8 + m.data.length := by
  rw [storedLength_frame, Int32.toInt_ofNat_of_lt (by have : m.data.length + 8 < 2 ^ 31 := h; omega)]
  rfl

theorem storedLength_append (h : 4 ≤ q.length) (t : Bytes) : storedLength (q ++ t) = storedLength q := by
  rw [storedLength, List.take_append_of_le_length h]
  rfl

/-- No frame begins another one: the heads tell the lengths. -/
theorem prefixCode_frame : PrefixCode frame Fits where
  ne_nil := by
    intro m _ hnil
    have := congrArg List.length hnil
    rw [length_frame, List.length_nil] at this
    omega
  eq_of_prefix := by
    rintro ⟨id, data⟩ ⟨id', data'⟩ hm hn ⟨t, ht⟩
    have hlen : data.length = data'.length := by
      have h := toInt_storedLength_frame hm t
      have h' := toInt_storedLength_frame hn []
      rw [List.append_nil] at h'
      rw [ht, h'] at h
      simp only at h
      omega
    have htnil : t = [] := by
      have := congrArg List.length ht
      simp only [List.length_append, length_frame] at this
      exact List.length_eq_zero_iff.mp (by omega)
    rw [htnil, List.append_nil, frame_eq, frame_eq, hlen] at ht
    obtain ⟨hid, hdata⟩ := List.append_inj (List.append_cancel_left ht) (by simp)
    have hid' : id = id' := by simpa using congrArg int32OfBytes hid
    have hdata' : data = data' := hdata
    rw [hid', hdata']

/-! ### One turn -/

/-- Eight bytes or more, and fewer than 2^31, count as such; 2^31 or more may count as anything. -/
theorem ofNat_lt_eight {n : Nat} (hn : n < 2 ^ 31) : Int32.ofNat n < 8 ↔ n < 8 := by
  rw [Int32.lt_iff_toInt_lt, Int32.toInt_ofNat_of_lt hn]
  exact Int.ofNat_lt

theorem eight_le_storedLength (hm : Fits m) (q : Bytes) : (8 : Int32) ≤ storedLength (frame m ++ q) := by
  rw [Int32.le_iff_toInt_le, toInt_storedLength_frame hm]
  exact Int.le_add_of_nonneg_right (Int.natCast_nonneg _)

theorem storedLength_le_iff (hm : Fits m) (q : Bytes) {size : Int32} :
    storedLength (frame m ++ q) ≤ size ↔ (8 + m.data.length : Int) ≤ size.toInt := by
  rw [Int32.le_iff_toInt_le, toInt_storedLength_frame hm]

theorem storedLength_sub_pos_iff (hm : Fits m) (q : Bytes) : storedLength (frame m ++ q) - 8 > 0 ↔ m.data ≠ [] := by
  rw [gt_iff_lt, Int32.lt_iff_toInt_lt, Int32.toInt_sub_of_le _ _ (by decide) (eight_le_storedLength hm q),
    toInt_storedLength_frame hm, ← List.length_pos_iff]
  show (0 : Int) < 8 + m.data.length - 8 ↔ _
  omega

theorem eight_le_length_frame_append (m : CallbackMessage) (q : Bytes) : 8 ≤ (frame m ++ q).length := by
  rw [List.length_append, length_frame]
  omega

theorem holds_skip_length (h : Holds b (frame m ++ q)) :
    Holds { b with rpos := b.rpos + 4 } (int32Bytes m.msgId ++ (m.data ++ q)) := by
  have := h.skip (n := 4) (by have := eight_le_length_frame_append m q; omega)
  rwa [frame_eq, List.append_assoc, List.append_assoc, List.drop_left' (length_int32Bytes _)] at this

theorem holds_skip_head (h : Holds b (frame m ++ q)) : Holds { b with rpos := b.rpos + 4 + 4 } (m.data ++ q) := by
  have := (holds_skip_length h).skip (n := 4) (by simp)
  rwa [List.drop_left' (length_int32Bytes _)] at this

/-- What a turn does with a frame at the front of the buffer: if the frame counts as complete and has
    data, the data is everything after the head. -/
theorem decodeOnce_frame (hm : Fits m) (h : Holds b (frame m ++ q)) :
    decodeOnce b =
      if (8 + m.data.length : Int) ≤ (Int32.ofNat (frame m ++ q).length).toInt then
        if m.data = [] then .ok (some (m, { b with rpos := b.rpos + 8 }))
        else .ok (some ({ m with data := m.data ++ q }, { b with rpos := b.wpos }))
      else .ok none := by
  have hlong := eight_le_length_frame_append m q
  have hhead : readBytes 4 b = .ok ((frame m ++ q).take 4) b := h.readBytes (by omega)
  have hnot : ¬int32OfBytes ((frame m ++ q).take 4) < 8 := Int32.not_lt.mpr (eight_le_storedLength hm q)
  by_cases hcomplete : (8 + m.data.length : Int) ≤ (Int32.ofNat (frame m ++ q).length).toInt
  · have hle : int32OfBytes ((frame m ++ q).take 4) ≤ Int32.ofNat (frame m ++ q).length :=
      (storedLength_le_iff hm q).mpr hcomplete
    have hsize : ¬Int32.ofNat (frame m ++ q).length < 8 :=
      Int32.not_lt.mpr (Int32.le_trans (eight_le_storedLength hm q) hle)
    have hfour : 4 ≤ (int32Bytes m.msgId ++ (m.data ++ q)).length := by simp
    have hid := (holds_skip_length h).readBytes hfour
    rw [List.take_left' (length_int32Bytes _)] at hid
    rw [if_pos hcomplete]
    by_cases hdata : m.data = []
    · have hend : ¬int32OfBytes ((frame m ++ q).take 4) - 8 > 0 := fun h => (storedLength_sub_pos_iff hm q).mp h hdata
      have hm' : { msgId := m.msgId } = m := by rw [← hdata]
      rw [if_pos hdata]
      simp only [decodeOnce, decodeTurn, bind_run, ite_run, h.byteSize, hsize, if_false, hhead, hnot,
        hle, if_true, h.readSkip (n := 4) (by omega), hid, (holds_skip_length h).readSkip hfour, hend, pure_run,
        int32OfBytes_int32Bytes, hm', Nat.add_assoc, Nat.reduceAdd]
    · have hmore : int32OfBytes ((frame m ++ q).take 4) - 8 > 0 := (storedLength_sub_pos_iff hm q).mpr hdata
      rw [if_neg hdata]
      simp only [decodeOnce, decodeTurn, bind_run, ite_run, h.byteSize, hsize, if_false, hhead, hnot,
        hle, if_true, h.readSkip (n := 4) (by omega), hid, (holds_skip_length h).readSkip hfour, hmore,
        (holds_skip_head h).takeVector, pure_run, int32OfBytes_int32Bytes]
  · rw [if_neg hcomplete]
    have hle : ¬int32OfBytes ((frame m ++ q).take 4) ≤ Int32.ofNat (frame m ++ q).length :=
      fun hle => hcomplete ((storedLength_le_iff hm q).mp hle)
    by_cases hsize : Int32.ofNat (frame m ++ q).length < 8
    · simp only [decodeOnce, decodeTurn, bind_run, ite_run, h.byteSize, hsize, if_true, pure_run]
    · simp only [decodeOnce, decodeTurn, bind_run, ite_run, h.byteSize, hsize, if_false, hhead, hnot,
        hle, pure_run]

theorem decodeOnce_nil (hm : Fits m) (hdata : m.data = []) (hlen : (frame m ++ q).length < 2 ^ 31)
    (h : Holds b (frame m ++ q)) : ∃ b', decodeOnce b = .ok (some (m, b')) ∧ Holds b' q := by
  have h8 : (frame m).length = 8 := by rw [length_frame, hdata, List.length_nil]
  have hcomplete : (8 + m.data.length : Int) ≤ (Int32.ofNat (frame m ++ q).length).toInt := by
    rw [Int32.toInt_ofNat_of_lt hlen, hdata, List.length_append, h8, List.length_nil]
    omega
  refine ⟨{ b with rpos := b.rpos + 8 }, ?_, ?_⟩
  · rw [decodeOnce_frame hm h, if_pos hcomplete, if_pos hdata]
  · have := h.skip (n := 8) (by rw [List.length_append]; omega)
    rwa [← h8, List.drop_left, h8] at this

/-- A frame with data takes the whole buffer with it. -/
theorem decodeOnce_data (hm : Fits m) (hdata : m.data ≠ []) (hlen : (frame m ++ q).length < 2 ^ 31)
    (h : Holds b (frame m ++ q)) :
    ∃ b', decodeOnce b = .ok (some ({ m with data := m.data ++ q }, b')) ∧ Holds b' [] := by
  have hcomplete : (8 + m.data.length : Int) ≤ (Int32.ofNat (frame m ++ q).length).toInt := by
    rw [Int32.toInt_ofNat_of_lt hlen, List.length_append, length_frame]
    omega
  exact ⟨{ b with rpos := b.wpos }, by rw [decodeOnce_frame hm h, if_pos hcomplete, if_neg hdata], h.toEnd⟩

/-- If a turn gives the message whose frame is at the front, it has taken exactly this frame; one with
    data had nothing behind it. -/
theorem decodeOnce_small (hm : Fits m) (hlen : (frame m ++ q).length < 2 ^ 31) (h : Holds b (frame m ++ q))
    {b' : ByteBuffer} (hturn : decodeOnce b = .ok (some (m, b'))) : Holds b' q ∧ (m.data ≠ [] → q = []) := by
  by_cases hdata : m.data = []
  · obtain ⟨b₁, hturn', h₁⟩ := decodeOnce_nil hm hdata hlen h
    rw [hturn] at hturn'
    cases hturn'
    exact ⟨h₁, fun hne => absurd hdata hne⟩
  · obtain ⟨b₁, hturn', h₁⟩ := decodeOnce_data hm hdata hlen h
    rw [hturn] at hturn'
    injection hturn' with hturn'
    injection hturn' with hturn'
    injection hturn' with heq hb
    have hnil : q = [] := by simpa using congrArg CallbackMessage.data heq
    rw [hnil, hb]
    exact ⟨h₁, fun _ => rfl⟩

theorem decodeOnce_ne_none (hm : Fits m) (hlen : (frame m ++ q).length < 2 ^ 31) (h : Holds b (frame m ++ q)) :
    decodeOnce b ≠ .ok none := by
  by_cases hdata : m.data = []
  · obtain ⟨b₁, hturn, -⟩ := decodeOnce_nil hm hdata hlen h
    simp [hturn]
  · obtain ⟨b₁, hturn, -⟩ := decodeOnce_data hm hdata hlen h
    simp [hturn]

theorem decodeOnce_unfinished (h : Holds b r) (hr : Unfinished frame Fits r) : decodeOnce b = .ok none := by
  have hbreak : ∀ len : Nat, r.length < len → len < 2 ^ 31 → (8 ≤ r.length → (storedLength r).toInt = len) →
      decodeOnce b = .ok none := by
    intro len hlt hmax hstored
    have hsize : Int32.ofNat r.length < 8 ↔ r.length < 8 := ofNat_lt_eight (by omega)
    by_cases hshort : r.length < 8
    · simp only [decodeOnce, decodeTurn, bind_run, ite_run, h.byteSize, hsize.mpr hshort, if_true, pure_run]
    · have hlen := hstored (Nat.not_lt.mp hshort)
      have hhead : readBytes 4 b = .ok (r.take 4) b := h.readBytes (by omega)
      have hnot : ¬int32OfBytes (r.take 4) < 8 := by
        rw [← storedLength, Int32.lt_iff_toInt_lt, hlen, show (8 : Int32).toInt = 8 from rfl]
        omega
      have hle : ¬int32OfBytes (r.take 4) ≤ Int32.ofNat r.length := by
        rw [← storedLength, Int32.le_iff_toInt_le, hlen, Int32.toInt_ofNat_of_lt (by omega)]
        omega
      simp only [decodeOnce, decodeTurn, bind_run, ite_run, h.byteSize, mt hsize.mp hshort, if_false, hhead, hnot, hle,
        pure_run]
  rcases hr with rfl | ⟨m, t, hm, ht, e⟩
  · exact hbreak 8 (by decide) (by decide) fun h8 => absurd h8 (by decide)
  · have hlen := congrArg List.length e
    have hpos : 0 < t.length := List.length_pos_iff.mpr ht
    rw [length_frame, List.length_append] at hlen
    refine hbreak (8 + m.data.length) (by omega) (by have : m.data.length + 8 < 2 ^ 31 := hm; omega) fun h8 => ?_
    rw [← storedLength_append (t := t) (Nat.le_trans (by decide) h8), ← e]
    simpa using toInt_storedLength_frame hm []

/-- A buffer of 2^31 bytes or more keeps as many when a turn takes a message from its front, or the
    message is not the one whose frame is there. -/
theorem decodeOnce_large (hm : Fits m) (hlarge : 2 ^ 31 ≤ (frame m ++ q).length) (h : Holds b (frame m ++ q))
    {b' : ByteBuffer} (hturn : decodeOnce b = .ok (some (m, b'))) : Holds b' q ∧ 2 ^ 31 ≤ q.length := by
  rw [decodeOnce_frame hm h] at hturn
  have hfits : m.data.length + 8 < 2 ^ 31 := hm
  split at hturn
  · rename_i hcomplete
    split at hturn
    · rename_i hdata
      injection hturn with hturn
      injection hturn with hturn
      injection hturn with _ hb
      have h8 : (frame m).length = 8 := by rw [length_frame, hdata, List.length_nil]
      rw [Int32.toInt_ofNat', hdata] at hcomplete
      constructor
      · have := h.skip (n := 8) (by rw [List.length_append]; omega)
        rwa [← h8, List.drop_left, h8, hb] at this
      · rw [List.length_append, h8] at hlarge hcomplete
        have : ((8 + q.length : Nat) : Int).bmod Int32.size ≥ 8 := by simpa using hcomplete
        rw [Int.bmod_def] at this
        simp only [Int32.size] at this
        split at this
        · omega
        · omega
    · -- The data read is too long to be the data of the message.
      injection hturn with hturn
      injection hturn with hturn
      injection hturn with heq _
      have hq : q.length = 0 := by
        have := congrArg (fun m => m.data.length) heq
        simp only [List.length_append] at this
        omega
      rw [List.length_append, length_frame, hq] at hlarge
      omega
  · injection hturn with hturn
    cases hturn

end Zylib.StreamServer
