import Zylib.KNet.Message
import Mathlib.Data.List.Basic

/-! The codec of `knet` messages. `Decode` gives back what `Encode` was given, accepts no buffer that
    `Encode` does not make of the fields it returns, and reads inside the buffer. -/

namespace Zylib.KNet
open LittleEndian

namespace MessageDecoder

/-! ### Encode -/

theorem memcpyAt_zeros {a src : Bytes} {pos n k : Nat} (hpos : pos = a.length) (hn : n = src.length + k) :
    memcpyAt (a ++ List.replicate n 0) pos src = a ++ src ++ List.replicate k 0 := by
  subst hpos hn
  unfold memcpyAt
  rw [List.take_left, List.drop_append]
  simp [List.drop_eq_nil_of_le]

theorem zeros_cons (a : Bytes) (n : Nat) : a ++ List.replicate (1 + n) 0 = (a ++ [0]) ++ List.replicate n 0 := by
  rw [Nat.add_comm, List.replicate_succ, List.append_assoc, List.singleton_append]

/-- The buffer that `Encode` makes for a new message: of the zeros it begins with, one is left after
    each id. -/
theorem buffer_encode {m : SendMsg} (hf : m.fromSid ≠ []) (ht : m.toSid ≠ []) (hb : m.buffer = []) :
    (encode m).buffer = m.fromSid ++ 0 :: (m.toSid ++ 0 :: (int32Bytes m.msgId ++ m.payload)) := by
  have hids : ¬(m.fromSid.isEmpty || m.toSid.isEmpty) = true := by simp [hf, ht]
  have hid := length_int32Bytes m.msgId
  obtain ⟨n, hn⟩ : ∃ n, n = m.toSid.length + (1 + (4 + m.payload.length)) := ⟨_, rfl⟩
  have h₀ : resize m.buffer (m.fromSid.length + 1 + m.toSid.length + 1 + 4 + m.payload.length) =
      [] ++ List.replicate (m.fromSid.length + (1 + n)) 0 := by
    rw [hb, resize, List.take_nil, List.length_nil, Nat.sub_zero]
    congr 2
    omega
  unfold encode
  rw [if_neg hids]
  simp only [h₀]
  rw [memcpyAt_zeros (k := 1 + n) (show 0 = ([] : Bytes).length from rfl) rfl, List.nil_append, zeros_cons,
    memcpyAt_zeros (k := 1 + (4 + m.payload.length)) (by simp) hn, zeros_cons,
    memcpyAt_zeros (k := m.payload.length) (by simp; omega) (by rw [hid]),
    memcpyAt_zeros (k := 0) (by simp; omega) (Nat.add_zero m.payload.length).symm]
  simp

/-! ### Decode -/

theorem findNuls_skip {p : Bytes} {i n : Nat} {c : UInt8} {f : Option Nat} (h : load p i = .ok c) (hc : c ≠ 0) :
    findNuls p (n + 1) i f = findNuls p n (i + 1) f := by
  conv_lhs => unfold findNuls
  rw [h]
  exact if_neg hc

theorem findNuls_append {a : Bytes} (ha : 0 ∉ a) (pre post : Bytes) (n : Nat) (f : Option Nat) :
    findNuls (pre ++ (a ++ post)) (a.length + n) pre.length f =
      findNuls (pre ++ (a ++ post)) n (pre.length + a.length) f := by
  induction a generalizing pre with
  | nil => simp
  | cons c a ih =>
    have hc : c ≠ 0 := fun h => ha (h ▸ List.mem_cons_self)
    have hload : load (pre ++ (c :: a ++ post)) pre.length = .ok c := by simp [load]
    have hpre : pre ++ (c :: a ++ post) = (pre ++ [c]) ++ (a ++ post) := by simp
    have htail := ih (fun h => ha (List.mem_cons_of_mem _ h)) (pre ++ [c])
    rw [List.length_append, List.length_singleton] at htail
    rw [List.length_cons, Nat.add_right_comm, findNuls_skip hload hc, hpre, htail, Nat.add_right_comm, Nat.add_assoc]

theorem findNuls_nul (pre post : Bytes) (n : Nat) (f : Option Nat) :
    findNuls (pre ++ 0 :: post) (n + 1) pre.length f =
      match f with
      | none => findNuls (pre ++ 0 :: post) n (pre.length + 1) (some pre.length)
      | some i => .ok (some i, some pre.length) := by
  have hload : load (pre ++ 0 :: post) pre.length = .ok 0 := by simp [load]
  conv_lhs => unfold findNuls
  rw [hload]
  rfl

theorem findNuls_two {a b : Bytes} (c : Bytes) (ha : 0 ∉ a) (hb : 0 ∉ b) :
    findNuls (a ++ 0 :: (b ++ 0 :: c)) (a ++ 0 :: (b ++ 0 :: c)).length 0 none =
      .ok (some a.length, some (a.length + 1 + b.length)) := by
  have hlen : (a ++ 0 :: (b ++ 0 :: c)).length = a.length + (b.length + (c.length + 1) + 1) := by simp
  have h₁ := findNuls_append ha [] (0 :: (b ++ 0 :: c)) (b.length + (c.length + 1) + 1) none
  have h₂ := findNuls_nul a (b ++ 0 :: c) (b.length + (c.length + 1)) none
  have h₃ := findNuls_append hb (a ++ [0]) (0 :: c) (c.length + 1) (some a.length)
  have h₄ := findNuls_nul (a ++ 0 :: b) c c.length (some a.length)
  simp only [List.nil_append, List.length_nil, Nat.zero_add, List.length_append, List.length_cons, List.append_assoc,
    List.cons_append] at h₁ h₂ h₃ h₄
  rw [hlen, h₁, h₂, h₃]
  rw [Nat.add_assoc, Nat.add_comm 1, h₄]

theorem findNuls_one {a b : Bytes} (ha : 0 ∉ a) (hb : 0 ∉ b) :
    findNuls (a ++ 0 :: b) (a ++ 0 :: b).length 0 none = .ok (some a.length, none) := by
  have hlen : (a ++ 0 :: b).length = a.length + (b.length + 0 + 1) := by simp
  have h₁ := findNuls_append ha [] (0 :: b) (b.length + 0 + 1) none
  have h₂ := findNuls_nul a b (b.length + 0) none
  have h₃ := findNuls_append hb (a ++ [0]) [] 0 (some a.length)
  simp only [List.nil_append, List.length_nil, Nat.zero_add, List.length_append, List.length_cons, List.append_assoc,
    List.cons_append, List.append_nil] at h₁ h₂ h₃
  rw [hlen, h₁, h₂, h₃]
  rfl

theorem findNuls_no {a : Bytes} (ha : 0 ∉ a) : findNuls a a.length 0 none = .ok (none, none) := by
  have h := findNuls_append ha [] [] 0 none
  simp only [List.nil_append, List.append_nil, List.length_nil, Nat.add_zero] at h
  rw [h]
  rfl

theorem nul_cases (p : Bytes) : 0 ∉ p ∨ (∃ a b, p = a ++ 0 :: b ∧ 0 ∉ a ∧ 0 ∉ b) ∨
    ∃ a b c, p = a ++ 0 :: (b ++ 0 :: c) ∧ 0 ∉ a ∧ 0 ∉ b := by
  by_cases hp : 0 ∈ p
  · obtain ⟨a, q, rfl, ha⟩ := List.eq_append_cons_of_mem hp
    by_cases hq : 0 ∈ q
    · obtain ⟨b, c, rfl, hb⟩ := List.eq_append_cons_of_mem hq
      exact Or.inr (Or.inr ⟨a, b, c, rfl, ha, hb⟩)
    · exact Or.inr (Or.inl ⟨a, q, rfl, ha, hq⟩)
  · exact Or.inl hp

theorem range_eq {p a b c : Bytes} (h : p = a ++ (b ++ c)) {i j : Nat} (hi : i = a.length) (hj : j = i + b.length) :
    range p i j = .ok b := by
  subst h hi hj
  have hle : a.length + b.length ≤ (a ++ (b ++ c)).length := by simp
  unfold range
  rw [if_pos ⟨Nat.le_add_right _ _, hle⟩, ← List.append_assoc, ← List.length_append, List.take_left, List.drop_left]

theorem decodeFields_two (a b c key : Bytes) :
    decodeFields (a ++ 0 :: (b ++ 0 :: c)) (a ++ 0 :: (b ++ 0 :: c)).length key key.length a.length
        (a.length + 1 + b.length) =
      .ok (if a = [] ∨ b = [] ∨ c.length < 4 then none
        else some ⟨a, b, int32OfBytes (c.take 4), c.drop 4, key⟩) := by
  have hlen : (a ++ 0 :: (b ++ 0 :: c)).length = a.length + 1 + b.length + 1 + c.length := by simp; omega
  have hfrom : range (a ++ 0 :: (b ++ 0 :: c)) 0 a.length = .ok a := range_eq (a := []) rfl rfl (Nat.zero_add _).symm
  have hto : range (a ++ 0 :: (b ++ 0 :: c)) (a.length + 1) (a.length + 1 + b.length) = .ok b :=
    range_eq (a := a ++ [0]) (c := 0 :: c) (by simp) (by simp) rfl
  have hkey : range key 0 key.length = .ok key := range_eq (a := []) (c := []) (by simp) rfl (by simp)
  unfold decodeFields
  rw [hfrom]
  show (if a.isEmpty then _ else _) = _
  by_cases ha : a = []
  · simp [ha, pure, Except.pure]
  rw [if_neg (by simp [ha]), hto]
  show (if b.isEmpty then _ else _) = _
  by_cases hb : b = []
  · simp [hb, pure, Except.pure]
  rw [if_neg (by simp [hb])]
  simp only
  by_cases hc : c.length < 4
  · rw [if_pos (by omega), if_pos (Or.inr (Or.inr hc))]
    rfl
  have hid : range (a ++ 0 :: (b ++ 0 :: c)) (a.length + 1 + b.length + 1) (a.length + 1 + b.length + 1 + 4) =
      .ok (c.take 4) := by
    refine range_eq (a := a ++ 0 :: (b ++ [0])) (c := c.drop 4) ?_ (by simp; omega) ?_
    · simp
    · rw [List.length_take_of_le (by omega)]
  have hpayload : range (a ++ 0 :: (b ++ 0 :: c)) (a.length + 1 + b.length + 1 + 4) (a ++ 0 :: (b ++ 0 :: c)).length =
      .ok (c.drop 4) := by
    refine range_eq (a := a ++ 0 :: (b ++ 0 :: c.take 4)) (c := []) ?_ ?_ ?_
    · simp
    · simp; omega
    · rw [hlen, List.length_drop]; omega
  rw [if_neg (by omega), hid, hkey, hpayload, if_neg (by simp [ha, hb, hc])]
  rfl

theorem decode_two {a b : Bytes} (c key : Bytes) (ha : 0 ∉ a) (hb : 0 ∉ b) :
    decode (a ++ 0 :: (b ++ 0 :: c)) (a ++ 0 :: (b ++ 0 :: c)).length (some key) key.length =
      .ok (if key = [] ∨ a = [] ∨ b = [] ∨ c.length < 4 then none
        else some ⟨a, b, int32OfBytes (c.take 4), c.drop 4, key⟩) := by
  unfold decode
  by_cases hshort : (a ++ 0 :: (b ++ 0 :: c)).length ≤ 4
  · have : c.length < 4 := by
      simp only [List.length_append, List.length_cons] at hshort
      omega
    rw [if_pos hshort, if_pos (Or.inr (Or.inr (Or.inr this)))]
  rw [if_neg hshort]
  by_cases hkey : key = []
  · simp [hkey]
  · have hkey' : key.length ≠ 0 := fun h => hkey (List.length_eq_zero_iff.mp h)
    simp only [if_neg hkey', findNuls_two c ha hb, decodeFields_two, hkey, false_or]

theorem decode_of_findNuls {p : Bytes} {f : Option Nat} (h : findNuls p p.length 0 none = .ok (f, none))
    (key : Option Bytes) (keyLen : Nat) : decode p p.length key keyLen = .ok none := by
  unfold decode
  split
  · rfl
  cases key with
  | none => rfl
  | some key =>
    simp only [h]
    split <;> rfl

theorem decode_encode {m : SendMsg} (hf : m.fromSid ≠ []) (ht : m.toSid ≠ []) (hf0 : 0 ∉ m.fromSid) (ht0 : 0 ∉ m.toSid)
    (hkey : m.key ≠ []) (hb : m.buffer = []) :
    decode (encode m).buffer (encode m).buffer.length (some m.key) m.key.length =
      .ok (some ⟨m.fromSid, m.toSid, m.msgId, m.payload, m.key⟩) := by
  have hid := length_int32Bytes m.msgId
  rw [buffer_encode hf ht hb, decode_two _ _ hf0 ht0, if_neg (by simp [hkey, hf, ht]),
    List.take_left' hid, List.drop_left' hid, int32OfBytes_int32Bytes]

theorem decode_eq_some {p : Bytes} {key : Option Bytes} {keyLen : Nat} {m : ReceivedMsg}
    (hkey : ∀ k, key = some k → keyLen = k.length) (h : decode p p.length key keyLen = .ok (some m)) :
    ∃ a b c, p = a ++ 0 :: (b ++ 0 :: c) ∧ 0 ∉ a ∧ 0 ∉ b ∧ a ≠ [] ∧ b ≠ [] ∧ 4 ≤ c.length ∧
      m = ⟨a, b, int32OfBytes (c.take 4), c.drop 4, m.key⟩ ∧ key = some m.key := by
  cases key with
  | none =>
    unfold decode at h
    split at h <;> cases h
  | some key =>
    obtain rfl := hkey key rfl
    rcases nul_cases p with hno | ⟨a, b, rfl, ha, hb⟩ | ⟨a, b, c, rfl, ha, hb⟩
    · rw [decode_of_findNuls (findNuls_no hno)] at h
      cases h
    · rw [decode_of_findNuls (findNuls_one ha hb)] at h
      cases h
    · rw [decode_two c key ha hb] at h
      split at h
      · cases h
      rename_i hne
      simp only [not_or, Nat.not_lt] at hne
      obtain ⟨-, hane, hbne, hc⟩ := hne
      cases h
      exact ⟨a, b, c, rfl, ha, hb, hane, hbne, hc, rfl, rfl⟩

theorem encode_decode {p : Bytes} {key : Option Bytes} {keyLen : Nat} {m : ReceivedMsg}
    (hkey : ∀ k, key = some k → keyLen = k.length) (h : decode p p.length key keyLen = .ok (some m)) :
    (encode ⟨m.fromSid, m.toSid, m.msgId, m.payload, m.key, []⟩).buffer = p ∧ key = some m.key := by
  obtain ⟨a, b, c, rfl, -, -, hane, hbne, hc, hm, hk⟩ := decode_eq_some hkey h
  refine ⟨?_, hk⟩
  rw [hm, buffer_encode hane hbne rfl, int32Bytes_int32OfBytes (List.length_take_of_le hc), List.take_append_drop]

theorem eq_of_append_nul {a a' x y : Bytes} (ha : 0 ∉ a) (ha' : 0 ∉ a') (h : a ++ 0 :: x = a' ++ 0 :: y) : a = a' := by
  have htake : ∀ {b z : Bytes}, 0 ∉ b → (b ++ 0 :: z).takeWhile (· != 0) = b := by
    intro b z hb
    rw [List.takeWhile_append_of_pos fun c hc => bne_iff_ne.mpr fun h0 : c = 0 => hb (h0 ▸ hc)]
    simp
  rw [← htake ha (z := x), h, htake ha']

/-- What arrives of a message, also if an id has a NUL: the key, and a sender without a NUL, which is the
    one that was sent if that has none. -/
theorem decode_encode_fromSid {m : SendMsg} {r : ReceivedMsg} (hinvalid : m.invalid = false) (hb : m.buffer = [])
    (h : decode (encode m).buffer (encode m).buffer.length (some m.key) m.key.length = .ok (some r)) :
    r.key = m.key ∧ 0 ∉ r.fromSid ∧ (0 ∉ m.fromSid → r.fromSid = m.fromSid) := by
  have hne : m.fromSid ≠ [] ∧ m.toSid ≠ [] := by simpa [SendMsg.invalid] using hinvalid
  obtain ⟨a, b, c, hp, ha, -, -, -, -, hr, hk⟩ := decode_eq_some (fun _ hk => by cases hk; rfl) h
  rw [buffer_encode hne.1 hne.2 hb] at hp
  rw [hr]
  exact ⟨(Option.some.inj hk).symm, ha, fun hf => eq_of_append_nul ha hf hp.symm⟩

/-- `Decode` reads inside the buffer and the key. -/
theorem decode_ok (p : Bytes) (key : Option Bytes) (keyLen : Nat) (hkey : ∀ k, key = some k → keyLen = k.length) :
    ∃ r, decode p p.length key keyLen = .ok r := by
  cases key with
  | none => exact ⟨none, by unfold decode; split <;> rfl⟩
  | some key =>
    obtain rfl := hkey key rfl
    rcases nul_cases p with hno | ⟨a, b, rfl, ha, hb⟩ | ⟨a, b, c, rfl, ha, hb⟩
    · exact ⟨_, decode_of_findNuls (findNuls_no hno) _ _⟩
    · exact ⟨_, decode_of_findNuls (findNuls_one ha hb) _ _⟩
    · exact ⟨_, decode_two c key ha hb⟩

/-- The codec: decoding undoes encoding, encoding undoes decoding, and decoding stays inside its buffer. -/
theorem codec :
    (∀ (fromSid toSid : ServiceId) (msgId : MsgId) (payload : MsgType) (key : Key),
      fromSid ≠ [] → toSid ≠ [] → 0 ∉ fromSid → 0 ∉ toSid → key ≠ [] →
      let buffer := (encode ⟨fromSid, toSid, msgId, payload, key, []⟩).buffer
      decode buffer buffer.length (some key) key.length = .ok (some ⟨fromSid, toSid, msgId, payload, key⟩)) ∧
    (∀ (p key : Bytes) (m : ReceivedMsg), decode p p.length (some key) key.length = .ok (some m) →
      (encode ⟨m.fromSid, m.toSid, m.msgId, m.payload, m.key, []⟩).buffer = p ∧ m.key = key) ∧
    (∀ (p : Bytes) (key : Option Bytes) (keyLen : Nat), (∀ k, key = some k → keyLen = k.length) →
      ∃ r, decode p p.length key keyLen = .ok r) := by
  refine ⟨fun fromSid toSid msgId payload key hf ht hf0 ht0 hkey => ?_, fun p key m h => ?_, decode_ok⟩
  · exact decode_encode (m := ⟨fromSid, toSid, msgId, payload, key, []⟩) hf ht hf0 ht0 hkey rfl
  · obtain ⟨hp, hk⟩ := encode_decode (fun _ hk => by cases hk; rfl) h
    exact ⟨hp, (Option.some.inj hk).symm⟩

theorem codec_example :
    decode [65, 0, 66, 0, 1, 0, 0, 0] 8 (some [65, 49]) 2 = .ok (some ⟨[65], [66], 1, [], [65, 49]⟩) :=
  codec.1 [65] [66] 1 [] [65, 49] (by decide) (by decide) (by decide) (by decide) (by decide)

end MessageDecoder

end Zylib.KNet
