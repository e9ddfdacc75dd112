import Zylib.ZySoft.MessageDecoder

/-! What `Decode` does to arbitrary bytes. It takes whole frames off the buffer as long as every head
    it reads holds a length it can add to `HEAD_LENGTH`, or one below `-HEAD_LENGTH`, at which it stops.
    A length from `-HEAD_LENGTH` to `-1` is emitted as a message shorter than a head, without end when
    it is `-HEAD_LENGTH`, and a length near the maximum overflows. -/

namespace Zylib.ZySoft
open Drain

/-- A whole frame: a head, and as many bytes after it as its first four say. -/
def Whole (m : Message) : Prop :=
  headLength ≤ m.length ∧ 0 ≤ storedLength m.bytes ∧ (m.length : Int) = headLength + storedLength m.bytes

/-- `Decode` ends, emits whole frames, and these and the bytes left are what the buffer held. -/
def DecodesWhole (b : FlatBuffer) : Prop :=
  ∃ turns out rest, decode turns b [] = .ok (out, rest) ∧ (∀ m ∈ out, Whole m) ∧
    out.flatMap Message.bytes ++ rest.buffer = b.buffer

/-- `HeadAt b s`: walking over whole frames from the front of `b`, the bytes that are left are `s`, and
    they hold a head. -/
inductive HeadAt : Bytes → Bytes → Prop where
  | here {b : Bytes} : headLength ≤ b.length → HeadAt b b
  | next {b s : Bytes} {k : Nat} : headLength ≤ b.length → 0 ≤ storedLength b →
      (k : Int) = headLength + storedLength b → k ≤ b.length → HeadAt (b.drop k) s → HeadAt b s

/-- A length in a head that `Decode` adds to `HEAD_LENGTH` exactly, or stops at. -/
def Harmless (n : Int) : Prop := n < -headLength ∨ 0 ≤ n ∧ n ≤ int32Max - headLength

theorem whole_take {b : Bytes} {k : Nat} (hn : 0 ≤ storedLength b) (hk : (k : Int) = headLength + storedLength b)
    (hle : k ≤ b.length) : Whole ⟨⟨b.take k⟩⟩ := by
  have hlen : (b.take k).length = k := List.length_take_of_le hle
  have hhead : headLength ≤ k := by omega
  have hstored : storedLength (b.take k) = storedLength b := by
    have h4 : 4 ≤ (b.take k).length := by
      rw [hlen]
      exact Nat.le_trans (by decide) hhead
    conv_rhs => rw [← List.take_append_drop k b]
    rw [storedLength_append h4]
  refine ⟨?_, ?_, ?_⟩
  · show headLength ≤ (b.take k).length
    rw [hlen]
    exact hhead
  · exact hstored ▸ hn
  · show ((b.take k).length : Int) = headLength + storedLength (b.take k)
    rw [hlen, hstored, hk]

/-- With harmless heads only, the loop ends, at whole frames and the bytes that are left. -/
theorem drains_of_harmless {b : FlatBuffer} (hmax : b.length ≤ vectorMaxSize)
    (hh : ∀ s, HeadAt b.buffer s → Harmless (storedLength s)) :
    ∃ out rest, Drains decodeOnce b out rest ∧ (∀ m ∈ out, Whole m) ∧
      out.flatMap Message.bytes ++ rest.buffer = b.buffer := by
  induction hlen : b.length using Nat.strongRecOn generalizing b with
  | _ len ih =>
    by_cases hshort : b.length < headLength
    · exact ⟨[], b, .done (decodeOnce_short hshort), by simp, rfl⟩
    have hhead : headLength ≤ b.length := Nat.not_lt.mp hshort
    rcases hh b.buffer (.here hhead) with hneg | ⟨hn, hle⟩
    · exact ⟨[], b, .done (decodeOnce_negative hhead hmax hneg), by simp, rfl⟩
    obtain ⟨k, hk⟩ : ∃ k : Nat, (k : Int) = headLength + storedLength b.buffer :=
      ⟨(headLength + storedLength b.buffer).toNat, Int.toNat_of_nonneg (by omega)⟩
    have hstep := decodeOnce_frame hhead hle hk
    by_cases hlt : b.length < k
    · rw [if_pos hlt] at hstep
      exact ⟨[], b, .done hstep, by simp, rfl⟩
    rw [if_neg hlt] at hstep
    have hkb : k ≤ b.buffer.length := Nat.not_lt.mp hlt
    have hdrop : FlatBuffer.length ⟨b.buffer.drop k⟩ = b.length - k := List.length_drop
    have hpos : 0 < k := Nat.lt_of_lt_of_le (by decide : 0 < headLength) (by omega)
    obtain ⟨out, rest, hd, hw, heq⟩ := ih (b.length - k) (by omega) (b := ⟨b.buffer.drop k⟩) (by omega)
      (fun s hs => hh s (.next hhead hn hk hkb hs)) hdrop
    refine ⟨⟨⟨b.buffer.take k⟩⟩ :: out, rest, .more hstep hd, ?_, ?_⟩
    · intro m hm
      rcases List.mem_cons.mp hm with rfl | hm
      · exact whole_take hn hk hkb
      · exact hw m hm
    · rw [List.flatMap_cons, List.append_assoc, heq]
      exact List.take_append_drop k b.buffer

theorem harmless_of_decodeOnce {b : FlatBuffer} {r : Option (Message × FlatBuffer)} (h : decodeOnce b = .ok r)
    (hw : ∀ m t, r = some (m, t) → Whole m) (hhead : headLength ≤ b.length) : Harmless (storedLength b.buffer) := by
  by_cases hover : (int32Max : Int) - headLength < storedLength b.buffer
  · rw [decodeOnce_overflow hhead hover] at h
    cases h
  by_cases hneg : storedLength b.buffer < -headLength
  · exact Or.inl hneg
  obtain ⟨k, hk⟩ : ∃ k : Nat, (k : Int) = headLength + storedLength b.buffer :=
    ⟨(headLength + storedLength b.buffer).toNat, Int.toNat_of_nonneg (by omega)⟩
  rw [decodeOnce_frame hhead (by omega) hk] at h
  refine Or.inr ⟨?_, by omega⟩
  by_cases hlt : b.length < k
  · omega
  · rw [if_neg hlt] at h
    have hlen : headLength ≤ (b.buffer.take k).length := (hw _ _ (Except.ok.inj h).symm).1
    rw [List.length_take_of_le (Nat.not_lt.mp hlt)] at hlen
    omega

theorem decodeOnce_of_harmless {b : FlatBuffer} {k : Nat} (hhead : headLength ≤ b.length)
    (hb : Harmless (storedLength b.buffer))
    (hk : (k : Int) = headLength + storedLength b.buffer) (hle : k ≤ b.length) :
    decodeOnce b = .ok (some (⟨⟨b.buffer.take k⟩⟩, ⟨b.buffer.drop k⟩)) := by
  have hmax : storedLength b.buffer ≤ int32Max - headLength := by
    rcases hb with h | h <;> omega
  rw [decodeOnce_frame hhead hmax hk, if_neg (Nat.not_lt.mpr hle)]

/-- If the loop ends with whole frames only, then every head it read was harmless. -/
theorem harmless_of_drains {b rest : FlatBuffer} {out : List Message} (hd : Drains decodeOnce b out rest)
    (hw : ∀ m ∈ out, Whole m) {s : Bytes} (hs : HeadAt b.buffer s) : Harmless (storedLength s) := by
  induction hd with
  | @done b h0 =>
    have first := harmless_of_decodeOnce h0 (fun _ _ h => by cases h)
    cases hs with
    | here hhead => exact first hhead
    | next hhead _ hk hle _ =>
      rw [decodeOnce_of_harmless hhead (first hhead) hk hle] at h0
      cases h0
  | @more b t u m out h0 _ ih =>
    have first := harmless_of_decodeOnce h0 (fun _ _ h => by cases h; exact hw m List.mem_cons_self)
    cases hs with
    | here hhead => exact first hhead
    | next hhead _ hk hle hs =>
      rw [decodeOnce_of_harmless hhead (first hhead) hk hle] at h0
      cases h0
      exact ih (fun m hm => hw m (List.mem_cons_of_mem _ hm)) hs

/-- `Decode` takes whole frames off a buffer if and only if every head it reads is harmless. -/
theorem decodesWhole_iff (b : FlatBuffer) (hmax : b.length ≤ vectorMaxSize) :
    DecodesWhole b ↔ ∀ s, HeadAt b.buffer s → Harmless (storedLength s) := by
  constructor
  · rintro ⟨turns, out, rest, h, hw, -⟩ s hs
    exact harmless_of_drains (exists_drain_iff.mp ⟨turns, h⟩) hw hs
  · intro hh
    obtain ⟨out, rest, hd, hw, heq⟩ := drains_of_harmless hmax hh
    obtain ⟨turns, h⟩ := exists_drain_iff.mpr hd
    exact ⟨turns, out, rest, h, hw, heq⟩

theorem decodesWhole_iff_frame :
    DecodesWhole ⟨[2, 0, 0, 0, 0, 0, 0, 0, 0, 0, 0, 0, 0, 0, 0, 0, 7, 8, 1]⟩ := by
  refine (decodesWhole_iff _ (by decide)).mpr fun s hs => ?_
  have h2 : storedLength [2, 0, 0, 0, 0, 0, 0, 0, 0, 0, 0, 0, 0, 0, 0, 0, 7, 8, 1] = 2 := by decide
  cases hs with
  | here => exact Or.inr (by rw [h2]; decide)
  | @next _ _ k _ _ hk _ hs =>
    rw [h2] at hk
    obtain rfl : k = 18 := by simp only [headLength] at hk; omega
    cases hs with
    | here h => exact absurd h (by decide)
    | next h => exact absurd h (by decide)

/-- On a head that holds the length `-HEAD_LENGTH` the loop never ends: it emits empty messages. -/
theorem not_decodesWhole_minus_head :
    ¬DecodesWhole ⟨[0xF0, 0xFF, 0xFF, 0xFF, 0, 0, 0, 0, 0, 0, 0, 0, 0, 0, 0, 0]⟩ := by
  rintro ⟨turns, out, rest, h, -, -⟩
  have fixed : decodeOnce ⟨[0xF0, 0xFF, 0xFF, 0xFF, 0, 0, 0, 0, 0, 0, 0, 0, 0, 0, 0, 0]⟩ =
      .ok (some (⟨⟨[]⟩⟩, ⟨[0xF0, 0xFF, 0xFF, 0xFF, 0, 0, 0, 0, 0, 0, 0, 0, 0, 0, 0, 0]⟩)) := by decide
  rw [decode, drain_of_fixed fixed] at h
  cases h

end Zylib.ZySoft
