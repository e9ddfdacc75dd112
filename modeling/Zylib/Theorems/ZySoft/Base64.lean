import Zylib.Lib.Digits
import Zylib.ZySoft.Base64

/-! Encoded and decoded text spell one number, in digits of six bits and of eight. -/

namespace Zylib.ZySoft.Base64
open Lib.Digits

/-! ### Shifts -/

theorem toNat_shr (x k : UInt8) (hk : k.toNat < 8) : (x >>> k).toNat = x.toNat / 2 ^ k.toNat := by
  rw [UInt8.toNat_shiftRight, Nat.mod_eq_of_lt hk, Nat.shiftRight_eq_div_pow]

theorem toNat_shl (x k : UInt8) (hk : k.toNat < 8) : (x <<< k).toNat = x.toNat % 2 ^ (8 - k.toNat) * 2 ^ k.toNat := by
  have hpow : 2 ^ 8 = 2 ^ (8 - k.toNat) * 2 ^ k.toNat := by rw [← Nat.pow_add, Nat.sub_add_cancel hk.le]
  rw [UInt8.toNat_shiftLeft, Nat.mod_eq_of_lt hk, Nat.shiftLeft_eq, hpow, Nat.mul_mod_mul_right]

theorem toNat_shl_or (x y k : UInt8) (hk : k.toNat < 8) (hy : y.toNat < 2 ^ k.toNat) :
    ((x <<< k) ||| y).toNat = x.toNat % 2 ^ (8 - k.toNat) * 2 ^ k.toNat + y.toNat := by
  rw [UInt8.toNat_or, toNat_shl x k hk, ← Nat.shiftLeft_eq, ← Nat.shiftLeft_add_eq_or_of_lt hy]

theorem toNat_low (x : UInt8) : (x &&& 3).toNat = x.toNat % 4 ∧ (x &&& 0x0f).toNat = x.toNat % 16 ∧
    (x &&& 0x3f).toNat = x.toNat % 64 := by
  rw [UInt8.toNat_and, UInt8.toNat_and, UInt8.toNat_and]
  exact ⟨Nat.and_two_pow_sub_one_eq_mod _ 2, Nat.and_two_pow_sub_one_eq_mod _ 4, Nat.and_two_pow_sub_one_eq_mod _ 6⟩

theorem toNat_first (x : UInt8) : ((x >>> 2) &&& 0x3f).toNat = x.toNat / 4 := by
  have hx := x.toNat_lt
  rw [(toNat_low _).2.2, toNat_shr x 2 (by decide)]
  show x.toNat / 4 % 64 = _
  omega

/-! ### The alphabet -/

theorem value_letter {i : UInt8} (h : i.toNat < 64) : value basis (letter i) = i ∧ letter i ≠ pad := by
  have hall : ∀ n, n < 64 → value basis (letter (UInt8.ofNat n)) = UInt8.ofNat n ∧ letter (UInt8.ofNat n) ≠ pad := by
    decide +kernel
  have h := hall i.toNat h
  rwa [UInt8.ofNat_toNat] at h

theorem value_lt {tbl : Bytes} (htbl : tbl = basis ∨ tbl = basisUrl) {c : UInt8} (hc : value tbl c ≠ 77) :
    (value tbl c).toNat < 64 := by
  have hall : ∀ v ∈ basis ++ basisUrl, v = 77 ∨ v.toNat < 64 := by decide +kernel
  have hmem : value tbl c = 77 ∨ value tbl c ∈ tbl := by
    rw [value, List.getD_eq_getElem?_getD]
    rcases hget : tbl[c.toNat]? with _ | v
    · exact Or.inl rfl
    · exact Or.inr (List.mem_of_getElem? hget)
  rcases hmem with h | h
  · exact absurd h hc
  · refine (hall _ ?_).resolve_left hc
    rcases htbl with rfl | rfl
    · exact List.mem_append_left _ h
    · exact List.mem_append_right _ h

/-- The digits that characters stand for. -/
def sextets (tbl s : Bytes) : List Nat := s.map fun c => (value tbl c).toNat

def bytesNat (d : Bytes) : List Nat := d.map UInt8.toNat

/-! ### Encoding -/

/-- A character that an encoding writes for a digit. -/
def Letter (c : UInt8) : Prop := c ≠ pad ∧ value basis c ≠ 77

theorem letter_letter {i : UInt8} (h : i.toNat < 64) : Letter (letter i) := by
  obtain ⟨hvalue, hpad⟩ := value_letter h
  refine ⟨hpad, ?_⟩
  rw [hvalue]
  intro h77
  rw [h77] at h
  exact absurd h (by decide)

/-- Three bytes, in four digits. -/
theorem group_toNat (s0 s1 s2 : UInt8) :
    (((s0 &&& 3) <<< 4) ||| (s1 >>> 4)).toNat = s0.toNat % 4 * 16 + s1.toNat / 16 ∧
    (((s1 &&& 0x0f) <<< 2) ||| (s2 >>> 6)).toNat = s1.toNat % 16 * 4 + s2.toNat / 64 ∧
    ((s0 &&& 3) <<< 4).toNat = s0.toNat % 4 * 16 ∧ ((s1 &&& 0x0f) <<< 2).toNat = s1.toNat % 16 * 4 := by
  have h0 := s0.toNat_lt
  have h1 := s1.toNat_lt
  have h2 := s2.toNat_lt
  have h4 : (s1 >>> 4).toNat = s1.toNat / 16 := toNat_shr s1 4 (by decide)
  have h6 : (s2 >>> 6).toNat = s2.toNat / 64 := toNat_shr s2 6 (by decide)
  have hs1 : (s1 >>> 4).toNat < 2 ^ (4 : UInt8).toNat := by
    rw [h4]
    show s1.toNat / 16 < 16
    omega
  have hs2 : (s2 >>> 6).toNat < 2 ^ (2 : UInt8).toNat := by
    rw [h6]
    show s2.toNat / 64 < 4
    omega
  rw [toNat_shl_or _ _ 4 (by decide) hs1, toNat_shl_or _ _ 2 (by decide) hs2, toNat_shl _ 4 (by decide),
    toNat_shl _ 2 (by decide), (toNat_low s0).1, (toNat_low s1).2.1, h4, h6]
  show s0.toNat % 4 % 16 * 16 + _ = _ ∧ s1.toNat % 16 % 64 * 4 + _ = _ ∧ s0.toNat % 4 % 16 * 16 = _ ∧
    s1.toNat % 16 % 64 * 4 = _
  omega

/-- What an encoding says: letters that spell the bytes and after them zeros, then the padding. -/
theorem encode_spells (src : Bytes) : ∃ p n k, ngxEncodeBase64 src = p ++ List.replicate n pad ∧
    (ngxEncodeBase64 src).length = encodedLength src.length ∧ (∀ c ∈ p, Letter c) ∧ p.length % 4 ≠ 1 ∧ k < 8 ∧
    Spells 6 8 (sextets basis p) (bytesNat src) k 0 := by
  fun_induction ngxEncodeBase64 src with
  | case1 s0 s1 s2 s ih =>
    obtain ⟨p, n, k, heq, hlen, hp, hmod, hk, hspells⟩ := ih
    obtain ⟨h1, h2, -⟩ := group_toNat s0 s1 s2
    have h0 := toNat_first s0
    have h3 := (toNat_low s2).2.2
    have hlt0 := s0.toNat_lt
    have hlt1 := s1.toNat_lt
    have hlt2 := s2.toNat_lt
    refine ⟨_ :: _ :: _ :: _ :: p, n, k, by rw [heq]; rfl, ?_, ?_, ?_, hk, ?_⟩
    · simp only [List.length_cons, hlen, encodedLength]
      omega
    · simp only [List.forall_mem_cons]
      exact ⟨letter_letter (by omega), letter_letter (by omega), letter_letter (by omega), letter_letter (by omega), hp⟩
    · simp only [List.length_cons]
      omega
    · refine Spells.append (v := [_, _, _, _]) (d := [_, _, _]) ⟨rfl, ?_⟩ hspells
      beta_reduce
      rw [(value_letter (by omega)).1, (value_letter (by omega)).1, (value_letter (by omega)).1,
        (value_letter (by omega)).1, h0, h1, h2, h3]
      simp only [number_cons, number_nil, List.length_cons, List.length_nil]
      omega
  | case2 s0 s1 =>
    obtain ⟨h1, -, -, h2⟩ := group_toNat s0 s1 0
    have h0 := toNat_first s0
    have hlt0 := s0.toNat_lt
    have hlt1 := s1.toNat_lt
    refine ⟨[_, _, _], 1, 2, rfl, by simp [encodedLength], ?_, by simp, by decide, ⟨rfl, ?_⟩⟩
    · simp only [List.forall_mem_cons]
      exact ⟨letter_letter (by omega), letter_letter (by omega), letter_letter (by omega), List.forall_mem_nil _⟩
    · simp only [sextets, bytesNat, List.map_cons, List.map_nil]
      rw [(value_letter (by omega)).1, (value_letter (by omega)).1, (value_letter (by omega)).1, h0, h1, h2]
      simp only [number_cons, number_nil, List.length_cons, List.length_nil]
      omega
  | case3 s0 =>
    obtain ⟨-, -, h1, -⟩ := group_toNat s0 0 0
    have h0 := toNat_first s0
    have hlt0 := s0.toNat_lt
    refine ⟨[_, _], 2, 4, rfl, by simp [encodedLength], ?_, by simp, by decide, ⟨rfl, ?_⟩⟩
    · simp only [List.forall_mem_cons]
      exact ⟨letter_letter (by omega), letter_letter (by omega), List.forall_mem_nil _⟩
    · simp only [sextets, bytesNat, List.map_cons, List.map_nil]
      rw [(value_letter (by omega)).1, (value_letter (by omega)).1, h0, h1]
      simp only [number_cons, number_nil, List.length_cons, List.length_nil]
      omega
  | case4 => exact ⟨[], 0, 0, rfl, rfl, List.forall_mem_nil _, by decide, by decide, ⟨rfl, rfl⟩⟩

/-! ### Decoding -/

theorem scan_eq_some {tbl src s : Bytes} :
    scan tbl src = some s ↔ s = src.takeWhile (· ≠ pad) ∧ ∀ c ∈ s, value tbl c ≠ 77 := by
  induction src generalizing s with
  | nil =>
    constructor
    · rintro h
      obtain rfl : [] = s := by simpa [scan] using h
      exact ⟨rfl, List.forall_mem_nil _⟩
    · rintro ⟨rfl, -⟩
      rfl
  | cons c src ih =>
    rw [scan]
    by_cases hpad : c = pad
    · rw [if_pos hpad, List.takeWhile_cons_of_neg (by simp [hpad]), Option.some_inj]
      constructor
      · rintro rfl
        exact ⟨rfl, List.forall_mem_nil _⟩
      · rintro ⟨rfl, -⟩
        rfl
    · rw [if_neg hpad, List.takeWhile_cons_of_pos (by simp [hpad])]
      by_cases h77 : value tbl c = 77
      · rw [if_pos h77]
        constructor
        · rintro ⟨⟩
        · rintro ⟨rfl, h⟩
          exact absurd h77 (h c List.mem_cons_self)
      · rw [if_neg h77, Option.map_eq_some_iff]
        constructor
        · rintro ⟨s, hs, rfl⟩
          obtain ⟨rfl, hvalid⟩ := ih.mp hs
          exact ⟨rfl, List.forall_mem_cons.mpr ⟨h77, hvalid⟩⟩
        · rintro ⟨rfl, h⟩
          exact ⟨_, ih.mpr ⟨rfl, (List.forall_mem_cons.mp h).2⟩, rfl⟩

/-- Four digits, in three bytes. -/
theorem join_toNat {v0 v1 v2 v3 : UInt8} (h0 : v0.toNat < 64) (h1 : v1.toNat < 64) (h2 : v2.toNat < 64) (h3 : v3.toNat < 64) :
    ((v0 <<< 2) ||| (v1 >>> 4)).toNat = v0.toNat * 4 + v1.toNat / 16 ∧
    ((v1 <<< 4) ||| (v2 >>> 2)).toNat = v1.toNat % 16 * 16 + v2.toNat / 4 ∧
    ((v2 <<< 6) ||| v3).toNat = v2.toNat % 4 * 64 + v3.toNat := by
  have h4 : (v1 >>> 4).toNat = v1.toNat / 16 := toNat_shr v1 4 (by decide)
  have h6 : (v2 >>> 2).toNat = v2.toNat / 4 := toNat_shr v2 2 (by decide)
  have hv1 : (v1 >>> 4).toNat < 2 ^ (2 : UInt8).toNat := by
    rw [h4]
    show v1.toNat / 16 < 4
    omega
  have hv2 : (v2 >>> 2).toNat < 2 ^ (4 : UInt8).toNat := by
    rw [h6]
    show v2.toNat / 4 < 16
    omega
  rw [toNat_shl_or _ _ 2 (by decide) hv1, toNat_shl_or _ _ 4 (by decide) hv2, toNat_shl_or _ _ 6 (by decide) h3, h4, h6]
  show v0.toNat % 64 * 4 + _ = _ ∧ v1.toNat % 16 * 16 + _ = _ ∧ v2.toNat % 4 * 64 + _ = _
  omega

theorem decode_spells {tbl s : Bytes} (hs : ∀ c ∈ s, (value tbl c).toNat < 64) (hmod : s.length % 4 ≠ 1) :
    ∃ k r, k < 8 ∧ r < 2 ^ k ∧ Spells 6 8 (sextets tbl s) (bytesNat (decodeLoop tbl s)) k r := by
  fun_induction decodeLoop tbl s with
  | case1 s0 s1 s2 s3 s ih =>
    simp only [List.forall_mem_cons] at hs
    obtain ⟨h0, h1, h2, h3, hs⟩ := hs
    have hrest : s.length % 4 ≠ 1 := by
      simp only [List.length_cons] at hmod
      omega
    obtain ⟨k, r, hk, hr, hspells⟩ := ih hs hrest
    obtain ⟨hb0, hb1, hb2⟩ := join_toNat h0 h1 h2 h3
    refine ⟨k, r, hk, hr, Spells.append (v := [_, _, _, _]) (d := [_, _, _]) ⟨rfl, ?_⟩ hspells⟩
    rw [hb0, hb1, hb2]
    simp only [number_cons, number_nil, List.length_cons, List.length_nil]
    omega
  | case2 s0 s1 s2 =>
    simp only [List.forall_mem_cons] at hs
    obtain ⟨h0, h1, h2, -⟩ := hs
    obtain ⟨hb0, hb1, -⟩ := join_toNat h0 h1 h2 h2
    refine ⟨2, (value tbl s2).toNat % 4, by decide, Nat.mod_lt _ (by decide), rfl, ?_⟩
    simp only [sextets, bytesNat, List.map_cons, List.map_nil, hb0, hb1, number_cons, number_nil, List.length_cons,
      List.length_nil]
    omega
  | case3 s0 s1 =>
    simp only [List.forall_mem_cons] at hs
    obtain ⟨h0, h1, -⟩ := hs
    obtain ⟨hb0, -, -⟩ := join_toNat h0 h1 h1 h1
    refine ⟨4, (value tbl s1).toNat % 16, by decide, Nat.mod_lt _ (by decide), rfl, ?_⟩
    simp only [sextets, bytesNat, List.map_cons, List.map_nil, hb0, number_cons, number_nil, List.length_cons,
      List.length_nil]
    omega
  | case4 s0 => exact absurd rfl hmod
  | case5 => exact ⟨0, 0, by decide, by decide, rfl, rfl⟩

theorem bytesNat_lt (d : Bytes) : ∀ x ∈ bytesNat d, x < 2 ^ 8 := by
  intro x hx
  obtain ⟨b, -, rfl⟩ := List.mem_map.mp hx
  exact b.toNat_lt

theorem bytesNat_inj {d d' : Bytes} (h : bytesNat d = bytesNat d') : d = d' :=
  List.map_injective_iff.mpr (fun _ _ h => UInt8.toNat_inj.mp h) h

theorem takeWhile_padded {p : Bytes} (h : ∀ c ∈ p, Letter c) (n : Nat) :
    (p ++ List.replicate n pad).takeWhile (· ≠ pad) = p := by
  have hall : ∀ c ∈ p, decide (c ≠ pad) = true := fun c hc => by simpa using (h c hc).1
  have hnone : (List.replicate n pad).takeWhile (· ≠ pad) = [] := by
    cases n with
    | zero => rfl
    | succ n => simp [List.replicate_succ]
  rw [List.takeWhile_append_of_pos hall, hnone, List.append_nil]

theorem decode_eq_some {tbl src d : Bytes} : ngxDecodeBase64Internal tbl src = some d ↔
    (∀ c ∈ src.takeWhile (· ≠ pad), value tbl c ≠ 77) ∧ (src.takeWhile (· ≠ pad)).length % 4 ≠ 1 ∧
      d = decodeLoop tbl (src.takeWhile (· ≠ pad)) := by
  simp only [ngxDecodeBase64Internal, Option.bind_eq_bind, Option.bind_eq_some_iff, scan_eq_some]
  constructor
  · rintro ⟨s, ⟨rfl, hvalid⟩, hd⟩
    split at hd
    · cases hd
    · rename_i hmod
      exact ⟨hvalid, hmod, (Option.some_inj.mp hd).symm⟩
  · rintro ⟨hvalid, hmod, rfl⟩
    exact ⟨_, ⟨rfl, hvalid⟩, if_neg hmod⟩

/-- What is encoded is read back, and fills the string that was made for it. -/
theorem decode_encoded (src : Bytes) :
    ngxDecodeBase64 (ngxEncodeBase64 src) = some src ∧ (ngxEncodeBase64 src).length = encodedLength src.length := by
  obtain ⟨p, n, k, heq, hlen, hp, hmod, hk, hspells⟩ := encode_spells src
  refine ⟨?_, hlen⟩
  have hvalid : ∀ c ∈ p, (value basis c).toNat < 64 := fun c hc => value_lt (Or.inl rfl) (hp c hc).2
  obtain ⟨k', r', hk', hr', hspells'⟩ := decode_spells hvalid hmod
  rw [ngxDecodeBase64, decode_eq_some, heq, takeWhile_padded hp]
  refine ⟨fun c hc => (hp c hc).2, hmod, bytesNat_inj ?_⟩
  exact hspells.inj (by decide) hspells' hk hk' (Nat.two_pow_pos k) hr' (bytesNat_lt _) (bytesNat_lt _)

/-- Both alphabets: a text is accepted if what stands before the padding has digits only, and not one too many; the bytes are those
    the digits spell, up to the bits after the last whole byte, and there is room for them. -/
theorem decode_eq_some_iff {tbl : Bytes} (htbl : tbl = basis ∨ tbl = basisUrl) (src d : Bytes) :
    (ngxDecodeBase64Internal tbl src = some d ↔
      (∀ c ∈ src.takeWhile (· ≠ pad), value tbl c ≠ 77) ∧ (src.takeWhile (· ≠ pad)).length % 4 ≠ 1 ∧
        ∃ k r, k < 8 ∧ r < 2 ^ k ∧ Spells 6 8 (sextets tbl (src.takeWhile (· ≠ pad))) (bytesNat d) k r) ∧
    (ngxDecodeBase64Internal tbl src = some d → d.length ≤ decodedLength src.length) := by
  have hspells : (∀ c ∈ src.takeWhile (· ≠ pad), value tbl c ≠ 77) → (src.takeWhile (· ≠ pad)).length % 4 ≠ 1 →
      ∃ k r, k < 8 ∧ r < 2 ^ k ∧ Spells 6 8 (sextets tbl (src.takeWhile (· ≠ pad)))
        (bytesNat (decodeLoop tbl (src.takeWhile (· ≠ pad)))) k r :=
    fun hvalid hmod => decode_spells (fun c hc => value_lt htbl (hvalid c hc)) hmod
  rw [decode_eq_some]
  constructor
  · constructor
    · rintro ⟨hvalid, hmod, rfl⟩
      exact ⟨hvalid, hmod, hspells hvalid hmod⟩
    · rintro ⟨hvalid, hmod, k, r, hk, hr, h⟩
      obtain ⟨k', r', hk', hr', h'⟩ := hspells hvalid hmod
      exact ⟨hvalid, hmod, bytesNat_inj (h.inj (by decide) h' hk hk' hr hr' (bytesNat_lt _) (bytesNat_lt _))⟩
  · rintro ⟨hvalid, hmod, rfl⟩
    obtain ⟨k, r, hk, hr, h⟩ := hspells hvalid hmod
    have hlen := h.length
    have hle := (List.takeWhile_sublist (fun c => decide (c ≠ pad)) (l := src)).length_le
    simp only [sextets, bytesNat, List.length_map] at hlen
    rw [decodedLength]
    omega

/-- `_-8=`, which spells `0xff 0xef` and two bits. -/
theorem decode_eq_some_iff_url : ngxDecodeBase64url [0x5f, 0x2d, 0x38, 0x3d] = some [0xff, 0xef] :=
  (decode_eq_some_iff (Or.inr rfl) [0x5f, 0x2d, 0x38, 0x3d] [0xff, 0xef]).1.mpr
    ⟨by decide +kernel, by decide +kernel, 2, 0, by decide, by decide, by decide +kernel, by decide +kernel⟩

end Zylib.ZySoft.Base64
