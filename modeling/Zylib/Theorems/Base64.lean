import Mathlib.Data.List.TakeWhile
import Zylib.Base64
import Zylib.Theorems.ZySoft.Base64

/-! A byte at a time, against the groups of `ngx_base64.h`: what is encoded is the same; what is not accepted there is read here up to
    the first character that is not of the alphabet. -/

namespace Zylib.Base64

/-! ### Groups -/

/-- Below a shift there is nothing to carry. -/
theorem shl_add (x y k : UInt8) (hk : k.toNat < 8) (hy : y.toNat < 2 ^ k.toNat) : (x <<< k) + y = (x <<< k) ||| y := by
  have hshl := ZySoft.Base64.toNat_shl x k hk
  have hor := ZySoft.Base64.toNat_shl_or x y k hk hy
  apply UInt8.toNat_inj.mp
  rw [hor, UInt8.toNat_add, hshl]
  apply Nat.mod_eq_of_lt
  rw [← hor]
  exact UInt8.toNat_lt _

theorem toNat_shr_lt (x k l : UInt8) (hk : k.toNat < 8) (hl : 8 ≤ k.toNat + l.toNat) : (x >>> k).toNat < 2 ^ l.toNat := by
  rw [ZySoft.Base64.toNat_shr x k hk]
  apply Nat.div_lt_of_lt_mul
  rw [← Nat.pow_add]
  exact Nat.lt_of_lt_of_le x.toNat_lt (Nat.pow_le_pow_right (by decide) hl)

theorem masked (a : UInt8) : (a &&& 0xfc) >>> 2 = (a >>> 2) &&& 0x3f ∧ (a &&& 0xf0) >>> 4 = a >>> 4 ∧
    (a &&& 0xc0) >>> 6 = a >>> 6 ∧ (a &&& 3) <<< 6 = a <<< 6 ∧ (a &&& 0xf) <<< 4 = a <<< 4 := by
  have hall : ∀ n, n < 256 → (UInt8.ofNat n &&& 0xfc) >>> 2 = (UInt8.ofNat n >>> 2) &&& 0x3f ∧
      (UInt8.ofNat n &&& 0xf0) >>> 4 = UInt8.ofNat n >>> 4 ∧ (UInt8.ofNat n &&& 0xc0) >>> 6 = UInt8.ofNat n >>> 6 ∧
      (UInt8.ofNat n &&& 3) <<< 6 = UInt8.ofNat n <<< 6 ∧ (UInt8.ofNat n &&& 0xf) <<< 4 = UInt8.ofNat n <<< 4 := by
    decide +kernel
  have h := hall a.toNat a.toNat_lt
  rwa [UInt8.ofNat_toNat] at h

theorem masked_sextet {v : UInt8} (h : v.toNat < 64) : (v &&& 0x30) >>> 4 = v >>> 4 ∧ (v &&& 0x3c) >>> 2 = v >>> 2 := by
  have hall : ∀ n, n < 64 → (UInt8.ofNat n &&& 0x30) >>> 4 = UInt8.ofNat n >>> 4 ∧
      (UInt8.ofNat n &&& 0x3c) >>> 2 = UInt8.ofNat n >>> 2 := by
    decide +kernel
  have h := hall v.toNat h
  rwa [UInt8.ofNat_toNat] at h

/-- The two ways to cut three bytes. -/
theorem encode3_eq (a0 a1 a2 : UInt8) : encode3 a0 a1 a2 = [ZySoft.Base64.letter ((a0 >>> 2) &&& 0x3f),
    ZySoft.Base64.letter (((a0 &&& 3) <<< 4) ||| (a1 >>> 4)), ZySoft.Base64.letter (((a1 &&& 0x0f) <<< 2) ||| (a2 >>> 6)),
    ZySoft.Base64.letter (a2 &&& 0x3f)] := by
  rw [encode3, (masked a0).1, (masked a1).2.1, (masked a2).2.2.1,
    shl_add _ _ 4 (by decide) (toNat_shr_lt a1 4 4 (by decide) (by decide)),
    shl_add _ _ 2 (by decide) (toNat_shr_lt a2 6 2 (by decide) (by decide))]
  rfl

theorem isBase64_iff (c : UInt8) : isBase64 c = true ↔ ZySoft.Base64.value ZySoft.Base64.basis c ≠ 77 := by
  have hall : ∀ n, n < 256 →
      (isBase64 (UInt8.ofNat n) = true ↔ ZySoft.Base64.value ZySoft.Base64.basis (UInt8.ofNat n) ≠ 77) := by
    decide +kernel
  have h := hall c.toNat c.toNat_lt
  rwa [UInt8.ofNat_toNat] at h

theorem find_eq {c : UInt8} (h : isBase64 c = true) : find c = ZySoft.Base64.value ZySoft.Base64.basis c := by
  have hall : ∀ n, n < 256 → isBase64 (UInt8.ofNat n) = true →
      find (UInt8.ofNat n) = ZySoft.Base64.value ZySoft.Base64.basis (UInt8.ofNat n) := by
    decide +kernel
  have h := hall c.toNat c.toNat_lt
  rw [UInt8.ofNat_toNat] at h
  exact h ‹_›

theorem find_lt {c : UInt8} (h : isBase64 c = true) : (find c).toNat < 64 := by
  rw [find_eq h]
  exact ZySoft.Base64.value_lt (Or.inl rfl) ((isBase64_iff c).mp h)

/-- The two ways to join four digits. -/
theorem join_eq (v0 v1 v2 v3 : UInt8) :
    (v1.toNat < 64 → (v0 <<< 2) + ((v1 &&& 0x30) >>> 4) = (v0 <<< 2) ||| (v1 >>> 4)) ∧
    (v2.toNat < 64 → ((v1 &&& 0xf) <<< 4) + ((v2 &&& 0x3c) >>> 2) = (v1 <<< 4) ||| (v2 >>> 2)) ∧
    (v3.toNat < 64 → ((v2 &&& 0x3) <<< 6) + v3 = (v2 <<< 6) ||| v3) := by
  refine ⟨fun h => ?_, fun h => ?_, fun h => ?_⟩
  · rw [(masked_sextet h).1]
    refine shl_add _ _ 2 (by decide) ?_
    rw [ZySoft.Base64.toNat_shr v1 4 (by decide)]
    exact Nat.div_lt_of_lt_mul h
  · rw [(masked_sextet h).2, (masked v1).2.2.2.2]
    refine shl_add _ _ 4 (by decide) ?_
    rw [ZySoft.Base64.toNat_shr v2 2 (by decide)]
    exact Nat.div_lt_of_lt_mul h
  · rw [(masked v2).2.2.2.1]
    exact shl_add _ _ 6 (by decide) h

/-! ### Encoding -/

theorem encodeLoop_eq (ret s : Bytes) : encodeLoop ret [] s = ret ++ ZySoft.Base64.ngxEncodeBase64 s := by
  fun_induction ZySoft.Base64.ngxEncodeBase64 s generalizing ret with
  | case1 s0 s1 s2 s ih =>
    show encodeLoop (ret ++ encode3 s0 s1 s2) [] s = _
    rw [ih, encode3_eq, List.append_assoc]
    rfl
  | case2 s0 s1 =>
    show ret ++ (encode3 s0 s1 0).take 3 ++ _ = _
    rw [encode3_eq, List.append_assoc]
    simp only [show (0 : UInt8) >>> 6 = 0 from rfl, UInt8.or_zero]
    rfl
  | case3 s0 =>
    show ret ++ (encode3 s0 0 0).take 2 ++ _ = _
    rw [encode3_eq, List.append_assoc]
    simp only [show (0 : UInt8) >>> 4 = 0 from rfl, UInt8.or_zero]
    rfl
  | case4 => simp [encodeLoop, encodeRest]

/-! ### Decoding -/

/-- The characters that are read. -/
def letters (s : Bytes) : Bytes := s.takeWhile fun c => decide (c ≠ equals ∧ isBase64 c = true)

theorem decodeLoop_letters (ret charArray4 s : Bytes) : decodeLoop ret charArray4 s = decodeLoop ret charArray4 (letters s) := by
  induction s generalizing ret charArray4 with
  | nil => rfl
  | cons c s ih =>
    by_cases hc : c ≠ equals ∧ isBase64 c = true
    · rw [letters, List.takeWhile_cons_of_pos (by simpa using hc), ← letters]
      unfold decodeLoop
      simp only [if_pos hc]
      split <;> exact ih _ _
    · rw [letters, List.takeWhile_cons_of_neg (by simpa using hc)]
      unfold decodeLoop
      exact if_neg hc

theorem decodeLoop_eq (ret : Bytes) {p : Bytes} (hp : ∀ c ∈ p, c ≠ equals ∧ isBase64 c = true) :
    decodeLoop ret [] p = ret ++ ZySoft.Base64.decodeLoop ZySoft.Base64.basis p := by
  fun_induction ZySoft.Base64.decodeLoop ZySoft.Base64.basis p generalizing ret with
  | case1 c0 c1 c2 c3 s ih =>
    simp only [List.forall_mem_cons] at hp
    obtain ⟨h0, h1, h2, h3, hs⟩ := hp
    have hstep : decodeLoop ret [] (c0 :: c1 :: c2 :: c3 :: s) = decodeLoop (ret ++ decode4 c0 c1 c2 c3) [] s := by
      simp only [decodeLoop, if_pos h0, if_pos h1, if_pos h2, if_pos h3, List.nil_append, List.cons_append]
    rw [hstep, ih _ hs, List.append_assoc, decode4, (join_eq _ _ 0 0).1 (find_lt h1.2),
      (join_eq 0 _ _ 0).2.1 (find_lt h2.2), (join_eq 0 0 _ _).2.2 (find_lt h3.2), find_eq h0.2, find_eq h1.2, find_eq h2.2,
      find_eq h3.2]
    rfl
  | case2 c0 c1 c2 =>
    simp only [List.forall_mem_cons] at hp
    obtain ⟨h0, h1, h2, -⟩ := hp
    have hstep : decodeLoop ret [] [c0, c1, c2] = ret ++ (decode4 c0 c1 c2 0).take 2 := by
      simp only [decodeLoop, if_pos h0, if_pos h1, if_pos h2, List.nil_append, List.cons_append, decodeRest]
    rw [hstep, decode4, (join_eq _ _ 0 0).1 (find_lt h1.2), (join_eq 0 _ _ 0).2.1 (find_lt h2.2), find_eq h0.2,
      find_eq h1.2, find_eq h2.2]
    rfl
  | case3 c0 c1 =>
    simp only [List.forall_mem_cons] at hp
    obtain ⟨h0, h1, -⟩ := hp
    have hstep : decodeLoop ret [] [c0, c1] = ret ++ (decode4 c0 c1 0 0).take 1 := by
      simp only [decodeLoop, if_pos h0, if_pos h1, List.nil_append, List.cons_append, decodeRest]
    rw [hstep, decode4, (join_eq _ _ 0 0).1 (find_lt h1.2), find_eq h0.2, find_eq h1.2]
    rfl
  | case4 c0 =>
    have h0 := hp c0 List.mem_cons_self
    simp only [decodeLoop, if_pos h0, List.nil_append, decodeRest]
    rfl
  | case5 => simp [decodeLoop, decodeRest]

theorem of_mem_letters {s : Bytes} {c : UInt8} (hc : c ∈ letters s) : c ≠ equals ∧ isBase64 c = true := by
  simpa using List.mem_takeWhile_imp hc

theorem decode_eq (s : Bytes) : decode s = ZySoft.Base64.decodeLoop ZySoft.Base64.basis (letters s) := by
  rw [decode, decodeLoop_letters, decodeLoop_eq _ fun c hc => of_mem_letters hc, List.nil_append]

/-- One character over is not read. -/
theorem decodeLoop_dropLast {tbl p : Bytes} (h : p.length % 4 = 1) :
    ZySoft.Base64.decodeLoop tbl p.dropLast = ZySoft.Base64.decodeLoop tbl p := by
  fun_induction ZySoft.Base64.decodeLoop tbl p with
  | case1 c0 c1 c2 c3 s ih =>
    have hrest : s.length % 4 = 1 := by
      simp only [List.length_cons] at h
      omega
    have hne : s ≠ [] := by
      rintro rfl
      simp at hrest
    rw [← ih hrest, List.dropLast_cons_of_ne_nil (by simp), List.dropLast_cons_of_ne_nil (by simp),
      List.dropLast_cons_of_ne_nil (by simp), List.dropLast_cons_of_ne_nil hne]
    rfl
  | case2 => simp at h
  | case3 => simp at h
  | case4 => rfl
  | case5 => simp at h

/-- The characters that are read, less one that is over. -/
def wholeLetters (s : Bytes) : Bytes := if (letters s).length % 4 = 1 then (letters s).dropLast else letters s

theorem takeWhile_of_letters {p : Bytes} (hp : ∀ c ∈ p, c ≠ equals ∧ isBase64 c = true) :
    p.takeWhile (· ≠ ZySoft.Base64.pad) = p :=
  List.takeWhile_eq_self_iff.mpr fun c hc => decide_eq_true (hp c hc).1

theorem mem_letters_of_mem_wholeLetters {s : Bytes} {c : UInt8} (hc : c ∈ wholeLetters s) : c ∈ letters s := by
  unfold wholeLetters at hc
  split at hc
  · exact List.mem_of_mem_dropLast hc
  · exact hc

theorem length_wholeLetters (s : Bytes) : (wholeLetters s).length % 4 ≠ 1 := by
  unfold wholeLetters
  split
  · rw [List.length_dropLast]
    omega
  · assumption

/-- What is accepted is all letters up to the padding. -/
theorem letters_of_decode {s d : Bytes} (h : ZySoft.Base64.ngxDecodeBase64 s = some d) :
    letters s = s.takeWhile (· ≠ ZySoft.Base64.pad) := by
  obtain ⟨hvalid, -, -⟩ := ZySoft.Base64.decode_eq_some.mp h
  have hall : ∀ c ∈ s.takeWhile (· ≠ ZySoft.Base64.pad), isBase64 c = true := fun c hc =>
    (isBase64_iff c).mpr (hvalid c hc)
  have hand := List.takeWhile_takeWhile isBase64 (fun c => decide (c ≠ ZySoft.Base64.pad)) s
  rw [List.takeWhile_eq_self_iff.mpr hall] at hand
  rw [hand, letters]
  congr 1
  funext c
  exact decide_eq_decide.mpr (by rw [decide_eq_true_iff, and_comm]; exact Iff.rfl)

end Zylib.Base64
