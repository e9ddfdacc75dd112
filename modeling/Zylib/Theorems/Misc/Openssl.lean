import Zylib.Misc.Openssl

/-! The check of a signature fails closed exactly if OpenSSL decodes enough for the `=` that are counted, and never answers
    with less than 0. -/

namespace Zylib.Misc.Openssl

open KNet.MessageDecoder (resize memcpyAt)

/-! ### The padding -/

/-- The number of `=` at the end. -/
def padding (s : Bytes) : Nat := (s.rtakeWhile fun c => c = 61).length

theorem padding_concat (s : Bytes) (c : UInt8) : padding (s ++ [c]) = if c = 61 then padding s + 1 else 0 := by
  unfold padding
  rw [List.rtakeWhile_concat]
  by_cases h : c = 61 <;> simp [h]

theorem padding_le_length (s : Bytes) : padding s ≤ s.length := (List.rtakeWhile_suffix _ _).length_le

/-- The loop from `pos` down counts the `=` that end the text before `pos`. -/
theorem paddingLoop_eq {src : Bytes} {pos k : Nat} (hpos : 0 < pos) (hlen : pos ≤ src.length) (hk : k ≤ int32Max) :
    paddingLoop src pos k =
      if int32Max < k + padding (src.take pos) then .error .overflow
      else if padding (src.take pos) = pos then .ok none
      else .ok (some (k + padding (src.take pos))) := by
  induction pos generalizing k with
  | zero => exact absurd hpos (Nat.lt_irrefl 0)
  | succ pos ih =>
    rw [paddingLoop, List.getElem?_eq_getElem hlen, List.take_succ_eq_append_getElem hlen, padding_concat]
    dsimp only
    by_cases hc : src[pos] = 61
    · rw [if_pos hc, if_pos hc]
      by_cases hmax : k = int32Max
      · rw [if_pos hmax, if_pos (by omega)]
      · rw [if_neg hmax]
        by_cases hzero : pos = 0
        · subst hzero
          have hnil : padding (src.take 0) = 0 := rfl
          rw [if_pos rfl, hnil, if_neg (by omega), if_pos rfl]
        · rw [if_neg hzero, ih (by omega) (by omega) (by omega)]
          simp only [Nat.add_right_cancel_iff, Nat.add_assoc, Nat.add_comm 1]
    · rw [if_neg hc, if_neg hc, if_neg (by omega), if_neg (by omega), Nat.add_zero]

/-! ### base64Decode -/

section
variable {RSA EVP_MD : Type} {evp : Evp RSA EVP_MD}

/-- The result of `EVP_DecodeBlock` for the text. -/
def decodedLength (evp : Evp RSA EVP_MD) (s : Bytes) : Int := (evp.decodeBlock s (sizeToInt s.length)).1

theorem decodedLength_bounds (evp : Evp RSA EVP_MD) (s : Bytes) : -1 ≤ decodedLength evp s ∧ decodedLength evp s < 2 ^ 32 := by
  have htrim : (trim (s.take (sizeToInt s.length).toNat)).length ≤ (sizeToInt s.length).toNat :=
    ((List.rdropWhile_prefix _ _).length_le.trans (List.dropWhile_suffix _).length_le).trans (List.length_take_le _ _)
  have hlt := sizeToInt_lt s.length
  unfold decodedLength
  rcases evp.decodeBlock_eq s (sizeToInt s.length) with h | h <;> omega

/-- The buffer after `EVP_DecodeBlock`. -/
def decoded (evp : Evp RSA EVP_MD) (s out : Bytes) : Bytes :=
  memcpyAt out 0 (evp.decodeBlock s (sizeToInt s.length)).2

theorem base64Decode_eq {s : Bytes} (out : Bytes) (h : s ≠ []) : base64Decode evp s out =
    if int32Max < padding s then .error .overflow
    else if padding s = s.length then .ok (-1, out)
    else if decodedLength evp s = -1 then .ok (-1, decoded evp s out)
    else .ok (decodedLength evp s - padding s, decoded evp s out) := by
  have hpos : 0 < s.length := List.length_pos_of_ne_nil h
  unfold base64Decode
  rw [if_neg (by omega), paddingLoop_eq hpos le_rfl (Nat.zero_le _), List.take_length, Nat.zero_add]
  split_ifs with hmax hall hlen
  · rfl
  · rfl
  all_goals
    simp only [bind, Except.bind]
    rw [if_neg (Int.not_lt.mpr (sizeToInt_le _))]
  · exact if_pos hlen
  · exact if_neg hlen

/-! ### digitVerify_Base64 -/

/-- The bytes that `digitVerify` gets as the signature. -/
def signature (evp : Evp RSA EVP_MD) (s : Bytes) : Bytes :=
  resize (decoded evp s (List.replicate s.length 0)) (decodedLength evp s - padding s).toNat

variable {src sign_str : Bytes} {public_key : RSA} {evp_md : EVP_MD}

/-- `resize` gets a size that a vector may have exactly if the length is not negative. -/
theorem vectorMaxSize_lt_iff {n : Int} (hge : -2 ^ 31 ≤ n) (hlt : n < 2 ^ 32) : vectorMaxSize < toSizeT n ↔ n < 0 := by
  constructor
  · intro h
    by_contra h0
    rw [toSizeT_of_nonneg (by omega) (by omega)] at h
    unfold vectorMaxSize at h
    omega
  · exact fun h => vectorMaxSize_lt_toSizeT h hge

theorem digitVerifyBase64_eq (h : sign_str ≠ []) : digitVerifyBase64 evp src sign_str public_key evp_md =
    if int32Max < padding sign_str then .error .overflow
    else if padding sign_str = sign_str.length ∨ decodedLength evp sign_str = -1 ∨
        decodedLength evp sign_str - padding sign_str = -1 then .ok ⟨false, none⟩
    else if decodedLength evp sign_str < padding sign_str then .error .length
    else .ok (digitVerify evp src (signature evp sign_str) public_key evp_md) := by
  have hbounds := decodedLength_bounds evp sign_str
  unfold digitVerifyBase64
  dsimp only
  rw [base64Decode_eq _ h]
  by_cases hmax : int32Max < padding sign_str
  · rw [if_pos hmax, if_pos hmax]
    rfl
  rw [if_neg hmax, if_neg hmax]
  by_cases hall : padding sign_str = sign_str.length
  · rw [if_pos hall, if_pos (Or.inl hall)]
    rfl
  rw [if_neg hall]
  by_cases hlen : decodedLength evp sign_str = -1
  · rw [if_pos hlen, if_pos (Or.inr (Or.inl hlen))]
    rfl
  rw [if_neg hlen]
  simp only [bind, Except.bind]
  by_cases hminus : decodedLength evp sign_str - padding sign_str = -1
  · rw [if_pos hminus, if_pos (Or.inr (Or.inr hminus))]
  have hfalse : ¬ (padding sign_str = sign_str.length ∨ decodedLength evp sign_str = -1 ∨
      decodedLength evp sign_str - padding sign_str = -1) := by tauto
  have hsize : vectorMaxSize < toSizeT (decodedLength evp sign_str - padding sign_str) ↔
      decodedLength evp sign_str < padding sign_str := by
    unfold int32Max at hmax
    rw [vectorMaxSize_lt_iff (by omega) (by omega)]
    omega
  rw [if_neg hminus]
  by_cases hneg : decodedLength evp sign_str < padding sign_str
  · rw [if_pos (hsize.mpr hneg), if_neg hfalse, if_pos hneg]
  · rw [if_neg (mt hsize.mp hneg), if_neg hfalse, if_neg hneg, toSizeT_of_nonneg (by omega) (by omega)]
    rfl

/-- The check of the signature ends, and if it returns true then `EVP_DigestVerifyFinal` returned 1. -/
def FailsClosed (evp : Evp RSA EVP_MD) (src sign_str : Bytes) (public_key : RSA) (evp_md : EVP_MD) : Prop :=
  ∃ v, digitVerifyBase64 evp src sign_str public_key evp_md = .ok v ∧ (v.result = true → v.final = some 1)

/-- The `=` at the end can be counted, and as many bytes are decoded, but for one. -/
def DecodesPadding (evp : Evp RSA EVP_MD) (sign_str : Bytes) : Prop :=
  padding sign_str ≤ int32Max ∧ (padding sign_str = sign_str.length ∨ decodedLength evp sign_str = -1 ∨
    (padding sign_str : Int) ≤ decodedLength evp sign_str + 1)

/-- If `EVP_DigestVerifyFinal` is called it does not return a negative value. -/
def FinalDecides (evp : Evp RSA EVP_MD) (src sign : Bytes) (public_key : RSA) (evp_md : EVP_MD) : Prop :=
  src ≠ [] → evp.set1RSA public_key = 1 → evp.digestVerifyInit evp_md public_key = 1 →
    evp.digestVerifyUpdate evp_md public_key src = 1 → 0 ≤ evp.digestVerifyFinal evp_md public_key src sign

theorem digitVerify_iff {sign : Bytes} :
    ((digitVerify evp src sign public_key evp_md).result = true →
        (digitVerify evp src sign public_key evp_md).final = some 1) ↔
      FinalDecides evp src sign public_key evp_md := by
  have hle := evp.digestVerifyFinal_le evp_md public_key src sign
  constructor
  · intro h hsrc hset hinit hupdate
    by_contra hneg
    have hverify : digitVerify evp src sign public_key evp_md =
        ⟨true, some (evp.digestVerifyFinal evp_md public_key src sign)⟩ := by
      unfold digitVerify
      rw [if_neg (mt List.length_eq_zero_iff.mp hsrc), if_neg (not_not.mpr hset), if_neg (not_not.mpr hinit),
        if_neg (not_not.mpr hupdate)]
      exact if_neg (by omega)
    rw [hverify] at h
    have hone := Option.some.inj (h rfl)
    omega
  · intro h htrue
    unfold digitVerify at htrue ⊢
    dsimp only at htrue ⊢
    split_ifs at htrue ⊢ with hsrc hset hinit hupdate hret
    have hnonneg := h (mt List.length_eq_zero_iff.mpr hsrc) (not_not.mp hset) (not_not.mp hinit) (not_not.mp hupdate)
    exact congrArg some (by omega)

theorem failsClosed_iff (evp : Evp RSA EVP_MD) (src sign_str : Bytes) (public_key : RSA) (evp_md : EVP_MD) :
    FailsClosed evp src sign_str public_key evp_md ↔ DecodesPadding evp sign_str ∧
      (padding sign_str < sign_str.length → (padding sign_str : Int) ≤ decodedLength evp sign_str →
        FinalDecides evp src (signature evp sign_str) public_key evp_md) := by
  by_cases hnil : sign_str = []
  · subst hnil
    have hclosed : FailsClosed evp src [] public_key evp_md := ⟨⟨false, none⟩, rfl, by simp⟩
    have hpadding : DecodesPadding evp [] := ⟨Nat.zero_le _, Or.inl rfl⟩
    exact iff_of_true hclosed ⟨hpadding, fun h => absurd h (Nat.not_lt_zero _)⟩
  unfold FailsClosed DecodesPadding
  rw [digitVerifyBase64_eq hnil]
  split_ifs with hmax hfalse hneg
  · refine iff_of_false ?_ ?_
    · rintro ⟨v, hv, -⟩
      cases hv
    · rintro ⟨⟨h, -⟩, -⟩
      omega
  · have hbounds := decodedLength_bounds evp sign_str
    exact iff_of_true ⟨_, rfl, by simp⟩ ⟨⟨by omega, by omega⟩, fun hlt hle => by omega⟩
  · refine iff_of_false ?_ ?_
    · rintro ⟨v, hv, -⟩
      cases hv
    · rintro ⟨⟨-, h⟩, -⟩
      omega
  · have hlt : padding sign_str < sign_str.length := by
      have hle := padding_le_length sign_str
      omega
    have hle : (padding sign_str : Int) ≤ decodedLength evp sign_str := Int.not_lt.mp hneg
    constructor
    · rintro ⟨v, hv, hclosed⟩
      cases hv
      exact ⟨⟨by omega, by omega⟩, fun _ _ => digitVerify_iff.mp hclosed⟩
    · rintro ⟨-, hdecides⟩
      exact ⟨_, rfl, digitVerify_iff.mpr (hdecides hlt hle)⟩

end

/-! ### A text with more padding than OpenSSL decodes -/

/-- `A` and eleven `=`. -/
def paddedText : Bytes := 65 :: List.replicate 11 61

/-- A library that reads zeros from every text of whole blocks, and takes no signature. -/
def zeroEvp : Evp Unit Unit where
  decodeBlock f n :=
    let m := (trim (f.take n.toNat)).length
    if m % 4 = 0 then (3 * m / 4, List.replicate (3 * m / 4) 0) else (-1, [])
  decodeBlock_eq f n := by
    dsimp only
    split
    · exact Or.inr rfl
    · exact Or.inl rfl
  set1RSA _ := 1
  digestVerifyInit _ _ := 1
  digestVerifyUpdate _ _ _ := 1
  digestVerifyFinal _ _ _ _ := 0
  digestVerifyFinal_le _ _ _ _ := by decide

/-- 9 bytes are decoded and 11 taken away. -/
theorem not_failsClosed : ¬ ∀ (RSA EVP_MD : Type) (evp : Evp RSA EVP_MD) (src sign_str : Bytes) (public_key : RSA)
    (evp_md : EVP_MD), FailsClosed evp src sign_str public_key evp_md := by
  intro h
  obtain ⟨v, hv, -⟩ := h Unit Unit zeroEvp [1] paddedText () ()
  have herror : digitVerifyBase64 zeroEvp [1] paddedText () () = .error .length := by decide
  rw [herror] at hv
  cases hv

end Zylib.Misc.Openssl
