import Zylib.KNet.Message
import Mathlib.Data.List.DropRight

/-! The check of a signature in `Openssl.cpp`: its text is decoded from base64 and then handed to OpenSSL. -/

namespace Zylib.Misc.Openssl

open KNet.MessageDecoder (resize memcpyAt)

/-! ### OpenSSL -/

/-- White space of a base64 text. -/
def isSpace (c : UInt8) : Bool := c = 9 || c = 10 || c = 13 || c = 32

def trim (s : Bytes) : Bytes := (s.dropWhile isSpace).rdropWhile isSpace

/-- The functions that are called, with any outcome that they may have: `EVP_DecodeBlock` gives its result and what it
    writes. -/
structure Evp (RSA EVP_MD : Type) where
  decodeBlock : Bytes → Int → Int × Bytes
  decodeBlock_eq : ∀ f n, (decodeBlock f n).1 = -1 ∨ (decodeBlock f n).1 = 3 * (trim (f.take n.toNat)).length / 4
  set1RSA : RSA → Int
  digestVerifyInit : EVP_MD → RSA → Int
  digestVerifyUpdate : EVP_MD → RSA → Bytes → Int
  digestVerifyFinal : EVP_MD → RSA → Bytes → Bytes → Int
  digestVerifyFinal_le : ∀ md key src sign, digestVerifyFinal md key src sign ≤ 1

/-- A read outside of the text, an overflow of `int`, and the `std::length_error` of `resize`. -/
inductive Fault where
  | range
  | overflow
  | length
deriving DecidableEq

/-- What the check returns and, if it comes to it, what `EVP_DigestVerifyFinal` returned. -/
structure Verdict where
  result : Bool
  final : Option Int
deriving DecidableEq

variable {RSA EVP_MD : Type} (evp : Evp RSA EVP_MD)

/-! ### base64Decode -/

/-- The loop that counts the `=`: `none` if there is nothing else. -/
def paddingLoop (src : Bytes) : Nat → Nat → Except Fault (Option Nat)
  | 0, _ => .error .range
  | pos + 1, padding_len =>
    match src[pos]? with
    | none => .error .range
    | some c =>
      if c = 61 then
        if padding_len = int32Max then .error .overflow
        else if pos = 0 then .ok none
        else paddingLoop src pos (padding_len + 1)
      else .ok (some padding_len)

/-- The result, and what is in `out` afterwards. -/
def base64Decode (src out : Bytes) : Except Fault (Int × Bytes) :=
  if src.length = 0 then .ok (-1, out)
  else do
    match ← paddingLoop src src.length 0 with
    | none => .ok (-1, out)
    | some padding_len =>
      let n := sizeToInt src.length
      if src.length < n then .error .range
      else
        let (len, written) := evp.decodeBlock src n
        let out := memcpyAt out 0 written
        if len = -1 then .ok (-1, out)
        else .ok (len - padding_len, out)

/-! ### digitVerify -/

def digitVerify (src sign : Bytes) (public_key : RSA) (evp_md : EVP_MD) : Verdict :=
  if src.length = 0 then ⟨false, none⟩
  else if evp.set1RSA public_key ≠ 1 then ⟨false, none⟩
  else if evp.digestVerifyInit evp_md public_key ≠ 1 then ⟨false, none⟩
  else if evp.digestVerifyUpdate evp_md public_key src ≠ 1 then ⟨false, none⟩
  else
    let ret := evp.digestVerifyFinal evp_md public_key src sign
    if ret = 0 then ⟨false, some ret⟩ else ⟨true, some ret⟩

/-- `digitVerify_Base64`. -/
def digitVerifyBase64 (src sign_str : Bytes) (public_key : RSA) (evp_md : EVP_MD) : Except Fault Verdict := do
  let sign := sign_str
  let sign_buffer := List.replicate sign.length 0
  let (sign_buffer_len, sign_buffer) ← base64Decode evp sign sign_buffer
  if sign_buffer_len = -1 then .ok ⟨false, none⟩
  else
    let n := toSizeT sign_buffer_len
    if vectorMaxSize < n then .error .length
    else .ok (digitVerify evp src (resize sign_buffer n) public_key evp_md)

end Zylib.Misc.Openssl
