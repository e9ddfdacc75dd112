import Zylib.Cpp

/-! `zysoft/string/detail/ngx_base64.h` and `zysoft/string/base64.h`. What is written to `dst` is returned; `NGX_ERROR` is `none`. -/

namespace Zylib.ZySoft.Base64

def basis64 : Bytes := [
  'A', 'B', 'C', 'D', 'E', 'F', 'G', 'H', 'I', 'J', 'K', 'L', 'M', 'N', 'O', 'P',
  'Q', 'R', 'S', 'T', 'U', 'V', 'W', 'X', 'Y', 'Z', 'a', 'b', 'c', 'd', 'e', 'f',
  'g', 'h', 'i', 'j', 'k', 'l', 'm', 'n', 'o', 'p', 'q', 'r', 's', 't', 'u', 'v',
  'w', 'x', 'y', 'z', '0', '1', '2', '3', '4', '5', '6', '7', '8', '9', '+', '/'].map fun c => UInt8.ofNat c.toNat

def pad : UInt8 := UInt8.ofNat '='.toNat

def letter (i : UInt8) : UInt8 := basis64.getD i.toNat 0

/-- `ngx_encode_base64`: the loop while `len > 2`, then what is left. -/
def ngxEncodeBase64 : Bytes → Bytes
  | s0 :: s1 :: s2 :: s =>
    letter ((s0 >>> 2) &&& 0x3f) :: letter (((s0 &&& 3) <<< 4) ||| (s1 >>> 4)) ::
      letter (((s1 &&& 0x0f) <<< 2) ||| (s2 >>> 6)) :: letter (s2 &&& 0x3f) :: ngxEncodeBase64 s
  | [s0, s1] =>
    [letter ((s0 >>> 2) &&& 0x3f), letter (((s0 &&& 3) <<< 4) ||| (s1 >>> 4)), letter ((s1 &&& 0x0f) <<< 2), pad]
  | [s0] => [letter ((s0 >>> 2) &&& 0x3f), letter ((s0 &&& 3) <<< 4), pad, pad]
  | [] => []

/-! ### Decoding -/

/-- The table of `ngx_decode_base64`. -/
def basis : Bytes := [
  77, 77, 77, 77, 77, 77, 77, 77, 77, 77, 77, 77, 77, 77, 77, 77,
  77, 77, 77, 77, 77, 77, 77, 77, 77, 77, 77, 77, 77, 77, 77, 77,
  77, 77, 77, 77, 77, 77, 77, 77, 77, 77, 77, 62, 77, 77, 77, 63,
  52, 53, 54, 55, 56, 57, 58, 59, 60, 61, 77, 77, 77, 77, 77, 77,
  77,  0,  1,  2,  3,  4,  5,  6,  7,  8,  9, 10, 11, 12, 13, 14,
  15, 16, 17, 18, 19, 20, 21, 22, 23, 24, 25, 77, 77, 77, 77, 77,
  77, 26, 27, 28, 29, 30, 31, 32, 33, 34, 35, 36, 37, 38, 39, 40,
  41, 42, 43, 44, 45, 46, 47, 48, 49, 50, 51, 77, 77, 77, 77, 77] ++ List.replicate 128 77

/-- The table of `ngx_decode_base64url`. -/
def basisUrl : Bytes := [
  77, 77, 77, 77, 77, 77, 77, 77, 77, 77, 77, 77, 77, 77, 77, 77,
  77, 77, 77, 77, 77, 77, 77, 77, 77, 77, 77, 77, 77, 77, 77, 77,
  77, 77, 77, 77, 77, 77, 77, 77, 77, 77, 77, 77, 77, 62, 77, 77,
  52, 53, 54, 55, 56, 57, 58, 59, 60, 61, 77, 77, 77, 77, 77, 77,
  77,  0,  1,  2,  3,  4,  5,  6,  7,  8,  9, 10, 11, 12, 13, 14,
  15, 16, 17, 18, 19, 20, 21, 22, 23, 24, 25, 77, 77, 77, 77, 63,
  77, 26, 27, 28, 29, 30, 31, 32, 33, 34, 35, 36, 37, 38, 39, 40,
  41, 42, 43, 44, 45, 46, 47, 48, 49, 50, 51, 77, 77, 77, 77, 77] ++ List.replicate 128 77

def value (basis : Bytes) (c : UInt8) : UInt8 := basis.getD c.toNat 77

/-- The first loop of `ngx_decode_base64_internal`: the characters before the padding. -/
def scan (basis : Bytes) : Bytes → Option Bytes
  | [] => some []
  | c :: src =>
    if c = pad then some []
    else if value basis c = 77 then none
    else (scan basis src).map (c :: ·)

/-- The loop while `len > 3`, then what is left. -/
def decodeLoop (basis : Bytes) : Bytes → Bytes
  | s0 :: s1 :: s2 :: s3 :: s =>
    ((value basis s0 <<< 2) ||| (value basis s1 >>> 4)) :: ((value basis s1 <<< 4) ||| (value basis s2 >>> 2)) ::
      ((value basis s2 <<< 6) ||| value basis s3) :: decodeLoop basis s
  | [s0, s1, s2] =>
    [(value basis s0 <<< 2) ||| (value basis s1 >>> 4), (value basis s1 <<< 4) ||| (value basis s2 >>> 2)]
  | [s0, s1] => [(value basis s0 <<< 2) ||| (value basis s1 >>> 4)]
  | [_] => []
  | [] => []

/-- `ngx_decode_base64_internal`. -/
def ngxDecodeBase64Internal (basis src : Bytes) : Option Bytes := do
  let s ← scan basis src
  if s.length % 4 = 1 then none else some (decodeLoop basis s)

/-- `ngx_decode_base64`. -/
def ngxDecodeBase64 (src : Bytes) : Option Bytes := ngxDecodeBase64Internal basis src

/-- `ngx_decode_base64url`. -/
def ngxDecodeBase64url (src : Bytes) : Option Bytes := ngxDecodeBase64Internal basisUrl src

/-! ### Buffers -/

/-- `encoded_length`. -/
def encodedLength (len : Nat) : Nat := (len + 2) / 3 * 4

/-- `decoded_length`. -/
def decodedLength (len : Nat) : Nat := (len + 3) / 4 * 3

end Zylib.ZySoft.Base64
