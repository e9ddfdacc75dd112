import Zylib.Cpp

/-! `zylib/Base64.cpp`. Of the two arrays, the model keeps the `i` bytes that have been put in. `isalnum` is that of the "C" locale. -/

namespace Zylib.Base64

def base64Chars : Bytes := [
  'A', 'B', 'C', 'D', 'E', 'F', 'G', 'H', 'I', 'J', 'K', 'L', 'M', 'N', 'O', 'P',
  'Q', 'R', 'S', 'T', 'U', 'V', 'W', 'X', 'Y', 'Z', 'a', 'b', 'c', 'd', 'e', 'f',
  'g', 'h', 'i', 'j', 'k', 'l', 'm', 'n', 'o', 'p', 'q', 'r', 's', 't', 'u', 'v',
  'w', 'x', 'y', 'z', '0', '1', '2', '3', '4', '5', '6', '7', '8', '9', '+', '/'].map fun c => UInt8.ofNat c.toNat

def equals : UInt8 := UInt8.ofNat '='.toNat

def isBase64 (c : UInt8) : Bool :=
  (0x30 ≤ c && c ≤ 0x39) || (0x41 ≤ c && c ≤ 0x5a) || (0x61 ≤ c && c ≤ 0x7a) || c == UInt8.ofNat '+'.toNat ||
    c == UInt8.ofNat '/'.toNat

/-! ### Encoding -/

/-- `char_array_4` for a full `char_array_3`, through the alphabet. -/
def encode3 (a0 a1 a2 : UInt8) : Bytes :=
  [(a0 &&& 0xfc) >>> 2, ((a0 &&& 0x03) <<< 4) + ((a1 &&& 0xf0) >>> 4), ((a1 &&& 0x0f) <<< 2) + ((a2 &&& 0xc0) >>> 6),
    a2 &&& 0x3f].map fun i => base64Chars.getD i.toNat 0

/-- What is done when the bytes run out. -/
def encodeRest (ret charArray3 : Bytes) : Bytes :=
  match charArray3 with
  | [] => ret
  | [a0] => ret ++ (encode3 a0 0 0).take 2 ++ List.replicate 2 equals
  | a0 :: a1 :: _ => ret ++ (encode3 a0 a1 0).take 3 ++ List.replicate 1 equals

def encodeLoop (ret charArray3 : Bytes) : Bytes → Bytes
  | [] => encodeRest ret charArray3
  | b :: bytesToEncode =>
    match charArray3 with
    | [a0, a1] => encodeLoop (ret ++ encode3 a0 a1 b) [] bytesToEncode
    | _ => encodeLoop ret (charArray3 ++ [b]) bytesToEncode

/-- `Encode(const std::string&)`: the length is passed as an `unsigned int`. -/
def encode (s : Bytes) : Bytes := encodeLoop [] [] (s.take (s.length % 2 ^ 32))

/-! ### Decoding -/

/-- `base64_chars.find(c)` as an `unsigned char`; `npos` becomes 255. -/
def find (c : UInt8) : UInt8 := if c ∈ base64Chars then UInt8.ofNat (base64Chars.idxOf c) else 255

/-- `char_array_3` for a full `char_array_4`. -/
def decode4 (c0 c1 c2 c3 : UInt8) : Bytes :=
  [(find c0 <<< 2) + ((find c1 &&& 0x30) >>> 4), ((find c1 &&& 0xf) <<< 4) + ((find c2 &&& 0x3c) >>> 2),
    ((find c2 &&& 0x3) <<< 6) + find c3]

def decodeRest (ret charArray4 : Bytes) : Bytes :=
  match charArray4 with
  | [] => ret
  | [c0] => ret ++ (decode4 c0 0 0 0).take 0
  | [c0, c1] => ret ++ (decode4 c0 c1 0 0).take 1
  | c0 :: c1 :: c2 :: _ => ret ++ (decode4 c0 c1 c2 0).take 2

def decodeLoop (ret charArray4 : Bytes) : Bytes → Bytes
  | [] => decodeRest ret charArray4
  | c :: encodedString =>
    if c ≠ equals ∧ isBase64 c then
      match charArray4 with
      | [c0, c1, c2] => decodeLoop (ret ++ decode4 c0 c1 c2 c) [] encodedString
      | _ => decodeLoop ret (charArray4 ++ [c]) encodedString
    else decodeRest ret charArray4

/-- `Decode`. -/
def decode (encodedString : Bytes) : Bytes := decodeLoop [] [] encodedString

end Zylib.Base64
