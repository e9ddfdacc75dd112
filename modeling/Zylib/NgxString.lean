import Zylib.Cpp

/-! `ngx_escape_uri` and `ngx_unescape_uri` (ngx_string.cpp). -/

namespace Zylib.Ngx

/-- The constants `NGX_ESCAPE_URI` to `NGX_ESCAPE_MAIL_AUTH`. -/
inductive EscapeType where
  | uri
  | args
  | uriComponent
  | html
  | refresh
  | memcached
  | mailAuth
deriving DecidableEq

/-- The tables of `map`, a bit for each character. -/
def EscapeType.escape : EscapeType → List ℕ
  | .uri => [0xffffffff, 0x80000029, 0x00000000, 0x80000000, 0xffffffff, 0xffffffff, 0xffffffff, 0xffffffff]
  | .args => [0xffffffff, 0x88000869, 0x00000000, 0x80000000, 0xffffffff, 0xffffffff, 0xffffffff, 0xffffffff]
  | .uriComponent => [0xffffffff, 0xfc009fff, 0x78000001, 0xb8000001, 0xffffffff, 0xffffffff, 0xffffffff, 0xffffffff]
  | .html => [0xffffffff, 0x000000ad, 0x00000000, 0x80000000, 0xffffffff, 0xffffffff, 0xffffffff, 0xffffffff]
  | .refresh => [0xffffffff, 0x00000085, 0x00000000, 0x80000000, 0xffffffff, 0xffffffff, 0xffffffff, 0xffffffff]
  | .memcached | .mailAuth => [0xffffffff, 0x00000021, 0, 0, 0, 0, 0, 0]

def EscapeType.escapes (type : EscapeType) (ch : UInt8) : Bool :=
  (type.escape[(ch >>> 5).toNat]?.getD 0).testBit (ch &&& 0x1f).toNat

/-- `hex[digit]`. -/
def hex (digit : UInt8) : UInt8 := if digit < 10 then 48 + digit else 87 + digit

/-- `ngx_escape_uri(NULL, src, size, type)`: the number of the characters to be escaped. -/
def escapeUriCount (type : EscapeType) (src : Bytes) : ℕ := (src.filter type.escapes).length

def escapeUri (type : EscapeType) : Bytes → Bytes
  | [] => []
  | ch :: src =>
    if type.escapes ch then 37 :: hex (ch >>> 4) :: hex (ch &&& 0xf) :: escapeUri type src else ch :: escapeUri type src

/-- `sw_usual`, `sw_quoted` and `sw_quoted_second`, there with `decoded` and the character before, which is `*(s - 2)`. -/
inductive State where
  | usual
  | quoted
  | quotedSecond (decoded before : UInt8)

def NGX_UNESCAPE_URI : ℕ := 1
def NGX_UNESCAPE_REDIRECT : ℕ := 2

/-- The characters that are written from a state on. After `goto done` none is. -/
def unescapeLoop (type : ℕ) : State → Bytes → Bytes
  | _, [] => []
  | .usual, ch :: s =>
    if ch = 63 ∧ type &&& (NGX_UNESCAPE_URI ||| NGX_UNESCAPE_REDIRECT) ≠ 0 then [ch]
    else if ch = 37 then unescapeLoop type .quoted s
    else ch :: unescapeLoop type .usual s
  | .quoted, ch :: s =>
    let c := ch ||| 0x20
    if 48 ≤ ch ∧ ch ≤ 57 then unescapeLoop type (.quotedSecond (ch - 48) ch) s
    else if 97 ≤ c ∧ c ≤ 102 then unescapeLoop type (.quotedSecond (c - 97 + 10) ch) s
    else ch :: unescapeLoop type .usual s
  | .quotedSecond decoded before, ch :: s =>
    let c := ch ||| 0x20
    if 48 ≤ ch ∧ ch ≤ 57 then
      let ch' := decoded <<< 4 + ch - 48
      if type &&& NGX_UNESCAPE_REDIRECT ≠ 0 then
        if 37 < ch' ∧ ch' < 0x7f then ch' :: unescapeLoop type .usual s
        else 37 :: before :: ch :: unescapeLoop type .usual s
      else ch' :: unescapeLoop type .usual s
    else if 97 ≤ c ∧ c ≤ 102 then
      let ch' := decoded <<< 4 + c - 97 + 10
      if type &&& NGX_UNESCAPE_URI ≠ 0 then if ch' = 63 then [ch'] else ch' :: unescapeLoop type .usual s
      else if type &&& NGX_UNESCAPE_REDIRECT ≠ 0 then
        if ch' = 63 then [ch']
        else if 37 < ch' ∧ ch' < 0x7f then ch' :: unescapeLoop type .usual s
        else 37 :: before :: ch :: unescapeLoop type .usual s
      else ch' :: unescapeLoop type .usual s
    else unescapeLoop type .usual s

def unescapeUri (type : ℕ) (src : Bytes) : Bytes := unescapeLoop type .usual src

end Zylib.Ngx
