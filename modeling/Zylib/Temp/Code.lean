import Zylib.Cpp
import Zylib.Lib.Utf8

/-! `isUtf8` of `zylib`. -/

namespace Zylib.Temp

namespace detail

/-- How long the sequence is that the byte `c` starts. There are none of 5 and 6 bytes. -/
def leadMultiLen (c : Nat) : Option Nat :=
  if c &&& 0x80 = 0 then some 1
  else if c &&& 0xE0 = 0xC0 then some 2
  else if c &&& 0xF0 = 0xE0 then some 3
  else if c &&& 0xF8 = 0xF0 then some 4
  else none

/-- The loop, when `multiLen` more bytes of a sequence are due. -/
def isUtf8Loop : Bytes → Nat → Bool
  | [], multiLen => if multiLen > 0 then false else true
  | c :: pos, multiLen =>
    if multiLen = 0 then
      match leadMultiLen c.toNat with
      | none => false
      | some multiLen => isUtf8Loop pos (multiLen - 1)
    else if c.toNat &&& 0xC0 ≠ 0x80 then false
    else isUtf8Loop pos (multiLen - 1)

/-- `pos` is the memory from that address on. -/
def isUtf8Internal (pos : Bytes) (len : Nat) : Bool := isUtf8Loop (pos.take len) 0

end detail

def strlen (str : Bytes) : Nat := (str.takeWhile (· ≠ 0)).length

/-- `isUtf8(const std::string&)`. -/
def isUtf8 (str : Bytes) : Bool := detail.isUtf8Internal str str.length

/-- `isUtf8(const char*)`. -/
def isUtf8CStr (str : Bytes) : Bool := detail.isUtf8Internal str (strlen str)

end Zylib.Temp
