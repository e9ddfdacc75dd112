import Mathlib
import Zylib.ZySoft.StaticString
import Zylib.Cpp

/-! `to_static_string` of the integer types. The characters are written from the end of a buffer to its begin. -/

namespace Zylib.ZySoft.Detail
open StaticString

/-- `Traits::assign(*--str_end, c)`, in a buffer of `N` characters. -/
def assignBefore (N : ℕ) (text : Bytes) (c : UInt8) : Except Block.Fault Bytes :=
  if text.length < N then .ok (c :: text) else .error .outOfBounds

/-- `for (; value > 0; value /= 10)`, with `"0123456789"[value % 10]`. -/
def writeDigits (N value : ℕ) (text : Bytes) : Except Block.Fault Bytes :=
  if value > 0 then
    match assignBefore N text (UInt8.ofNat (48 + value % 10)) with
    | .error fault => .error fault
    | .ok text => writeDigits N (value / 10) text
  else .ok text
termination_by value

/-- `integer_to_string` of a signed type with so many binary digits. -/
def integerToStringSigned (N digits : ℕ) (value : ℤ) : Except Block.Fault Bytes :=
  if value = 0 then assignBefore N [] 48
  else if value < 0 then
    let is_min := value = -2 ^ digits
    match writeDigits N (if is_min then 2 ^ digits - 1 else value.natAbs) [] with
    | .error fault => .error fault
    | .ok text => assignBefore N (if is_min then text.modify (text.length - 1) (· + 1) else text) 45
  else writeDigits N value.natAbs []

def integerToStringUnsigned (N value : ℕ) : Except Block.Fault Bytes :=
  if value = 0 then assignBefore N [] 48 else writeDigits N value []

/-- `std::numeric_limits::digits10`: so many decimal digits can be represented by the binary digits. -/
def digits10 (digits : ℕ) : ℕ := Nat.log 10 (2 ^ digits)

/-- `to_static_string_int_impl`, with the characters of the buffer. -/
def toStaticStringIntImpl (N : ℕ) (buffer : Except Block.Fault Bytes) : Member UInt8 N :=
  match buffer with
  | .error fault => .error (.memory fault)
  | .ok text => ({} : StaticString UInt8 N).assign (.outside text)

/-- `to_static_string` of `int`, `long` and `long long`. -/
def toStaticStringSigned (digits : ℕ) (value : ℤ) : Member UInt8 (digits10 digits + 2) :=
  toStaticStringIntImpl _ (integerToStringSigned (digits10 digits + 2) digits value)

/-- `to_static_string` of the unsigned types. -/
def toStaticStringUnsigned (digits value : ℕ) : Member UInt8 (digits10 digits + 1) :=
  toStaticStringIntImpl _ (integerToStringUnsigned (digits10 digits + 1) value)

end Zylib.ZySoft.Detail
