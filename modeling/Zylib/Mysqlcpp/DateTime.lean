import Zylib.Mysqlcpp.Convert
import Zylib.Lib.Pattern

/-! The text of a `DateTime` of `mysqlcpp2`, and `utility::stringTo_DateTime_Timestamp`, which reads such
    a text. -/

namespace Zylib.Mysqlcpp
open Pattern

/-- The fields of a `MYSQL_TIME` that are written and read. -/
structure MysqlTime where
  year : UInt32 := 0
  month : UInt32 := 0
  day : UInt32 := 0
  hour : UInt32 := 0
  minute : UInt32 := 0
  second : UInt32 := 0
  secondPart : UInt64 := 0
deriving DecidableEq

namespace MysqlTime

/-- The argument of a `%d` is taken as an `int`. -/
def printfField (width : Nat) (n : UInt32) : Bytes := printfD width n.toBitVec.toInt

/-- `%04d-%02d-%02d %02d:%02d:%02d`. -/
def dateTimeText (t : MysqlTime) : Bytes :=
  printfField 4 t.year ++ ('-'.toUInt8 :: (printfField 2 t.month ++ ('-'.toUInt8 :: (printfField 2 t.day ++
    (' '.toUInt8 :: (printfField 2 t.hour ++ (':'.toUInt8 :: (printfField 2 t.minute ++
      (':'.toUInt8 :: printfField 2 t.second)))))))))

/-- `DateTime::getString`. -/
def getString (t : MysqlTime) : Bytes :=
  if t.secondPart = 0 then t.dateTimeText
  else t.dateTimeText ++ ('.'.toUInt8 :: printfD 6 t.secondPart.toBitVec.toInt)

end MysqlTime

namespace Utility

/-- `(\d+)`. -/
def digits : Atom UInt8 := .run (decide <| isDigit ·)

/-- `(\d+)-(\d+)-(\d+) (\d+):(\d+):(\d+)`. -/
def dateTimePattern : List (Atom UInt8) :=
  [digits, .char '-'.toUInt8, digits, .char '-'.toUInt8, digits, .char ' '.toUInt8,
    digits, .char ':'.toUInt8, digits, .char ':'.toUInt8, digits]

/-- `(\d+)-(\d+)-(\d+) (\d+):(\d+):(\d+)\.(\d+)`. -/
def secondPartPattern : List (Atom UInt8) := dateTimePattern ++ [.char '.'.toUInt8, digits]

/-- `detail::Convert<unsigned int>::cvt_noexcept`. -/
def cvtUInt (s : Bytes) : UInt32 := UInt32.ofNat (cvtNoexcept .uint32 s).toNat

/-- The values that are written through the pointers if the result is `true`. -/
def stringToDateTimeTimestamp (str : Bytes) : Option MysqlTime :=
  if str = [] then none
  else
    match search dateTimePattern str with
    | some [year, month, day, hour, minute, second] =>
      some ⟨cvtUInt year, cvtUInt month, cvtUInt day, cvtUInt hour, cvtUInt minute, cvtUInt second, 0⟩
    | _ =>
      match search secondPartPattern str with
      | some [year, month, day, hour, minute, second, secondPart] =>
        some ⟨cvtUInt year, cvtUInt month, cvtUInt day, cvtUInt hour, cvtUInt minute, cvtUInt second,
          (cvtUInt secondPart).toUInt64⟩
      | _ => none

end Utility

end Zylib.Mysqlcpp
