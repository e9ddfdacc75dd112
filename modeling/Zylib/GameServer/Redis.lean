import Zylib.Lib.HashStore
import Zylib.Cpp

/-! The database of redis as the Lua scripts of `conf/script/redis/game` use it: hashes only. `HGET` of a missing field
    is `false` in Lua, here `none`. -/

namespace Zylib.GameServer

abbrev Redis := HashStore Bytes Bytes Bytes

/-- A string literal of a script. -/
def literal (s : String) : Bytes := s.toUTF8.data.toList

/-- A value in the reply of a script. -/
inductive LuaValue where
  | string (s : Bytes)
  | number (n : Int)
deriving DecidableEq

/-- The length of `nil` ends a script. -/
inductive LuaError where
  | lengthOfNil
deriving DecidableEq

end Zylib.GameServer
