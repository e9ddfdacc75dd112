import Zylib.Rediscpp.Buffer
import Zylib.Rediscpp.String

/-! `DEL` of `rediscpp`: the one command that is put together as a text, which `redisCommand` takes for its format. -/

namespace Zylib.Rediscpp

/-! ### The format -/

/-- What `redisCommand` makes of a format that comes with no arguments. -/
inductive Formatted where
  | send (argv : List Bytes)
  | reject
  | missingArgument
deriving DecidableEq

/-- What the documentation of `hiredis` leaves open: whether a `'%'` that ends the whole format stands for itself, and what
    becomes of the other directives, which are all rejected or take an argument. -/
structure Hiredis where
  lone : Bool
  takesArgument : Bytes → Bool

namespace Hiredis
variable (hiredis : Hiredis)

/-- The arguments of a format: spaces part them, and `current` is the one that has been begun. -/
def scan : Bytes → Option Bytes → Formatted
  | [], current => .send current.toList
  | [37], current => if hiredis.lone then .send [current.getD [] ++ [37]] else .reject
  | 37 :: 37 :: format, current => scan format (some (current.getD [] ++ [37]))
  | 37 :: directive, _ => if hiredis.takesArgument directive then .missingArgument else .reject
  | 32 :: format, current =>
    match scan format none with
    | .send argv => .send (current.toList ++ argv)
    | failed => failed
  | b :: format, current => scan format (some (current.getD [] ++ [b]))

/-- The format is a C string. -/
def format (str : Bytes) : Formatted := scan hiredis (str.takeWhile (· ≠ 0)) none

end Hiredis

/-! ### The command -/

/-- `cmd`, the format that the keys are written into. -/
def cmd (keys : List Buffer) : Bytes := [68, 69, 76, 32] ++ keys.flatMap fun it => 32 :: it.asString

def delReply : Option Reply → Except Exception Int
  | none => .error (.connectionException "DEL reply null")
  | some (.error str) => .error (.replyErrorException str)
  | some (.integer integer) => .ok integer
  | some _ => .error (.replyTypeException "DEL type REDIS_REPLY_INTEGER")

section
variable (hiredis : Hiredis) (server : List Bytes → Option Reply)

/-- `DEL(Connection&, std::vector<Buffer>)`: what it returns or throws, if that is defined, and what it sends. -/
def delBuffers (keys : List Buffer) : Option (Except Exception Int) × Option (List Bytes) :=
  if keys.isEmpty then (some (.ok 0), none)
  else
    match hiredis.format (cmd keys) with
    | .send argv => (some (delReply (server argv)), some argv)
    | .reject => (some (delReply none), none)
    | .missingArgument => (none, none)

def delBuffer (key : Buffer) : Option (Except Exception Int) × Option (List Bytes) :=
  delBuffers hiredis server [key]

def delStrings (keys : List Bytes) : Option (Except Exception Int) × Option (List Bytes) :=
  delBuffers hiredis server (keys.map .ofString)

def delString (key : Bytes) : Option (Except Exception Int) × Option (List Bytes) :=
  delStrings hiredis server [key]

/-- The keys of a call of one of the overloads. -/
inductive DelKeys where
  | buffers (keys : List Buffer)
  | buffer (key : Buffer)
  | strings (keys : List Bytes)
  | string (key : Bytes)

def DEL : DelKeys → Option (Except Exception Int) × Option (List Bytes)
  | .buffers keys => delBuffers hiredis server keys
  | .buffer key => delBuffer hiredis server key
  | .strings keys => delStrings hiredis server keys
  | .string key => delString hiredis server key

end

def DelKeys.bytes : DelKeys → List Bytes
  | .buffers keys => keys.map (·.data)
  | .buffer key => [key.data]
  | .strings keys => keys
  | .string key => [key]

/-! ### What the format leaves as it is -/

/-- Every `'%'` of the text stands for itself. -/
def Hiredis.Literal (hiredis : Hiredis) : Bytes → Prop
  | [] => True
  | b :: rest => (b = 37 → hiredis.lone = true ∧ rest = []) ∧ Hiredis.Literal hiredis rest

/-- No byte of the text is one that `redisCommand` takes for more than itself. -/
def Hiredis.Plain (hiredis : Hiredis) (text : Bytes) : Prop :=
  (∀ b ∈ text, b ≠ 32 ∧ b ≠ 0) ∧ hiredis.Literal text

end Zylib.Rediscpp
