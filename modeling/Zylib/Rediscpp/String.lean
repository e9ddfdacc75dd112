import Zylib.Rediscpp.Store

/-! `String` of `rediscpp`: each method sends one command and tells by the type of the reply whether it returns or
    throws. What answers is a parameter: a function of its state, of the time, of the name of the command and of its
    arguments. -/

namespace Zylib.Rediscpp

/-- The name at the front of a format of `redisCommand`. -/
inductive Command where
  | SET
  | GET
  | GETRANGE
  | GETSET
  | SETEX
  | SETNX
  | SETRANGE
  | STRLEN
  | PSETEX
  | INCR
  | INCRBY
deriving DecidableEq

/-- A `redisReply`, by its type. -/
inductive Reply where
  | string (str : Bytes)
  | array
  | integer (integer : Int)
  | nil
  | status (str : Bytes)
  | error (str : Bytes)
deriving DecidableEq

def Reply.isError : Reply → Bool
  | .error _ => true
  | _ => false

inductive Exception where
  | connectionException (msg : String)
  | replyErrorException (msg : Bytes)
  | replyTypeException (msg : String)
deriving DecidableEq

/-- A connection with the server at its other end; no reply is a null pointer. -/
abbrev Server (σ : Type) := σ → Nat → Command → List Bytes → Option Reply × σ

def Command.text : Command → String
  | .SET => "SET"
  | .GET => "GET"
  | .GETRANGE => "GETRANGE"
  | .GETSET => "GETSET"
  | .SETEX => "SETEX"
  | .SETNX => "SETNX"
  | .SETRANGE => "SETRANGE"
  | .STRLEN => "STRLEN"
  | .PSETEX => "PSETEX"
  | .INCR => "INCR"
  | .INCRBY => "INCRBY"

/-! ### The replies -/

/-- The text of a `const char*` that is compared with a `std::string`. -/
def OK : Bytes := [79, 75]

/-- A reply that has to be the status "OK". -/
def statusReply (command : Command) : Option Reply → Except Exception Unit
  | none => .error (.connectionException (command.text ++ " reply null"))
  | some (.error str) => .error (.replyErrorException str)
  | some (.status str) =>
    if str.takeWhile (· ≠ 0) ≠ OK then .error (.replyTypeException (command.text ++ " type REDIS_REPLY_STATUS != OK"))
    else .ok ()
  | some _ => .error (.replyTypeException (command.text ++ " type REDIS_REPLY_STATUS"))

/-- A reply that has to be a string, or nil for the empty buffer. -/
def stringReply (command : Command) : Option Reply → Except Exception Bytes
  | none => .error (.connectionException (command.text ++ " reply null"))
  | some .nil => .ok []
  | some (.error str) => .error (.replyErrorException str)
  | some (.string str) => .ok str
  | some _ => .error (.replyTypeException (command.text ++ " type REDIS_REPLY_STRING"))

/-- A reply that has to be a string and may not be nil. -/
def nonNilStringReply (command : Command) : Option Reply → Except Exception Bytes
  | none => .error (.connectionException (command.text ++ " reply null"))
  | some (.error str) => .error (.replyErrorException str)
  | some (.string str) => .ok str
  | some _ => .error (.replyTypeException (command.text ++ " type REDIS_REPLY_STRING"))

/-- A reply that has to be an integer. -/
def integerReply (command : Command) : Option Reply → Except Exception Int
  | none => .error (.connectionException (command.text ++ " reply null"))
  | some (.error str) => .error (.replyErrorException str)
  | some (.integer integer) => .ok integer
  | some _ => .error (.replyTypeException (command.text ++ " type REDIS_REPLY_INTEGER"))

/-! ### The methods -/

section
variable {σ : Type} (redisCommand : Server σ) (s : σ) (now : Nat)

/-- What `%lld` writes. -/
def lld (n : Int64) : Bytes := printfD 0 n.toInt

def SET (key value : Bytes) : Except Exception Unit × σ :=
  let (reply, s) := redisCommand s now .SET [key, value]
  (statusReply .SET reply, s)

def GET (key : Bytes) : Except Exception Bytes × σ :=
  let (reply, s) := redisCommand s now .GET [key]
  (stringReply .GET reply, s)

def GETRANGE (key : Bytes) (start stop : Int64) : Except Exception Unit × σ :=
  let (reply, s) := redisCommand s now .GETRANGE [key, lld start, lld stop]
  (statusReply .GETRANGE reply, s)

def GETSET (key value : Bytes) : Except Exception Bytes × σ :=
  let (reply, s) := redisCommand s now .GETSET [key, value]
  (stringReply .GETSET reply, s)

def SETEX (key : Bytes) (timeout : Int64) (value : Bytes) : Except Exception Bytes × σ :=
  let (reply, s) := redisCommand s now .SETEX [key, lld timeout, value]
  (stringReply .SETEX reply, s)

def SETNX (key value : Bytes) : Except Exception Bool × σ :=
  let (reply, s) := redisCommand s now .SETNX [key, value]
  ((integerReply .SETNX reply).map (· = 1), s)

def SETRANGE (key : Bytes) (offset : Int64) (value : Bytes) : Except Exception Bytes × σ :=
  let (reply, s) := redisCommand s now .SETRANGE [key, lld offset, value]
  (nonNilStringReply .SETRANGE reply, s)

def STRLEN (key : Bytes) : Except Exception Int × σ :=
  let (reply, s) := redisCommand s now .STRLEN [key]
  (integerReply .STRLEN reply, s)

def PSETEX (key : Bytes) (timeout : Int64) (value : Bytes) : Except Exception Unit × σ :=
  let (reply, s) := redisCommand s now .PSETEX [key, lld timeout, value]
  (statusReply .PSETEX reply, s)

def INCR (key : Bytes) : Except Exception Int × σ :=
  let (reply, s) := redisCommand s now .INCR [key]
  (integerReply .INCR reply, s)

def INCRBY (key : Bytes) (increment : Int64) : Except Exception Int × σ :=
  let (reply, s) := redisCommand s now .INCRBY [key, lld increment]
  (integerReply .INCRBY reply, s)

/-! ### Sequences of calls -/

/-- What a method returns. -/
inductive Value where
  | unit
  | buffer (data : Bytes)
  | bool (b : Bool)
  | integer (n : Int)
deriving DecidableEq

def call : Op → Except Exception Value × σ
  | .set key value => (SET redisCommand s now key value).map (·.map fun _ => .unit) id
  | .get key => (GET redisCommand s now key).map (·.map .buffer) id
  | .getset key value => (GETSET redisCommand s now key value).map (·.map .buffer) id
  | .setex key timeout value => (SETEX redisCommand s now key timeout value).map (·.map .buffer) id
  | .psetex key timeout value => (PSETEX redisCommand s now key timeout value).map (·.map fun _ => .unit) id
  | .setnx key value => (SETNX redisCommand s now key value).map (·.map .bool) id
  | .setrange key offset value => (SETRANGE redisCommand s now key offset value).map (·.map .buffer) id
  | .getrange key start stop => (GETRANGE redisCommand s now key start stop).map (·.map fun _ => .unit) id
  | .strlen key => (STRLEN redisCommand s now key).map (·.map .integer) id
  | .incr key => (INCR redisCommand s now key).map (·.map .integer) id
  | .incrby key increment => (INCRBY redisCommand s now key increment).map (·.map .integer) id

end

/-- What the calls return or throw, each made some time after the one before. -/
def calls {σ : Type} (redisCommand : Server σ) : σ → Nat → List (Nat × Op) → List (Except Exception Value)
  | _, _, [] => []
  | s, now, (elapsed, op) :: ops =>
    let (result, s) := call redisCommand s (now + elapsed) op
    result :: calls redisCommand s (now + elapsed) ops

/-! ### The documentation of redis -/

def Op.command : Op → Command
  | .set .. => .SET
  | .get .. => .GET
  | .getset .. => .GETSET
  | .setex .. => .SETEX
  | .psetex .. => .PSETEX
  | .setnx .. => .SETNX
  | .setrange .. => .SETRANGE
  | .getrange .. => .GETRANGE
  | .strlen .. => .STRLEN
  | .incr .. => .INCR
  | .incrby .. => .INCRBY

def Op.args : Op → List Bytes
  | .set key value => [key, value]
  | .get key => [key]
  | .getset key value => [key, value]
  | .setex key timeout value => [key, lld timeout, value]
  | .psetex key timeout value => [key, lld timeout, value]
  | .setnx key value => [key, value]
  | .setrange key offset value => [key, lld offset, value]
  | .getrange key start stop => [key, lld start, lld stop]
  | .strlen key => [key]
  | .incr key => [key]
  | .incrby key increment => [key, lld increment]

def Answer.reply : Answer → Reply
  | .ok => .status OK
  | .value none => .nil
  | .value (some v) => .string v
  | .integer n => .integer n

/-- What the documentation says: `view` is the map that the server keeps, of which time takes the expired entries; to a
    command it replies an error or what the map answers. -/
structure Documented {σ : Type} (redisCommand : Server σ) (view : σ → Nat → Store) : Prop where
  expire : ∀ (s : σ) {now later : Nat}, now ≤ later → view s later = (view s now).expire later
  answers : ∀ {s s' : σ} {now : Nat} {op : Op} {reply : Reply}, op.Valid →
    redisCommand s now op.command op.args = (some reply, s') → reply.isError = false →
      ∃ answer, (view s now).apply now op = some (answer, view s' now) ∧ reply = answer.reply

/-- The command that has the name and the arguments. -/
def Op.decode : Command → List Bytes → Option Op
  | .SET, [key, value] => some (.set key value)
  | .GET, [key] => some (.get key)
  | .GETSET, [key, value] => some (.getset key value)
  | .SETEX, [key, timeout, value] => (toInteger? timeout).map fun n => .setex key (Int64.ofInt n) value
  | .PSETEX, [key, timeout, value] => (toInteger? timeout).map fun n => .psetex key (Int64.ofInt n) value
  | .SETNX, [key, value] => some (.setnx key value)
  | .SETRANGE, [key, offset, value] => (toInteger? offset).map fun n => .setrange key (Int64.ofInt n) value
  | .GETRANGE, [key, start, stop] =>
    (toInteger? start).bind fun n => (toInteger? stop).map fun k => .getrange key (Int64.ofInt n) (Int64.ofInt k)
  | .STRLEN, [key] => some (.strlen key)
  | .INCR, [key] => some (.incr key)
  | .INCRBY, [key, increment] => (toInteger? increment).map fun n => .incrby key (Int64.ofInt n)
  | _, _ => none

/-- A server that keeps nothing but the map. -/
def Store.server : Server Store := fun m now command args =>
  match (Op.decode command args).bind ((m.expire now).apply now) with
  | none => (some (.error []), m)
  | some (answer, m) => (some answer.reply, m)

/-- Each call gets a reply that is no error. -/
def NoError {σ : Type} (redisCommand : Server σ) : σ → Nat → List (Nat × Op) → Prop
  | _, _, [] => True
  | s, now, (elapsed, op) :: ops =>
    (redisCommand s (now + elapsed) op.command op.args).1.map Reply.isError = some false ∧
      NoError redisCommand (redisCommand s (now + elapsed) op.command op.args).2 (now + elapsed) ops

instance decidableNoError {σ : Type} {redisCommand : Server σ} : ∀ s now ops, Decidable (NoError redisCommand s now ops)
  | _, _, [] => .isTrue trivial
  | s, now, (elapsed, op) :: ops =>
    have := @decidableNoError _ redisCommand (redisCommand s (now + elapsed) op.command op.args).2
      (now + elapsed) ops
    inferInstanceAs (Decidable (_ ∧ _))

/-- What a method has to return for an answer. -/
def Op.returned : Op → Answer → Value
  | .setnx .., .integer n => .bool (n = 1)
  | .getrange .., _ => .unit
  | _, .ok => .unit
  | _, .value v => .buffer (v.getD [])
  | _, .integer n => .integer n

/-- What the calls have to return. -/
def Store.calls : Store → Nat → List (Nat × Op) → Option (List Value)
  | _, _, [] => some []
  | m, now, (elapsed, op) :: ops =>
    match (m.expire (now + elapsed)).apply (now + elapsed) op with
    | none => none
    | some (answer, m) => (Store.calls m (now + elapsed) ops).map (op.returned answer :: ·)

end Zylib.Rediscpp
