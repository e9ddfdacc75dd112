import Zylib.GameServer.Redis

/-! The scripts under `user`. The hash `user_tm` has for each user the timestamp of the last update, `user_tm_save` that
    of the update that was last saved elsewhere, and the hash of the user itself the data. -/

namespace Zylib.GameServer.Redis

def userTmKey : Bytes := literal "user_tm"

def userTmSaveKey : Bytes := literal "user_tm_save"

/-- `string.format("user:%s", userid)`, where Lua 5.1 does not take a string with a zero in it for `%s`. -/
def userKey (userid : Bytes) : Bytes := literal "user:" ++ userid

/-! ### save_user.lua -/

/-- The body of the loop. `ARGV` starts at 1. -/
def saveField (key : Bytes) (argv : List Bytes) (db : Redis) (i : Nat) : Redis :=
  match argv[i - 1]?, argv[i]? with
  | some field, some value => db.hset key field value
  | _, _ => db

/-- The script. The length `#ARGV[1]` is that of a string, and so never less than 0; `ARGV[1]` is nil if there is none. -/
def saveUser (db : Redis) (userid tm : Bytes) (argv : List Bytes) : Except LuaError (Redis × Int) :=
  match argv with
  | [] => .error .lengthOfNil
  | argv1 :: _ =>
    let argv_len := argv1.length
    let db := db.hset userTmKey userid tm
    .ok ((List.range' 1 ((argv_len + 1) / 2) 2).foldl (saveField (userKey userid) argv) db, 1)

/-! ### get_tm.lua -/

/-- The loop over what `HGETALL` of `user_tm` gives, for one of the conditions on `tm_save` and `tm`. -/
def selectTm (cond : Option Bytes → Bytes → Prop) [∀ tm_save tm, Decidable (cond tm_save tm)] (db : Redis) :
    List Bytes → List Bytes
  | userid :: tm :: all_tm =>
    if cond (db.hget userTmSaveKey userid) tm then userid :: tm :: selectTm cond db all_tm else selectTm cond db all_tm
  | _ => []

/-- `tm_save and tm == tm_save`. -/
def Saved (tm_save : Option Bytes) (tm : Bytes) : Prop :=
  match tm_save with
  | some tm_save => tm = tm_save
  | none => False

/-- `not tm_save or tm_save ~= tm`. -/
def Unsaved (tm_save : Option Bytes) (tm : Bytes) : Prop :=
  match tm_save with
  | none => True
  | some tm_save => tm_save ≠ tm

instance (tm_save : Option Bytes) (tm : Bytes) : Decidable (Saved tm_save tm) :=
  match tm_save with
  | some tm_save => inferInstanceAs (Decidable (tm = tm_save))
  | none => inferInstanceAs (Decidable False)

instance (tm_save : Option Bytes) (tm : Bytes) : Decidable (Unsaved tm_save tm) :=
  match tm_save with
  | none => inferInstanceAs (Decidable True)
  | some tm_save => inferInstanceAs (Decidable (tm_save ≠ tm))

/-- The list of fields and values that Lua gets for a hash. -/
def flatten (es : List (Bytes × Bytes)) : List Bytes := es.flatMap fun e => [e.1, e.2]

/-- The script. `tm_type` is the number that `tonumber(KEYS[1])` gives. -/
def getTm (db : Redis) (tm_type : Int) : List Bytes :=
  let all_tm := flatten (db.hgetall userTmKey)
  if tm_type = 0 then selectTm Saved db all_tm
  else if tm_type = 1 then selectTm Unsaved db all_tm
  else if tm_type = 2 then all_tm
  else []

/-! ### try_remove.lua -/

def tryRemove (db : Redis) (userid : Bytes) : Redis × Int :=
  match db.hget userTmKey userid with
  | none => (db, 0)
  | some user_tm =>
    match db.hget userTmSaveKey userid with
    | none => (db, 0)
    | some user_tm_save =>
      if user_tm = user_tm_save then
        (((db.hdel userTmKey userid).hdel userTmSaveKey userid).del (userKey userid), 1)
      else (db, 0)

/-! ### Runs -/

inductive Action where
  | saveUser (userid tm : Bytes) (argv : List Bytes)
  | tryRemove (userid : Bytes)
  /-- Someone else writes `user_tm_save`. -/
  | writeTmSave (hash : AList fun _ : Bytes => Bytes)

/-- A script that fails has not changed anything: the error comes before the first write. -/
def act (db : Redis) : Action → Redis
  | .saveUser userid tm argv =>
    match db.saveUser userid tm argv with
    | .ok (db, _) => db
    | .error _ => db
  | .tryRemove userid => (db.tryRemove userid).1
  | .writeTmSave hash => db.setHash userTmSaveKey hash

end Zylib.GameServer.Redis
