import Zylib.GameServer.Redis

/-! The scripts under `account`: an account is bound to a userid, and a userid to the password. -/

namespace Zylib.GameServer.Redis

def accountKey : Bytes := literal "account"

def accountPwdKey : Bytes := literal "account_pwd"

/-- `bind_account.lua`, with its three `KEYS`. -/
def bindAccount (db : Redis) (keys1 keys2 _keys3 : Bytes) : Redis × Int :=
  let userid := keys1
  let account := keys2
  let account_password := keys2
  ((db.hset accountKey account userid).hset accountPwdKey userid account_password, 1)

/-- `get_password_userid.lua`. -/
def getPasswordUserid (db : Redis) (account : Bytes) : List LuaValue :=
  match db.hget accountKey account with
  | none => [.string [], .number 0]
  | some userid =>
    match db.hget accountPwdKey userid with
    | none => [.string [], .number 0]
    | some password => [.string password, .string userid]

end Zylib.GameServer.Redis
