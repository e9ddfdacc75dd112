import Zylib.GameServer.AccountScripts

/-! An account's password and userid can be read after they were bound exactly if the password is the account. -/

namespace Zylib.GameServer.Redis

open HashStore

variable {db : Redis} {userid account password account' : Bytes}

theorem accountKey_ne_accountPwdKey : accountKey ≠ accountPwdKey := by decide

theorem hget_account_bindAccount : (db.bindAccount userid account password).1.hget accountKey account' =
    if account' = account then some userid else db.hget accountKey account' := by
  rw [bindAccount, hget_hset_of_key_ne accountKey_ne_accountPwdKey, hget_hset]
  simp

/-- The second key is read twice. -/
theorem hget_pwd_bindAccount {userid' : Bytes} : (db.bindAccount userid account password).1.hget accountPwdKey userid' =
    if userid' = userid then some account else db.hget accountPwdKey userid' := by
  rw [bindAccount, hget_hset, hget_hset_of_key_ne accountKey_ne_accountPwdKey.symm]
  simp

theorem getPasswordUserid_bindAccount :
    getPasswordUserid (db.bindAccount userid account password).1 account = [.string account, .string userid] := by
  simp [getPasswordUserid, hget_account_bindAccount, hget_pwd_bindAccount]

/-- Two accounts of different users do not meet in either of the hashes. -/
theorem getPasswordUserid_bindAccount_of_ne {userid' : Bytes} (ha : account' ≠ account)
    (hu : db.hget accountKey account' = some userid') (hne : userid' ≠ userid) :
    getPasswordUserid (db.bindAccount userid account password).1 account' = getPasswordUserid db account' := by
  unfold getPasswordUserid
  rw [hget_account_bindAccount, if_neg ha, hu]
  dsimp only
  rw [hget_pwd_bindAccount, if_neg hne]

/-- What was bound is read, and the other accounts of other users read as before. -/
def BindReads (db : Redis) (userid account password : Bytes) : Prop :=
  let db' := (db.bindAccount userid account password).1
  getPasswordUserid db' account = [.string password, .string userid] ∧
    ∀ account' userid', account' ≠ account → db.hget accountKey account' = some userid' → userid' ≠ userid →
      getPasswordUserid db' account' = getPasswordUserid db account'

theorem bindReads_iff (db : Redis) (userid account password : Bytes) :
    BindReads db userid account password ↔ password = account := by
  unfold BindReads
  dsimp only
  rw [getPasswordUserid_bindAccount]
  constructor
  · rintro ⟨h, -⟩
    simpa using h.symm
  · rintro rfl
    exact ⟨rfl, fun account' userid' ha hu hne => getPasswordUserid_bindAccount_of_ne ha hu hne⟩

theorem not_bindReads : ¬ ∀ (db : Redis) (userid account password : Bytes), BindReads db userid account password := by
  intro h
  have hread := (h ⟨fun _ => ∅⟩ (literal "1001") (literal "alice") (literal "secret")).1
  revert hread
  decide

end Zylib.GameServer.Redis
