import Zylib.GameServer.UserScripts
import Mathlib.Data.List.Perm.Basic

/-! What the user scripts do to the three kinds of hashes: `save_user.lua` may leave out pairs, `try_remove.lua` and the
    queries of `get_tm.lua` decide alike. -/

namespace Zylib.GameServer.Redis

open HashStore

variable {db : Redis} {userid tm key : Bytes} {es : List (Bytes × Bytes)}

/-! ### Keys -/

theorem userTmKey_ne_userTmSaveKey : userTmKey ≠ userTmSaveKey := by decide

theorem take_userKey (userid : Bytes) : (userKey userid).take 5 = literal "user:" :=
  List.take_left' (by decide)

theorem userKey_ne_userTmKey : userKey userid ≠ userTmKey := by
  intro h
  have htake := take_userKey userid
  rw [h] at htake
  revert htake
  decide

theorem userKey_ne_userTmSaveKey : userKey userid ≠ userTmSaveKey := by
  intro h
  have htake := take_userKey userid
  rw [h] at htake
  revert htake
  decide

theorem userKey_inj {userid' : Bytes} : userKey userid = userKey userid' ↔ userid = userid' :=
  List.append_right_inj _

/-! ### save_user -/

theorem getElem?_flatten_even (es : List (Bytes × Bytes)) (n : Nat) : (flatten es)[2 * n]? = es[n]?.map Prod.fst := by
  induction es generalizing n with
  | nil => rfl
  | cons e es ih =>
    cases n with
    | zero => rfl
    | succ n => exact ih n

theorem getElem?_flatten_odd (es : List (Bytes × Bytes)) (n : Nat) : (flatten es)[2 * n + 1]? = es[n]?.map Prod.snd := by
  induction es generalizing n with
  | nil => rfl
  | cons e es ih =>
    cases n with
    | zero => rfl
    | succ n => exact ih n

/-- A turn of the loop stores the pair at its place, if there is one. -/
theorem saveField_flatten (n : Nat) :
    saveField key (flatten es) db (1 + 2 * n) = db.hsetAll key es[n]?.toList := by
  have hfield : (flatten es)[1 + 2 * n - 1]? = es[n]?.map Prod.fst := by
    rw [Nat.add_sub_cancel_left, getElem?_flatten_even]
  have hvalue : (flatten es)[1 + 2 * n]? = es[n]?.map Prod.snd := by
    rw [Nat.add_comm, getElem?_flatten_odd]
  unfold saveField
  rw [hfield, hvalue]
  cases es[n]? <;> rfl

/-- So many turns of the loop store so many pairs. -/
theorem foldl_saveField (n : Nat) :
    (List.range' 1 n 2).foldl (saveField key (flatten es)) db = db.hsetAll key (es.take n) := by
  induction n with
  | zero => rfl
  | succ n ih =>
    rw [List.range'_concat, List.foldl_concat, ih, saveField_flatten, List.take_add_one, hsetAll, hsetAll, hsetAll,
      List.foldl_append]

/-- The pairs that the loop comes to, by the length of the first field. -/
def savedPairs (es : List (Bytes × Bytes)) : List (Bytes × Bytes) :=
  match es with
  | [] => []
  | e :: _ => es.take ((e.1.length + 1) / 2)

theorem saveUser_flatten (e : Bytes × Bytes) : db.saveUser userid tm (flatten (e :: es)) =
    .ok ((db.hset userTmKey userid tm).hsetAll (userKey userid) (savedPairs (e :: es)), 1) := by
  rw [savedPairs, ← foldl_saveField]
  rfl

/-- The hashes after `save_user.lua`. -/
theorem hget_saveUser {e : Bytes × Bytes} {db' : Redis} {n : Int}
    (h : db.saveUser userid tm (flatten (e :: es)) = .ok (db', n)) (field : Bytes) :
    db'.hget key field =
      if key = userKey userid then (lastValue (savedPairs (e :: es)) field).or (db.hget key field)
      else if key = userTmKey ∧ field = userid then some tm else db.hget key field := by
  rw [saveUser_flatten] at h
  cases h
  rw [hget_hsetAll]
  split_ifs with hkey htm
  · rw [hkey, hget_hset_of_key_ne userKey_ne_userTmKey]
  · rw [hget_hset, if_pos htm]
  · rw [hget_hset, if_neg htm]

/-- The script stores everything that it is given, and changes no other field. -/
def SavesAll (db : Redis) (userid tm : Bytes) (es : List (Bytes × Bytes)) : Prop :=
  ∃ db', db.saveUser userid tm (flatten es) = .ok (db', 1) ∧
    (∀ e ∈ es, db'.hget (userKey userid) e.1 = lastValue es e.1) ∧
    (∀ field, field ∉ es.map Prod.fst → db'.hget (userKey userid) field = db.hget (userKey userid) field) ∧
    (∀ userid', userid' ≠ userid → ∀ field, db'.hget (userKey userid') field = db.hget (userKey userid') field) ∧
    db'.hget userTmKey userid = some tm

theorem mem_of_mem_savedPairs {e : Bytes × Bytes} (h : e ∈ savedPairs es) : e ∈ es := by
  cases es with
  | nil => exact h
  | cons e' es => exact List.mem_of_mem_take h

/-- The pairs of a reply. -/
def pairs : List Bytes → List (Bytes × Bytes)
  | userid :: tm :: ret => (userid, tm) :: pairs ret
  | _ => []

theorem pairs_flatten (es : List (Bytes × Bytes)) : pairs (flatten es) = es := by
  induction es with
  | nil => rfl
  | cons e es ih => exact congrArg (e :: ·) ih

theorem selectTm_flatten {cond : Option Bytes → Bytes → Prop} [∀ tm_save tm, Decidable (cond tm_save tm)] :
    selectTm cond db (flatten es) = flatten (es.filter fun e => cond (db.hget userTmSaveKey e.1) e.2) := by
  induction es with
  | nil => rfl
  | cons e es ih =>
    have hcons : flatten (e :: es) = e.1 :: e.2 :: flatten es := rfl
    rw [hcons, selectTm, ih]
    by_cases h : cond (db.hget userTmSaveKey e.1) e.2
    · rw [if_pos h, List.filter_cons_of_pos (by simpa using h)]
      rfl
    · rw [if_neg h, List.filter_cons_of_neg (by simpa using h)]

theorem unsaved_iff {tm_save : Option Bytes} : Unsaved tm_save tm ↔ ¬ Saved tm_save tm := by
  cases tm_save with
  | none => simp [Unsaved, Saved]
  | some tm_save => exact not_congr eq_comm

theorem saved_iff {tm_save : Option Bytes} : Saved tm_save tm ↔ tm_save = some tm := by
  cases tm_save with
  | none => simp [Saved]
  | some tm_save => simp [Saved, eq_comm]

theorem pairs_getTm_zero (db : Redis) :
    pairs (db.getTm 0) = (db.hgetall userTmKey).filter fun e => Saved (db.hget userTmSaveKey e.1) e.2 := by
  rw [getTm, if_pos rfl, selectTm_flatten, pairs_flatten]

theorem pairs_getTm_one (db : Redis) :
    pairs (db.getTm 1) = (db.hgetall userTmKey).filter fun e => Unsaved (db.hget userTmSaveKey e.1) e.2 := by
  rw [getTm, if_neg (by decide), if_pos rfl, selectTm_flatten, pairs_flatten]

theorem pairs_getTm_two (db : Redis) : pairs (db.getTm 2) = db.hgetall userTmKey := by
  rw [getTm, if_neg (by decide), if_neg (by decide), if_pos rfl, pairs_flatten]

/-- The queries of type 0 and 1 divide what the query of type 2 gives. -/
def TypesDivide (db : Redis) : Prop :=
  (pairs (db.getTm 0)).Disjoint (pairs (db.getTm 1)) ∧
    (pairs (db.getTm 0) ++ pairs (db.getTm 1)).Perm (pairs (db.getTm 2))

theorem typesDivide (db : Redis) : TypesDivide db := by
  unfold TypesDivide
  rw [pairs_getTm_zero, pairs_getTm_one, pairs_getTm_two]
  constructor
  · intro e h0 h1
    have hsaved := of_decide_eq_true (List.mem_filter.mp h0).2
    have hunsaved := of_decide_eq_true (List.mem_filter.mp h1).2
    exact unsaved_iff.mp hunsaved hsaved
  · have hnot : (fun e : Bytes × Bytes => decide (Unsaved (db.hget userTmSaveKey e.1) e.2)) =
        fun e => !decide (Saved (db.hget userTmSaveKey e.1) e.2) := by
      funext e
      rw [← decide_not]
      exact decide_eq_decide.mpr unsaved_iff
    rw [hnot]
    exact List.filter_append_perm _ _

/-! ### try_remove -/

/-- The user is in the reply of type 0. -/
def Removable (db : Redis) (userid : Bytes) : Prop := userid ∈ (pairs (db.getTm 0)).map Prod.fst

theorem removable_iff : Removable db userid ↔
    ∃ tm, db.hget userTmKey userid = some tm ∧ db.hget userTmSaveKey userid = some tm := by
  unfold Removable
  rw [pairs_getTm_zero, List.mem_map]
  constructor
  · rintro ⟨e, he, rfl⟩
    obtain ⟨hmem, hsaved⟩ := List.mem_filter.mp he
    exact ⟨e.2, mem_hgetall.mp hmem, saved_iff.mp (of_decide_eq_true hsaved)⟩
  · rintro ⟨tm, htm, hsave⟩
    exact ⟨(userid, tm), List.mem_filter.mpr ⟨mem_hgetall.mpr htm, decide_eq_true (saved_iff.mpr hsave)⟩, rfl⟩

theorem tryRemove_of_removable (h : Removable db userid) : db.tryRemove userid =
    (((db.hdel userTmKey userid).hdel userTmSaveKey userid).del (userKey userid), 1) := by
  obtain ⟨tm, htm, hsave⟩ := removable_iff.mp h
  unfold tryRemove
  rw [htm, hsave]
  exact if_pos rfl

theorem tryRemove_of_not_removable (h : ¬ Removable db userid) : db.tryRemove userid = (db, 0) := by
  unfold tryRemove
  cases htm : db.hget userTmKey userid with
  | none => rfl
  | some user_tm =>
    cases hsave : db.hget userTmSaveKey userid with
    | none => rfl
    | some user_tm_save =>
      refine if_neg fun heq => h (removable_iff.mpr ⟨user_tm, htm, ?_⟩)
      rw [hsave, heq]

/-- From one database to the other exactly the entries of the user in the hashes of timestamps and the hash of the user are
    gone. -/
def Removes (db db' : Redis) (userid : Bytes) : Prop :=
  ∀ key field, db'.hget key field =
    if (key = userTmKey ∨ key = userTmSaveKey) ∧ field = userid ∨ key = userKey userid then none else db.hget key field

theorem tryRemove_removes (h : Removable db userid) : Removes db (db.tryRemove userid).1 userid := by
  intro key field
  rw [tryRemove_of_removable h, hget_del, hget_hdel, hget_hdel]
  split_ifs <;> tauto

/-- `try_remove.lua` answers 1 exactly for the users of the reply of type 0, and it removes these only. -/
def RemovesAsQueried (db : Redis) (userid : Bytes) : Prop :=
  ((db.tryRemove userid).2 = 1 ↔ Removable db userid) ∧
    (Removable db userid → Removes db (db.tryRemove userid).1 userid) ∧
    (¬ Removable db userid → (db.tryRemove userid).1 = db)

theorem removesAsQueried (db : Redis) (userid : Bytes) : RemovesAsQueried db userid := by
  refine ⟨⟨fun hone => ?_, fun h => ?_⟩, tryRemove_removes, fun h => ?_⟩
  · by_contra h
    rw [tryRemove_of_not_removable h] at hone
    simp at hone
  · rw [tryRemove_of_removable h]
  · rw [tryRemove_of_not_removable h]

/-! ### Runs -/

/-- The timestamp of the last update of a user: that of the last `save_user.lua`, or the first entry in `user_tm`. -/
def lastUpdate (db : Redis) (userid : Bytes) (actions : List Action) : Option Bytes :=
  actions.foldl (fun last a =>
    match a with
    | .saveUser userid' tm (_ :: _) => if userid' = userid then some tm else last
    | _ => last) (db.hget userTmKey userid)

/-- A step takes away the user's entry in `user_tm` or data of the user. -/
def Evicts (db : Redis) (a : Action) (userid : Bytes) : Prop :=
  (db.hget userTmKey userid ≠ none ∧ (db.act a).hget userTmKey userid = none) ∨
    ∃ field, db.hget (userKey userid) field ≠ none ∧ (db.act a).hget (userKey userid) field = none

/-! For `save_user.lua` with arguments that need not be pairs. -/

theorem hget_saveField_of_ne {key' field : Bytes} {argv : List Bytes} {i : Nat} (h : key' ≠ key) :
    (saveField key argv db i).hget key' field = db.hget key' field := by
  unfold saveField
  split
  · exact hget_hset_of_key_ne h
  · rfl

theorem hget_saveField_ne_none {key' field : Bytes} {argv : List Bytes} {i : Nat} (h : db.hget key' field ≠ none) :
    (saveField key argv db i).hget key' field ≠ none := by
  unfold saveField
  split
  · rw [hget_hset]
    split_ifs
    · exact Option.some_ne_none _
    · exact h
  · exact h

theorem hget_foldl_saveField_of_ne {key' field : Bytes} {argv : List Bytes} (is : List Nat) (h : key' ≠ key) :
    (is.foldl (saveField key argv) db).hget key' field = db.hget key' field := by
  induction is generalizing db with
  | nil => rfl
  | cons i is ih => exact ih.trans (hget_saveField_of_ne h)

theorem hget_foldl_saveField_ne_none {key' field : Bytes} {argv : List Bytes} (is : List Nat)
    (h : db.hget key' field ≠ none) : (is.foldl (saveField key argv) db).hget key' field ≠ none := by
  induction is generalizing db with
  | nil => exact h
  | cons i is ih => exact ih (hget_saveField_ne_none h)

theorem hget_userTm_act_saveUser {userid' argv1 : Bytes} {argv : List Bytes} :
    (db.act (.saveUser userid' tm (argv1 :: argv))).hget userTmKey userid =
      if userid = userid' then some tm else db.hget userTmKey userid := by
  rw [act, saveUser]
  dsimp only
  rw [hget_foldl_saveField_of_ne _ userKey_ne_userTmKey.symm, hget_hset]
  simp only [true_and]

theorem hget_act_saveUser_ne_none {userid' field : Bytes} {argv : List Bytes} (h : db.hget key field ≠ none) :
    (db.act (.saveUser userid' tm argv)).hget key field ≠ none := by
  cases argv with
  | nil => exact h
  | cons argv1 argv =>
    refine hget_foldl_saveField_ne_none _ ?_
    rw [hget_hset]
    split_ifs
    · exact Option.some_ne_none _
    · exact h

/-- A timestamp that `user_tm` has for a user is that of the last update. -/
theorem hget_userTm_act {a : Action} {actions : List Action} {db₀ : Redis}
    (hlast : ∀ tm, db.hget userTmKey userid = some tm → lastUpdate db₀ userid actions = some tm)
    (htm : (db.act a).hget userTmKey userid = some tm) : lastUpdate db₀ userid (actions ++ [a]) = some tm := by
  rw [lastUpdate, List.foldl_concat, ← lastUpdate]
  cases a with
  | saveUser userid' tm' argv =>
    cases argv with
    | nil => exact hlast tm htm
    | cons argv1 argv =>
      rw [hget_userTm_act_saveUser] at htm
      by_cases h : userid = userid'
      · rw [if_pos h] at htm
        exact (if_pos h.symm).trans htm
      · rw [if_neg h] at htm
        exact (if_neg (Ne.symm h)).trans (hlast tm htm)
  | tryRemove userid' =>
    refine hlast tm ?_
    by_cases h : Removable db userid'
    · rw [act, tryRemove_removes h] at htm
      split_ifs at htm
      exact htm
    · rwa [act, tryRemove_of_not_removable h] at htm
  | writeTmSave hash =>
    rw [act, hget_setHash, if_neg userTmKey_ne_userTmSaveKey] at htm
    exact hlast tm htm

theorem hget_userTm_run {actions : List Action} {db₀ : Redis} (tm : Bytes)
    (htm : (actions.foldl act db₀).hget userTmKey userid = some tm) : lastUpdate db₀ userid actions = some tm := by
  induction actions using List.reverseRecOn generalizing tm with
  | nil => exact htm
  | append_singleton actions a ih =>
    rw [List.foldl_concat] at htm
    exact hget_userTm_act ih htm

/-- Only `try_remove.lua` for the user itself evicts, and only a user of the reply of type 0. -/
theorem removable_of_evicts {a : Action} (h : Evicts db a userid) : Removable db userid := by
  cases a with
  | saveUser userid' tm argv =>
    rcases h with ⟨hget, hnone⟩ | ⟨field, hget, hnone⟩
    · exact absurd hnone (hget_act_saveUser_ne_none hget)
    · exact absurd hnone (hget_act_saveUser_ne_none hget)
  | tryRemove userid' =>
    by_cases hr : Removable db userid'
    · suffices heq : userid = userid' by rwa [heq]
      by_contra hne
      rcases h with ⟨hget, hnone⟩ | ⟨field, hget, hnone⟩
      · rw [act, tryRemove_removes hr, if_neg] at hnone
        · exact hget hnone
        · rintro (⟨-, h⟩ | h)
          · exact hne h
          · exact userKey_ne_userTmKey h.symm
      · rw [act, tryRemove_removes hr, if_neg] at hnone
        · exact hget hnone
        · rintro (⟨h | h, -⟩ | h)
          · exact userKey_ne_userTmKey h
          · exact userKey_ne_userTmSaveKey h
          · exact hne (userKey_inj.mp h)
    · rw [Evicts, act, tryRemove_of_not_removable hr] at h
      rcases h with ⟨hget, hnone⟩ | ⟨field, hget, hnone⟩ <;> exact absurd hnone hget
  | writeTmSave hash =>
    rcases h with ⟨hget, hnone⟩ | ⟨field, hget, hnone⟩
    · rw [act, hget_setHash, if_neg userTmKey_ne_userTmSaveKey] at hnone
      exact absurd hnone hget
    · rw [act, hget_setHash, if_neg userKey_ne_userTmSaveKey] at hnone
      exact absurd hnone hget

/-- A user whose last update is not the saved one is not evicted in any run from the database. -/
def EvictsSaved (db : Redis) : Prop := ∀ (actions : List Action) (a : Action) (userid : Bytes),
  (actions.foldl act db).hget userTmSaveKey userid ≠ lastUpdate db userid actions →
    ¬ Evicts (actions.foldl act db) a userid

theorem evictsSaved (db : Redis) : EvictsSaved db := by
  intro actions a userid hne h
  obtain ⟨tm, htm, hsave⟩ := removable_iff.mp (removable_of_evicts h)
  exact hne (hsave.trans (hget_userTm_run tm htm).symm)

example : Evicts ([Action.saveUser (literal "1001") (literal "15") [literal "a", literal "1"],
    .writeTmSave (AList.singleton (literal "1001") (literal "15"))].foldl act ⟨fun _ => ∅⟩)
    (.tryRemove (literal "1001")) (literal "1001") := Or.inl (by decide)

end Zylib.GameServer.Redis
