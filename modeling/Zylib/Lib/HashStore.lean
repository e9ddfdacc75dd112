import Mathlib.Data.List.AList
import Mathlib.Data.List.Induction

/-! Stores of hashes: each key holds a finite map from fields to values, and a key that is not there an empty one. -/

structure HashStore (K F V : Type*) where
  hash : K → AList fun _ : F => V

namespace HashStore

variable {K F V : Type*} [DecidableEq K] [DecidableEq F]

def hget (db : HashStore K F V) (key : K) (field : F) : Option V := (db.hash key).lookup field

def hgetall (db : HashStore K F V) (key : K) : List (F × V) := (db.hash key).entries.map fun e => (e.1, e.2)

/-- Another hash for a key. -/
def setHash (db : HashStore K F V) (key : K) (hash : AList fun _ : F => V) : HashStore K F V :=
  ⟨Function.update db.hash key hash⟩

def hset (db : HashStore K F V) (key : K) (field : F) (value : V) : HashStore K F V :=
  db.setHash key ((db.hash key).insert field value)

def hdel (db : HashStore K F V) (key : K) (field : F) : HashStore K F V := db.setHash key ((db.hash key).erase field)

def del (db : HashStore K F V) (key : K) : HashStore K F V := db.setHash key ∅

/-- The value of the last pair of a field. -/
def lastValue (es : List (F × V)) (field : F) : Option V := es.reverse.lookup field

def hsetAll (db : HashStore K F V) (key : K) (es : List (F × V)) : HashStore K F V :=
  es.foldl (fun db e => db.hset key e.1 e.2) db

variable {db : HashStore K F V} {key key' : K} {field field' : F} {value : V} {es : List (F × V)}

/-! ### Reading after writing -/

theorem hget_setHash {hash : AList fun _ : F => V} :
    (db.setHash key hash).hget key' field = if key' = key then hash.lookup field else db.hget key' field := by
  simp only [hget, setHash]
  by_cases hk : key' = key
  · subst hk
    rw [if_pos rfl, Function.update_self]
  · rw [if_neg hk, Function.update_of_ne hk]

theorem hget_hset : (db.hset key field value).hget key' field' =
    if key' = key ∧ field' = field then some value else db.hget key' field' := by
  rw [hset, hget_setHash, ite_and]
  by_cases hk : key' = key
  · subst hk
    rw [if_pos rfl, if_pos rfl]
    by_cases hf : field' = field
    · rw [if_pos hf, hf, AList.lookup_insert]
    · rw [if_neg hf, AList.lookup_insert_ne hf, hget]
  · rw [if_neg hk, if_neg hk]

theorem hget_hdel : (db.hdel key field).hget key' field' =
    if key' = key ∧ field' = field then none else db.hget key' field' := by
  rw [hdel, hget_setHash, ite_and]
  by_cases hk : key' = key
  · subst hk
    rw [if_pos rfl, if_pos rfl]
    by_cases hf : field' = field
    · rw [if_pos hf, hf, AList.lookup_erase]
    · rw [if_neg hf, AList.lookup_erase_ne hf, hget]
  · rw [if_neg hk, if_neg hk]

theorem hget_del : (db.del key).hget key' field = if key' = key then none else db.hget key' field := by
  rw [del, hget_setHash, AList.lookup_empty]

theorem hget_hset_of_key_ne (h : key' ≠ key) : (db.hset key field value).hget key' field' = db.hget key' field' := by
  rw [hget_hset, if_neg fun hk => h hk.1]

/-! ### The pairs of a hash -/

omit [DecidableEq K] in
theorem mem_hgetall : (field, value) ∈ db.hgetall key ↔ db.hget key field = some value := by
  unfold hgetall hget
  rw [← Option.mem_def, AList.mem_lookup_iff, List.mem_map]
  constructor
  · rintro ⟨⟨f, v⟩, he, hfv⟩
    cases hfv
    exact he
  · exact fun h => ⟨⟨field, value⟩, h, rfl⟩

/-! ### Several pairs -/

theorem lastValue_concat (e : F × V) :
    lastValue (es ++ [e]) field = if field = e.1 then some e.2 else lastValue es field := by
  unfold lastValue
  rw [List.reverse_concat, List.lookup_cons]
  by_cases h : field = e.1
  · simp [h]
  · simp [h, beq_false_of_ne h]

theorem lastValue_eq_none_iff : lastValue es field = none ↔ field ∉ es.map Prod.fst := by
  unfold lastValue
  rw [List.lookup_eq_none_iff]
  constructor
  · intro h hf
    obtain ⟨e, he, rfl⟩ := List.mem_map.mp hf
    simpa using h e (List.mem_reverse.mpr he)
  · intro h e he
    have hne : field ≠ e.1 := fun hf => h (hf ▸ List.mem_map_of_mem (List.mem_reverse.mp he))
    simpa using hne

theorem hget_hsetAll : (db.hsetAll key es).hget key' field =
    if key' = key then (lastValue es field).or (db.hget key field) else db.hget key' field := by
  induction es using List.reverseRecOn with
  | nil =>
    simp only [hsetAll, lastValue, List.foldl_nil, List.reverse_nil, List.lookup_nil, Option.none_or]
    split_ifs with hk
    · rw [hk]
    · rfl
  | append_singleton es e ih =>
    have hstep : db.hsetAll key (es ++ [e]) = (db.hsetAll key es).hset key e.1 e.2 := by
      simp [hsetAll]
    rw [hstep, hget_hset, ih, lastValue_concat]
    by_cases hk : key' = key
    · by_cases hf : field = e.1 <;> simp [hk, hf]
    · simp [hk]

end HashStore
