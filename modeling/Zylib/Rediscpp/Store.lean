import Zylib.Cpp

/-! What the string commands of redis are for: a map from keys to byte strings, some of which expire, and what each
    command answers and makes of the map. -/

namespace Zylib.Rediscpp

/-- The entries, each with the time after which it is no longer there, if there is one. -/
abbrev Store := Bytes → Option (Bytes × Option Nat)

/-- A command with its arguments. `timeout` is in seconds for `SETEX` and in milliseconds for `PSETEX`. -/
inductive Op where
  | set (key value : Bytes)
  | get (key : Bytes)
  | getset (key value : Bytes)
  | setex (key : Bytes) (timeout : Int64) (value : Bytes)
  | psetex (key : Bytes) (timeout : Int64) (value : Bytes)
  | setnx (key value : Bytes)
  | setrange (key : Bytes) (offset : Int64) (value : Bytes)
  | getrange (key : Bytes) (start stop : Int64)
  | strlen (key : Bytes)
  | incr (key : Bytes)
  | incrby (key : Bytes) (increment : Int64)
deriving DecidableEq

inductive Answer where
  | ok
  | value (v : Option Bytes)
  | integer (n : Int)
deriving DecidableEq

/-- The number of digits with a sign in front of them or without. -/
def signedValue : Bytes → Int
  | 45 :: digits => -digitsValue digits
  | digits => digitsValue digits

/-- The number that a value stands for: it is the decimal text of a 64-bit number. -/
def toInteger? (v : Bytes) : Option Int :=
  let n := signedValue v
  if printfD 0 n = v ∧ -2 ^ 63 ≤ n ∧ n < 2 ^ 63 then some n else none

namespace Store

def empty : Store := fun _ => none

def value? (m : Store) (key : Bytes) : Option Bytes := (m key).map (·.1)

def put (m : Store) (key value : Bytes) (deadline : Option Nat) : Store :=
  fun k => if k = key then some (value, deadline) else m k

/-- The map at a later time. -/
def expire (m : Store) (now : Nat) : Store := fun key =>
  match m key with
  | some (value, some deadline) => if deadline < now then none else some (value, some deadline)
  | entry => entry

/-- The deadline that an update of the value leaves. -/
def deadline? (m : Store) (key : Bytes) : Option Nat := (m key).bind (·.2)

def overwrite (old : Bytes) (offset : Nat) (value : Bytes) : Bytes :=
  (old ++ List.replicate (offset - old.length) 0).take offset ++ value ++ old.drop (offset + value.length)

def setRange (m : Store) (key : Bytes) (offset : Nat) (value : Bytes) : Answer × Store :=
  let old := (m.value? key).getD []
  if value.isEmpty then (.integer old.length, m)
  else
    let new := overwrite old offset value
    (.integer new.length, m.put key new (m.deadline? key))

/-- Indices from the end are negative; the bytes from `start` to `stop`, both included. -/
def range (v : Bytes) (start stop : Int) : Bytes :=
  if start < 0 ∧ stop < 0 ∧ stop < start then []
  else
    let start := if start < 0 then max 0 (start + v.length) else start
    let stop := if stop < 0 then max 0 (stop + v.length) else stop
    let stop := min stop (v.length - 1)
    if stop < start then [] else (v.drop start.toNat).take (stop - start + 1).toNat

/-- Adds to the number that the value stands for; a key that is not there counts as 0. -/
def incrBy (m : Store) (key : Bytes) (increment : Int) : Option (Answer × Store) :=
  let old := match m.value? key with
    | none => some 0
    | some v => toInteger? v
  old.bind fun n =>
    if -2 ^ 63 ≤ n + increment ∧ n + increment < 2 ^ 63 then
      some (.integer (n + increment), m.put key (printfD 0 (n + increment)) (m.deadline? key))
    else none

/-- What a command answers at the time `now`, and the map after it; `none` where it only reports an error. -/
def apply (m : Store) (now : Nat) : Op → Option (Answer × Store)
  | .set key value => some (.ok, m.put key value none)
  | .get key => some (.value (m.value? key), m)
  | .getset key value => some (.value (m.value? key), m.put key value none)
  | .setex key timeout value => some (.ok, m.put key value (some (now + 1000 * timeout.toInt.toNat)))
  | .psetex key timeout value => some (.ok, m.put key value (some (now + timeout.toInt.toNat)))
  | .setnx key value => some (if (m key).isSome then (.integer 0, m) else (.integer 1, m.put key value none))
  | .setrange key offset value => some (m.setRange key offset.toInt.toNat value)
  | .getrange key start stop => some (.value (some (range ((m.value? key).getD []) start.toInt stop.toInt)), m)
  | .strlen key => some (.integer ((m.value? key).getD []).length, m)
  | .incr key => m.incrBy key 1
  | .incrby key increment => m.incrBy key increment.toInt

end Store

/-- An offset is not negative, a timeout positive. -/
def Op.Valid : Op → Prop
  | .setex _ timeout _ => 0 < timeout
  | .psetex _ timeout _ => 0 < timeout
  | .setrange _ offset _ => 0 ≤ offset
  | _ => True

instance (op : Op) : Decidable op.Valid := by
  cases op <;> unfold Op.Valid <;> infer_instance

end Zylib.Rediscpp
