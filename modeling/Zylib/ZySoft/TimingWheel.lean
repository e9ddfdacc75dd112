import Zylib.Cpp
import Zylib.Lib.Run
import Mathlib.Data.Fin.Basic
import Mathlib.Data.List.FinRange
import Mathlib.Logic.Function.Basic

/-! `timing_wheel<T, N>`: `N` slots, each a multimap from ticks to entries. An `entry` is a shared
    object; its address is its place in `heap`. The containers hold such addresses, and a handle
    locks as long as one of them holds its entry. -/

namespace Zylib.ZySoft

namespace TimingWheel

/-- A step that the program does not survive: a failed `assert`, or `erase(end())` on a multimap. -/
inductive Fault where
  | assertion
  | eraseEnd
deriving DecidableEq

structure Entry (α : Type) where
  tick : Nat
  duration : Nat
  value : α
deriving DecidableEq

/-- A `std::multimap` from ticks to entries, in the order of its iterators. -/
abbrev Slot := List (Nat × Nat)

namespace Slot

/-- `insert` puts a pair behind those with an equal key. -/
def insert (s : Slot) (key id : Nat) : Slot :=
  s.takeWhile (·.1 ≤ key) ++ (key, id) :: s.dropWhile (·.1 ≤ key)

/-- The pairs before `upper_bound(key)`, and the others. -/
def upTo (s : Slot) (key : Nat) : Slot := s.takeWhile (·.1 ≤ key)

def above (s : Slot) (key : Nat) : Slot := s.dropWhile (·.1 ≤ key)

/-- `slot_remove_entry`: the slot without the pair, and whether the iterator behind it was not the end. -/
def removeEntry (s : Slot) (key id : Nat) : Except Fault (Slot × Bool) :=
  match s.findIdx? (· == (key, id)) with
  | none => .error .eraseEnd
  | some i => .ok (s.eraseIdx i, i + 1 != s.length)

end Slot
end TimingWheel

open TimingWheel in
/-- The members, and the entries made so far. -/
structure TimingWheel (α : Type) (N : Nat) where
  wheel : Fin N → Slot := fun _ => []
  immediateEntries : List Nat := []
  allEntries : List Nat := []
  currentTick : Nat := 0
  heap : List (Entry α) := []

namespace TimingWheel

variable {α : Type} {N : Nat}

def wheelEntriesCount (w : TimingWheel α N) : Nat := ((List.finRange N).map fun i => (w.wheel i).length).sum

/-- `assert(all_entries_.size() == wheel_entries_count() + immediate_entries_.size())`. -/
def assertSizes (w : TimingWheel α N) : Except Fault Unit :=
  if w.allEntries.length == w.wheelEntriesCount + w.immediateEntries.length then .ok () else .error .assertion

/-- `hdl.lock()`: the entry, if a container still holds it. -/
def lock (w : TimingWheel α N) (id : Nat) : Option (Entry α) :=
  if id ∈ w.allEntries ∨ id ∈ w.immediateEntries ∨ ∃ i, id ∈ (w.wheel i).map Prod.snd then w.heap[id]? else none

def setSlot (w : TimingWheel α N) (i : Fin N) (s : Slot) : TimingWheel α N :=
  { w with wheel := Function.update w.wheel i s }

section
variable [NeZero N]

/-- The slot of a tick. -/
def index (t : Nat) : Fin N := ⟨t % N, Nat.mod_lt _ (Nat.pos_of_neZero N)⟩

def tick (w : TimingWheel α N) : TimingWheel α N := { w with currentTick := uint64 (w.currentTick + 1) }

/-- `get_expired(t, expired)`: the entries put out, in the order of the iterators. For the immediate
    entries, an unordered set, this is here the order of insertion. -/
def getExpired (w : TimingWheel α N) (t : Nat) : Except Fault (List Nat × TimingWheel α N) := do
  w.assertSizes
  let s := w.wheel (index w.currentTick)
  let expired := w.immediateEntries ++ (s.upTo t).map Prod.snd
  let w' := { w.setSlot (index w.currentTick) (s.above t) with
    immediateEntries := []
    allEntries := w.allEntries.diff expired }
  w'.assertSizes
  return (expired, w')

def add (w : TimingWheel α N) (value : α) (duration : UInt64) : Except Fault (TimingWheel α N) := do
  w.assertSizes
  let id := w.heap.length
  if duration.toNat = 0 then
    let e := { tick := w.currentTick, duration := duration.toNat, value }
    return { w with
      immediateEntries := w.immediateEntries ++ [id]
      allEntries := w.allEntries ++ [id]
      heap := w.heap ++ [e] }
  let newTick := uint64 (duration.toNat + w.currentTick)
  let i := index newTick
  let e := { tick := newTick, duration := duration.toNat, value }
  let w' := { w.setSlot i ((w.wheel i).insert newTick id) with
    allEntries := w.allEntries ++ [id]
    heap := w.heap ++ [e] }
  w'.assertSizes
  return w'

def cancel (w : TimingWheel α N) (id : Nat) : Except Fault (TimingWheel α N) := do
  match w.lock id with
  | none => return w
  | some e =>
    w.assertSizes
    if id ∈ w.allEntries then
      let i := index e.tick
      let (s, ret) ← (w.wheel i).removeEntry e.tick id
      if !ret then throw .assertion
      let w' := { w.setSlot i s with allEntries := w.allEntries.erase id }
      w'.assertSizes
      return w'
    else
      w.assertSizes
      return w

def reset (w : TimingWheel α N) (id : Nat) : Except Fault (TimingWheel α N) := do
  match w.lock id with
  | none => return w
  | some e =>
    if e.duration = 0 then return w
    w.assertSizes
    if id ∈ w.allEntries then
      let newTick := uint64 (e.duration + w.currentTick)
      if e.tick = newTick then return w
      let i := index e.tick
      let (s, ret) ← (w.wheel i).removeEntry e.tick id
      if !ret then throw .assertion
      let w' := { w.setSlot i s with heap := w.heap.set id { e with tick := newTick } }
      let j := index newTick
      let w'' := w'.setSlot j ((w'.wheel j).insert newTick id)
      w''.assertSizes
      return w''
    else
      w.assertSizes
      return w

def clear (w : TimingWheel α N) : Except Fault (TimingWheel α N) := do
  w.assertSizes
  let w' := { w with wheel := fun _ => [], immediateEntries := [], allEntries := [], currentTick := 0 }
  w'.assertSizes
  return w'

def size (w : TimingWheel α N) : Except Fault Nat := do
  w.assertSizes
  return w.allEntries.length

end

/-! ### Runs -/

/-- The calls; `getExpiredAt` is the overload that is given a tick, `getExpired` the others. -/
inductive Op (α : Type) where
  | tick
  | getExpired
  | getExpiredAt (t : UInt64)
  | add (value : α) (duration : UInt64)
  | cancel (hdl : Nat)
  | reset (hdl : Nat)
  | clear
  | size
deriving DecidableEq

/-- A `(value, duration)` pair put out, of which entry and at which tick. -/
structure Expired (α : Type) where
  id : Nat
  value : α
  duration : Nat
  tick : Nat
deriving DecidableEq

/-- A timing wheel and all that has been put out. -/
structure State (α : Type) (N : Nat) where
  wheel : TimingWheel α N := {}
  log : List (Expired α) := []

/-- The pair of an entry that is put out now. -/
def State.pairOf (s : State α N) (id : Nat) : Option (Expired α) :=
  s.wheel.heap[id]?.map fun e => ⟨id, e.value, e.duration, s.wheel.currentTick⟩

def State.expire (s : State α N) (ids : List Nat) (w : TimingWheel α N) : State α N where
  wheel := w
  log := s.log ++ ids.filterMap s.pairOf

def step [NeZero N] (s : State α N) : Op α → Except Fault (State α N)
  | .tick => .ok { s with wheel := s.wheel.tick }
  | .getExpired => do
    let (ids, w) ← s.wheel.getExpired s.wheel.currentTick
    return s.expire ids w
  | .getExpiredAt t => do
    let (ids, w) ← s.wheel.getExpired t.toNat
    return s.expire ids w
  | .add value duration => do return { s with wheel := ← s.wheel.add value duration }
  | .cancel hdl => do return { s with wheel := ← s.wheel.cancel hdl }
  | .reset hdl => do return { s with wheel := ← s.wheel.reset hdl }
  | .clear => do return { s with wheel := ← s.wheel.clear }
  | .size => do
    let _ ← s.wheel.size
    return s

end TimingWheel
end Zylib.ZySoft
