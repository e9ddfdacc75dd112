import Zylib.Lib.Heap
import Mathlib.Algebra.Notation.Defs

/-! `auto_buffer` of `zysoft`: a buffer of `N` elements inside the object, or a block of the heap. The elements
    that nothing was written to are `none`. -/

namespace Zylib.ZySoft

/-- The number of an `auto_buffer`, which stands for its address. -/
abbrev Obj := ℕ

/-- A pointer to the beginning of the buffer inside an object, or of a block. -/
inductive Ptr where
  | null
  | internal (obj : Obj)
  | block (b : ℕ)
deriving DecidableEq

namespace Ptr

def ofBlock : Option ℕ → Ptr
  | none => .null
  | some b => .block b

def block? : Ptr → Option ℕ
  | .block b => some b
  | _ => none

end Ptr

structure AutoBuffer (T : Type) (N : ℕ) where
  internal : Vector (Option T) N
  buffer : Ptr
  items : ℕ
  external : Bool

namespace AutoBuffer

/-- The objects and the heap they share. -/
structure System (T : Type) (N : ℕ) where
  objects : Obj → Option (AutoBuffer T N) := fun _ => none
  heap : Heap (Option T) := {}

/-- `disabled` is a step that the program cannot take, the others are accesses through a pointer to nothing. -/
inductive Fault where
  | disabled
  | invalidAccess
  | invalidFree
deriving DecidableEq

namespace System
variable {T : Type} {N : ℕ}

def put (s : System T N) (o : Obj) (x : AutoBuffer T N) : System T N :=
  { s with objects := Function.update s.objects o (some x) }

/-- What is at a pointer. -/
def cells (s : System T N) : Ptr → Option (List (Option T))
  | .null => none
  | .internal o => (s.objects o).map (·.internal.toList)
  | .block b => if s.heap.Live b then some (s.heap.cells b) else none

/-! ### The private functions -/

/-- `ok` says that the allocator returns a block. -/
def alloc (s : System T N) (n : ℕ) (ok : Bool) : Option ℕ × System T N :=
  if ok then (some s.heap.blocks.length, { s with heap := s.heap.alloc (List.replicate n none) }) else (none, s)

/-- To deallocate a null pointer does nothing. -/
def dealloc (s : System T N) (p : Ptr) (n : ℕ) : Except Fault (System T N) :=
  match p with
  | .null => .ok s
  | .internal _ => .error .invalidFree
  | .block b => if s.heap.Live b then .ok { s with heap := s.heap.dealloc b n } else .error .invalidFree

/-- The destination is always a new block. To copy nothing is no access. -/
def blockCopy (s : System T N) (b : ℕ) (src : Ptr) (len : ℕ) : Except Fault (System T N) :=
  if len = 0 then .ok s
  else
    match s.cells src with
    | none => .error .invalidAccess
    | some cells =>
      if len ≤ cells.length ∧ len ≤ (s.heap.cells b).length then
        .ok { s with heap := s.heap.write b (cells.take len ++ (s.heap.cells b).drop len) }
      else .error .invalidAccess

def realloc (s : System T N) (currentP : Ptr) (currentN newN : ℕ) (ok : Bool) :
    Except Fault (Option ℕ × System T N) :=
  match s.alloc newN ok with
  | (none, s) => .ok (none, s)
  | (some b, s) => do
    let s ← s.blockCopy b currentP currentN
    let s ← s.dealloc currentP currentN
    .ok (some b, s)

/-! ### The members -/

/-- The constructor, with `block_fill` over the items: `m_internal` is zero already. -/
def construct [Zero T] (s : System T N) (o : Obj) (n : ℕ) (ok : Bool) : System T N :=
  let (buffer, s) : Ptr × System T N :=
    if n < N then (.internal o, s)
    else
      let (p, s) := s.alloc n ok
      (.ofBlock p, s)
  let items := if buffer = .null then 0 else n
  let fill (cells : List (Option T)) := cells.mapIdx fun i cell => if i < items then some 0 else cell
  let s :=
    match buffer with
    | .block b => { s with heap := s.heap.write b (fill (s.heap.cells b)) }
    | _ => s
  s.put o { internal := Vector.replicate N (some 0), buffer, items, external := decide (N < n) }

/-- What `resize` returns, and the system after it. -/
def resize (s : System T N) (o : Obj) (n : ℕ) (ok : Bool) : Except Fault (Bool × System T N) :=
  match s.objects o with
  | none => .error .disabled
  | some x =>
    if n = 0 then
      if x.external then do
        let s ← s.dealloc x.buffer x.items
        .ok (true, s.put o { x with external := false, buffer := .internal o, items := n })
      else .ok (true, s.put o { x with items := n })
    else if x.items < n then
      if x.external then do
        match ← s.realloc x.buffer x.items n ok with
        | (none, s) => .ok (false, s)
        | (some b, s) => .ok (true, s.put o { x with buffer := .block b, items := n })
      else if N < n then
        match s.alloc n ok with
        | (none, s) => .ok (false, s)
        | (some b, s) => do
          let s ← s.blockCopy b x.buffer x.items
          .ok (true, s.put o { x with buffer := .block b, external := true, items := n })
      else .ok (true, s.put o { x with items := n })
    else .ok (true, s.put o { x with items := n })

/-- All members are exchanged, the pointers as they are. -/
def swap (s : System T N) (o o' : Obj) : Except Fault (System T N) :=
  match s.objects o, s.objects o' with
  | some x, some y => .ok ((s.put o y).put o' x)
  | _, _ => .error .disabled

def destruct (s : System T N) (o : Obj) : Except Fault (System T N) :=
  match s.objects o with
  | none => .error .disabled
  | some x => do
    let s ← if x.external then s.dealloc x.buffer x.items else .ok s
    .ok { s with objects := Function.update s.objects o none }

/-- `operator[]` on the left of an assignment. -/
def assign (s : System T N) (o : Obj) (index : ℕ) (v : T) : Except Fault (System T N) :=
  match s.objects o with
  | none => .error .disabled
  | some x =>
    match s.cells x.buffer with
    | none => .error .invalidAccess
    | some cells =>
      if index < cells.length then
        match x.buffer with
        | .block b => .ok { s with heap := s.heap.write b (cells.set index (some v)) }
        | .internal o' =>
          match s.objects o' with
          | some y => .ok (s.put o' { y with internal := y.internal.setIfInBounds index (some v) })
          | none => .error .invalidAccess
        | .null => .error .invalidAccess
      else .error .invalidAccess

/-- What `begin` and `end` enclose. -/
def contents (s : System T N) (o : Obj) : List (Option T) :=
  match s.objects o with
  | none => []
  | some x => ((s.cells x.buffer).getD []).take x.items

/-! ### Steps -/

inductive Action (T : Type) where
  | construct (o : Obj) (n : ℕ) (ok : Bool)
  | resize (o : Obj) (n : ℕ) (ok : Bool)
  | swap (o o' : Obj)
  | destruct (o : Obj)
  | assign (o : Obj) (index : ℕ) (v : T)

def step [Zero T] (s : System T N) : Action T → Except Fault (System T N)
  | .construct o n ok =>
    match s.objects o with
    | none => .ok (s.construct o n ok)
    | some _ => .error .disabled
  | .resize o n ok => (s.resize o n ok).map Prod.snd
  | .swap o o' => s.swap o o'
  | .destruct o => s.destruct o
  | .assign o index v => s.assign o index v

end System

end AutoBuffer

end Zylib.ZySoft
