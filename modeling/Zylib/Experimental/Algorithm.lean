import Mathlib.Data.List.Basic

/-! `combinational` and `permutation` (Algorithm.h): the selections of a given size from an array, and those of every size. -/

namespace Zylib.Algorithm

/-- Where a run of the model ends: a failed `assert`, a place that is not in an array, or a difference of `size_t` that wraps. -/
inductive Fault where
  | assertion
  | outOfRange
  | wraps
deriving DecidableEq

/-- `a - b`. -/
def subSizeT (a b : Nat) : Except Fault Nat := if a < b then .error .wraps else .ok (a - b)

/-- The array that `buffer` points to and the vector that `out` points to; `writes` has the places of the buffer that have
    been written. -/
structure Memory (T : Type) where
  buffer : List T
  out : List (List T)
  writes : List Nat := []

variable {T : Type}

/-- `src[i]`. -/
def load (src : List T) (i : Nat) : Except Fault T :=
  match src[i]? with
  | none => .error .outOfRange
  | some x => .ok x

/-- `buffer[needpos] = x`. -/
def Memory.store (m : Memory T) (needpos : Nat) (x : T) : Except Fault (Memory T) :=
  if needpos < m.buffer.length then
    .ok { m with buffer := m.buffer.set needpos x, writes := m.writes ++ [needpos] }
  else .error .outOfRange

/-- `out->push_back(std::vector<T>(buffer, buffer + need))`. -/
def Memory.pushBack (m : Memory T) (need : Nat) : Except Fault (Memory T) :=
  if need ≤ m.buffer.length then .ok { m with out := m.out ++ [m.buffer.take need] } else .error .outOfRange

mutual

def combinationalDetail (src : List T) (srclen need : Nat) (m : Memory T) (lenpos needpos : Nat) : Except Fault (Memory T) :=
  if needpos = need then m.pushBack need else combinationalLoop src srclen need m lenpos needpos
termination_by (srclen - lenpos, 1)

/-- The loop of `combinational_detail`, from `i` on. -/
def combinationalLoop (src : List T) (srclen need : Nat) (m : Memory T) (i needpos : Nat) : Except Fault (Memory T) :=
  if i < srclen then do
    let left ← subSizeT srclen i
    let due ← subSizeT need needpos
    if left < due then return m
    let x ← load src i
    let m ← m.store needpos x
    let m ← combinationalDetail src srclen need m (i + 1) (needpos + 1)
    combinationalLoop src srclen need m (i + 1) needpos
  else .ok m
termination_by (srclen - i, 0)

end

def combinational (src : List T) (srclen need : Nat) (m : Memory T) : Except Fault (Memory T) :=
  if ¬need ≤ srclen then .error .assertion
  else if need = 0 then .ok m
  else combinationalDetail src srclen need m 0 0

/-- The loop of `permutation`, from `i` on, in which `left` sizes are left. -/
def permutationLoop [Inhabited T] (src : List T) (srcLen : Nat) : Nat → Nat → List (List T) → Except Fault (List (List T))
  | 0, _, out => .ok out
  | left + 1, i, out => do
    let buffer := List.replicate i default
    let ret ← combinational src srcLen i { buffer, out := [] }
    -- the elements of `ret` are copied one by one
    permutationLoop src srcLen left (i + 1) (out ++ ret.out)

/-- `src` is none for a null pointer. -/
def permutation [Inhabited T] (src : Option (List T)) (srcLen : Nat) (out : List (List T)) : Except Fault (List (List T)) :=
  match src with
  | none => .ok out
  | some src => if srcLen = 0 then .ok out else permutationLoop src srcLen srcLen 1 out

/-! ### What is selected -/

/-- The indices of a selection from an array of `m` elements. -/
def Selection (m : Nat) (indices : List Nat) : Prop := indices.Pairwise (· < ·) ∧ ∀ i ∈ indices, i < m

/-- The elements at the indices. -/
def pick (src : List T) (indices : List Nat) : List T := indices.filterMap fun i => src[i]?

end Zylib.Algorithm
