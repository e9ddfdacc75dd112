import Mathlib.Data.Finset.Card
import Mathlib.Data.Finset.Range
import Mathlib.Data.Int.Interval
import Zylib.Cpp

/-! `RateGenarator` (RateGenerator.h): items that are drawn at random, each as often as its rate says. -/

namespace Zylib

/-- The half-open interval of an item. -/
structure RateWrapper (T : Type) where
  closeMin : Int
  openMax : Int
  res : T
deriving DecidableEq

structure RateGenarator (T : Type) where
  mRangeDivisor : Int := 0
  mRanges : List (RateWrapper T) := []
deriving DecidableEq

namespace RateGenarator

variable {T : Type}

/-- The sum of two `int`s; none if it overflows, which is undefined behaviour. -/
def addInt (a b : Int) : Option Int := if -2 ^ 31 ≤ a + b ∧ a + b < 2 ^ 31 then some (a + b) else none

/-- `ptr` is the member function that tells the rate of an item. -/
def putRes (g : RateGenarator T) (pItem : T) (ptr : T → Int) : Option (RateGenarator T) := do
  let val := ptr pItem
  let openMax ← addInt g.mRangeDivisor val
  let mRanges := g.mRanges ++ [{ closeMin := g.mRangeDivisor, openMax, res := pItem }]
  let mRangeDivisor ← addInt g.mRangeDivisor val
  return { mRangeDivisor, mRanges }

/-- Calls of `putRes` one after the other, each with an item and a member function. -/
def putAll (g : RateGenarator T) (puts : List (T × (T → Int))) : Option (RateGenarator T) :=
  puts.foldlM (fun g put => g.putRes put.1 put.2) g

/-- The constructor that takes a range. -/
def ofRange (items : List T) (ptr : T → Int) : Option (RateGenarator T) :=
  items.foldlM (fun g pItem => g.putRes pItem ptr) {}

/-- The `i` at which the loop of `randShuffle` returns. -/
def drawn (g : RateGenarator T) (num : Int) : Option Nat :=
  g.mRanges.findIdx? fun pWrapper => pWrapper.closeMin ≤ num && num < pWrapper.openMax

/-- `rand` is what `rand()` returns; none is the null pointer. -/
def randShuffle (g : RateGenarator T) (rand : Int) : Option T :=
  if g.mRangeDivisor ≤ 0 then none
  else
    let num := rand.tmod g.mRangeDivisor
    (g.drawn num).bind fun i => g.mRanges[i]?.map (·.res)

/-! ### What the draws have to be -/

/-- The rates that `putRes` is told. -/
def rates (puts : List (T × (T → Int))) : List Int := puts.map fun put => put.2 put.1

/-- The intervals partition the numbers below the sum of the rates; each number returns an item; the item that is put at a position
    is drawn by as many of them as its rate says, and only one whose rate is not zero is returned. -/
structure DrawsByRate (puts : List (T × (T → Int))) (g : RateGenarator T) : Prop where
  divisor : g.mRangeDivisor = (rates puts).sum
  covers : ∀ num, (∃ w ∈ g.mRanges, w.closeMin ≤ num ∧ num < w.openMax) ↔ 0 ≤ num ∧ num < (rates puts).sum
  disjoint : g.mRanges.Pairwise fun v w => v.openMax ≤ w.closeMin
  returns : ∀ rand, 0 ≤ rand → ∃ item, g.randShuffle rand = some item
  share : ∀ (i : Nat) (put : T × (T → Int)), puts[i]? = some put →
    ((Finset.range (rates puts).sum.toNat).filter fun num : Nat => g.drawn num = some i).card = put.2 put.1
  returned : ∀ (rand : Int) (item : T), 0 ≤ rand → g.randShuffle rand = some item →
    ∃ (i : Nat) (put : T × (T → Int)), g.drawn (rand % (rates puts).sum) = some i ∧ puts[i]? = some put ∧ put.1 = item ∧
      0 < put.2 put.1

end RateGenarator

end Zylib
