import Mathlib.Algebra.Order.Group.Int
import Mathlib.Order.Interval.Finset.Nat
import Zylib.Experimental.RateGenerator
import Zylib.Lib.Weights

/-! The intervals of a `RateGenarator` follow each other from zero to the sum of the rates, so each number below the sum draws one
    item, and an item is drawn by as many numbers as its rate says. -/

namespace Zylib.RateGenarator
open Weights

variable {T : Type} {puts : List (T × (T → Int))} {g : RateGenarator T}

/-- The interval of the item that is put at `i`. -/
def interval (puts : List (T × (T → Int))) (i : Nat) (put : T × (T → Int)) : RateWrapper T where
  closeMin := start (rates puts) i
  openMax := start (rates puts) (i + 1)
  res := put.1

structure Inv (puts : List (T × (T → Int))) (g : RateGenarator T) : Prop where
  divisor : g.mRangeDivisor = (rates puts).sum
  ranges : ∀ i, g.mRanges[i]? = puts[i]?.map (interval puts i)

theorem inv_empty : Inv [] ({} : RateGenarator T) where
  divisor := rfl
  ranges _ := rfl

theorem rates_concat (puts : List (T × (T → Int))) (put : T × (T → Int)) :
    rates (puts ++ [put]) = rates puts ++ [put.2 put.1] := by
  rw [rates, List.map_append]
  rfl

theorem length_rates (puts : List (T × (T → Int))) : (rates puts).length = puts.length := List.length_map ..

theorem Inv.length (hI : Inv puts g) : g.mRanges.length = puts.length := by
  have hnone : ∀ i, g.mRanges.length ≤ i ↔ puts.length ≤ i := by
    intro i
    rw [← List.getElem?_eq_none_iff, ← List.getElem?_eq_none_iff, hI.ranges i, Option.map_eq_none_iff]
  exact Nat.le_antisymm ((hnone _).mpr (Nat.le_refl _)) ((hnone _).mp (Nat.le_refl _))

theorem Inv.at_index (hI : Inv puts g) {i : Nat} (hi : i < g.mRanges.length) :
    ∃ put, puts[i]? = some put ∧ g.mRanges[i] = interval puts i put := by
  obtain ⟨put, hput, hrange⟩ := Option.map_eq_some_iff.mp ((hI.ranges i).symm.trans (List.getElem?_eq_getElem hi))
  exact ⟨put, hput, hrange.symm⟩

/-- A put moves no interval, and the new one begins where they end. -/
theorem interval_concat (puts : List (T × (T → Int))) (put : T × (T → Int)) :
    (∀ i < puts.length, interval (puts ++ [put]) i = interval puts i) ∧
      interval (puts ++ [put]) puts.length put =
        { closeMin := (rates puts).sum, openMax := (rates (puts ++ [put])).sum, res := put.1 } := by
  have hstart : ∀ i ≤ puts.length, start (rates (puts ++ [put])) i = start (rates puts) i := by
    intro i hi
    rw [rates_concat, start_concat (by rwa [length_rates])]
  constructor
  · intro i hi
    funext put'
    rw [interval, interval, hstart i (Nat.le_of_lt hi), hstart (i + 1) hi]
  · have hend : start (rates (puts ++ [put])) (puts.length + 1) = (rates (puts ++ [put])).sum := by
      rw [← start_length, length_rates, List.length_append, List.length_singleton]
    have hsum : start (rates puts) puts.length = (rates puts).sum := by
      rw [← start_length, length_rates]
    rw [interval, hstart _ (Nat.le_refl _), hsum, hend]

theorem inv_putRes {put : T × (T → Int)} (hI : Inv puts g) (h0 : 0 ≤ (rates (puts ++ [put])).sum)
    (hlt : (rates (puts ++ [put])).sum < 2 ^ 31) : ∃ t, g.putRes put.1 put.2 = some t ∧ Inv (puts ++ [put]) t := by
  have hadd : addInt g.mRangeDivisor (put.2 put.1) = some (rates (puts ++ [put])).sum := by
    have hsum : (rates (puts ++ [put])).sum = g.mRangeDivisor + put.2 put.1 := by
      rw [rates_concat, List.sum_append, List.sum_singleton, hI.divisor]
    rw [addInt, ← hsum, if_pos ⟨by omega, hlt⟩]
  obtain ⟨hold, hnew⟩ := interval_concat puts put
  refine ⟨_, by rw [putRes, hadd]; rfl, rfl, fun i => ?_⟩
  dsimp only
  rcases Nat.lt_trichotomy i puts.length with hi | rfl | hi
  · rw [List.getElem?_append_left (hI.length ▸ hi), List.getElem?_append_left hi, hI.ranges i, hold i hi]
  · rw [← hI.length, List.getElem?_concat_length, hI.length, List.getElem?_concat_length, Option.map_some, hnew, hI.divisor]
  · rw [List.getElem?_eq_none (by rw [List.length_append, hI.length]; exact hi),
      List.getElem?_eq_none (by rw [List.length_append]; exact hi)]
    rfl

theorem inv_putAll (past : List (T × (T → Int))) (hI : Inv past g) (h : ∀ rate ∈ rates (past ++ puts), 0 ≤ rate)
    (hlt : (rates (past ++ puts)).sum < 2 ^ 31) : ∃ t, g.putAll puts = some t ∧ Inv (past ++ puts) t := by
  induction puts generalizing past g with
  | nil => exact ⟨g, rfl, by rwa [List.append_nil]⟩
  | cons put puts ih =>
    rw [List.append_cons] at h hlt ⊢
    have happend : rates (past ++ [put] ++ puts) = rates (past ++ [put]) ++ rates puts := List.map_append ..
    obtain ⟨h0, hle⟩ := sum_bounds (happend ▸ h)
    rw [← happend] at hle
    obtain ⟨t, ht, hIt⟩ := inv_putRes hI h0 (by omega)
    rw [putAll, List.foldlM_cons, ht]
    exact ih (past ++ [put]) hIt h hlt

/-! ### Draws -/

theorem bounds (h : ∀ rate ∈ rates puts, 0 ≤ rate) {i : Nat} (hi : i < puts.length) :
    0 ≤ start (rates puts) i ∧ start (rates puts) (i + 1) ≤ (rates puts).sum := by
  rw [← length_rates] at hi
  exact ⟨(start_bounds h (Nat.le_of_lt hi)).1, (start_bounds h hi).2⟩

/-- The loop returns at the item in whose interval the number is. -/
theorem drawn_eq_some_iff (hI : Inv puts g) (h : ∀ rate ∈ rates puts, 0 ≤ rate) (num : Int) (i : Nat) :
    g.drawn num = some i ↔ i < puts.length ∧ start (rates puts) i ≤ num ∧ num < start (rates puts) (i + 1) := by
  have hmem : ∀ j (hj : j < g.mRanges.length), (decide (g.mRanges[j].closeMin ≤ num) && decide (num < g.mRanges[j].openMax)) =
      true ↔ start (rates puts) j ≤ num ∧ num < start (rates puts) (j + 1) := by
    intro j hj
    obtain ⟨put, -, hrange⟩ := hI.at_index hj
    rw [hrange, Bool.and_eq_true, decide_eq_true_iff, decide_eq_true_iff]
    rfl
  rw [drawn, List.findIdx?_eq_some_iff_getElem]
  constructor
  · rintro ⟨hi, hin, -⟩
    exact ⟨hI.length ▸ hi, (hmem i hi).mp hin⟩
  · rintro ⟨hi, hin⟩
    have hi : i < g.mRanges.length := hI.length.symm ▸ hi
    refine ⟨hi, (hmem i hi).mpr hin, fun j hj hjn => ?_⟩
    exact Nat.ne_of_lt hj (interval_unique h ((hmem j (Nat.lt_trans hj hi)).mp hjn) hin)

/-- The numbers that draw the item at `i` are those of its interval. -/
theorem card_drawn (hI : Inv puts g) (h : ∀ rate ∈ rates puts, 0 ≤ rate) {i : Nat} {put : T × (T → Int)}
    (hput : puts[i]? = some put) :
    ((Finset.range (rates puts).sum.toNat).filter fun num : Nat => g.drawn num = some i).card = put.2 put.1 := by
  have hi : i < puts.length := (List.getElem?_eq_some_iff.mp hput).1
  have hrate : (rates puts)[i]? = some (put.2 put.1) := by rw [rates, List.getElem?_map, hput, Option.map_some]
  obtain ⟨hlow, hhigh⟩ := bounds h hi
  have hfilter : ((Finset.range (rates puts).sum.toNat).filter fun num : Nat => g.drawn num = some i) =
      Finset.Ico (start (rates puts) i).toNat (start (rates puts) (i + 1)).toNat := by
    ext num
    rw [Finset.mem_filter, drawn_eq_some_iff hI h, Finset.mem_range, Finset.mem_Ico]
    constructor
    · rintro ⟨-, -, hin⟩
      omega
    · intro hin
      exact ⟨by omega, hi, by omega⟩
  have hnonneg := h _ (List.mem_of_getElem? hrate)
  rw [hfilter, Nat.card_Ico, start_succ hrate]
  omega

theorem exists_drawn (hI : Inv puts g) (h : ∀ rate ∈ rates puts, 0 ≤ rate) {num : Int} (h0 : 0 ≤ num)
    (hlt : num < (rates puts).sum) : ∃ i put, g.drawn num = some i ∧ puts[i]? = some put := by
  obtain ⟨i, hi, hin⟩ := exists_interval h0 hlt
  rw [length_rates] at hi
  exact ⟨i, puts[i], (drawn_eq_some_iff hI h num i).mpr ⟨hi, hin⟩, List.getElem?_eq_getElem hi⟩

/-- An item whose rate is zero is drawn by no number. -/
theorem rate_pos_of_drawn (hI : Inv puts g) (h : ∀ rate ∈ rates puts, 0 ≤ rate) {num : Int} {i : Nat} {put : T × (T → Int)}
    (hdrawn : g.drawn num = some i) (hput : puts[i]? = some put) : 0 < put.2 put.1 := by
  have hrate : (rates puts)[i]? = some (put.2 put.1) := by rw [rates, List.getElem?_map, hput, Option.map_some]
  obtain ⟨-, hin⟩ := (drawn_eq_some_iff hI h num i).mp hdrawn
  rw [start_succ hrate] at hin
  omega

theorem randShuffle_eq (hI : Inv puts g) (hpos : 0 < (rates puts).sum) {rand : Int} (h0 : 0 ≤ rand) :
    g.randShuffle rand = (g.drawn (rand % (rates puts).sum)).bind fun i => puts[i]?.map (·.1) := by
  have hranges : ∀ i : Nat, g.mRanges[i]?.map (·.res) = puts[i]?.map (·.1) := by
    intro i
    rw [hI.ranges i, Option.map_map]
    rfl
  rw [randShuffle, hI.divisor, if_neg (Int.not_le.mpr hpos), Int.tmod_eq_emod_of_nonneg h0]
  simp only [hranges]

/-- The intervals of two positions, the one behind the other. -/
theorem pairwise_ranges (hI : Inv puts g) (h : ∀ rate ∈ rates puts, 0 ≤ rate) :
    g.mRanges.Pairwise fun v w => v.openMax ≤ w.closeMin := by
  rw [List.pairwise_iff_getElem]
  intro i j hi hj hij
  have hmono := start_mono h
  obtain ⟨put, -, hv⟩ := hI.at_index hi
  obtain ⟨put', -, hw⟩ := hI.at_index hj
  rw [hv, hw]
  exact hmono hij

theorem covers_iff (hI : Inv puts g) (h : ∀ rate ∈ rates puts, 0 ≤ rate) (num : Int) :
    (∃ w ∈ g.mRanges, w.closeMin ≤ num ∧ num < w.openMax) ↔ 0 ≤ num ∧ num < (rates puts).sum := by
  constructor
  · rintro ⟨w, hw, hlow, hhigh⟩
    obtain ⟨i, hi, rfl⟩ := List.mem_iff_getElem.mp hw
    obtain ⟨put, -, hrange⟩ := hI.at_index hi
    rw [hrange] at hlow hhigh
    obtain ⟨h0, hsum⟩ := bounds h (hI.length ▸ hi)
    exact ⟨Int.le_trans h0 hlow, Int.lt_of_lt_of_le hhigh hsum⟩
  · rintro ⟨h0, hlt⟩
    obtain ⟨i, put, hdrawn, hput⟩ := exists_drawn hI h h0 hlt
    have hmem : g.mRanges[i]? = some (interval puts i put) := by rw [hI.ranges i, hput, Option.map_some]
    exact ⟨_, List.mem_of_getElem? hmem, ((drawn_eq_some_iff hI h num i).mp hdrawn).2⟩

/-- The items that are put are drawn by their rates if none is negative and the sum is an `int` and not zero. -/
theorem draws_by_rate (puts : List (T × (T → Int))) (h : ∀ rate ∈ rates puts, 0 ≤ rate) (hpos : 0 < (rates puts).sum)
    (hlt : (rates puts).sum < 2 ^ 31) : ∃ g, putAll {} puts = some g ∧ DrawsByRate puts g := by
  obtain ⟨g, hg, hI⟩ := inv_putAll [] inv_empty h hlt
  have hI : Inv puts g := hI
  have hshuffle : ∀ rand : Int, 0 ≤ rand → ∃ (i : Nat) (put : T × (T → Int)),
      g.drawn (rand % (rates puts).sum) = some i ∧ puts[i]? = some put ∧ g.randShuffle rand = some put.1 := by
    intro rand h0
    obtain ⟨i, put, hdrawn, hput⟩ := exists_drawn hI h (Int.emod_nonneg rand hpos.ne') (Int.emod_lt_of_pos rand hpos)
    refine ⟨i, put, hdrawn, hput, ?_⟩
    rw [randShuffle_eq hI hpos h0, hdrawn, Option.bind_some, hput, Option.map_some]
  refine ⟨g, hg, hI.divisor, covers_iff hI h, pairwise_ranges hI h, fun rand h0 => ?_, fun i put => card_drawn hI h,
    fun rand item h0 hitem => ?_⟩
  · obtain ⟨i, put, -, -, hitem⟩ := hshuffle rand h0
    exact ⟨put.1, hitem⟩
  · obtain ⟨i, put, hdrawn, hput, hitem'⟩ := hshuffle rand h0
    exact ⟨i, put, hdrawn, hput, Option.some.inj (hitem'.symm.trans hitem), rate_pos_of_drawn hI h hdrawn hput⟩

theorem draws_by_rate_two_items :
    ∃ g, putAll {} [('a', fun _ => 100), ('b', fun _ => 0), ('a', fun _ => 200)] = some g ∧
      DrawsByRate [('a', fun _ => 100), ('b', fun _ => 0), ('a', fun _ => 200)] g :=
  draws_by_rate [('a', fun _ => 100), ('b', fun _ => 0), ('a', fun _ => 200)] (by decide) (by decide) (by decide)

/-- The constructor puts each item of its range. -/
theorem ofRange_eq (items : List T) (ptr : T → Int) : ofRange items ptr = putAll {} (items.map fun item => (item, ptr)) := by
  rw [ofRange, putAll, List.foldlM_map]

end Zylib.RateGenarator
