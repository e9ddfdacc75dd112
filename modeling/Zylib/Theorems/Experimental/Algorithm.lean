import Zylib.Experimental.Algorithm
import Zylib.Lib.Selections

/-! What `combinational` appends. The elements that are chosen so far are the front of the buffer, and the calls below leave it as
    it is, so the loop appends it with each selection from the elements that are left. -/

namespace Zylib.Algorithm
open Selections

variable {T : Type} {src : List T} {need : Nat}

/-! ### Memory -/

theorem subSizeT_of_le {a b : Nat} (h : b ≤ a) : subSizeT a b = .ok (a - b) := by
  rw [subSizeT, if_neg (Nat.not_lt.mpr h)]

theorem load_of_lt {i : Nat} (h : i < src.length) : load src i = .ok src[i] := by
  rw [load, List.getElem?_eq_getElem h]

theorem store_of_lt {m : Memory T} {needpos : Nat} (h : needpos < m.buffer.length) (x : T) :
    m.store needpos x = .ok { m with buffer := m.buffer.set needpos x, writes := m.writes ++ [needpos] } := by
  rw [Memory.store, if_pos h]

theorem pick_cons {i : Nat} (h : i < src.length) (q : List Nat) : pick src (i :: q) = src[i] :: pick src q := by
  rw [pick, List.filterMap_cons, List.getElem?_eq_getElem h]
  rfl

/-- The call appends the front of the buffer with each of the selections, and writes places between the front and `need`. -/
structure Appends (src : List T) (need needpos : Nat) (m m' : Memory T) (indices : List (List Nat)) : Prop where
  out : m'.out = m.out ++ indices.map fun q => m.buffer.take needpos ++ pick src q
  length : m'.buffer.length = m.buffer.length
  front : m'.buffer.take needpos = m.buffer.take needpos
  behind : m'.buffer.drop need = m.buffer.drop need
  writes : ∃ places, m'.writes = m.writes ++ places ∧ ∀ p ∈ places, p < need

theorem appends_nothing (src : List T) (need needpos : Nat) (m : Memory T) : Appends src need needpos m m [] where
  out := (List.append_nil _).symm
  length := rfl
  front := rfl
  behind := rfl
  writes := ⟨[], (List.append_nil _).symm, by simp⟩

theorem Appends.trans {needpos : Nat} {m₁ m₂ m₃ : Memory T} {ps qs : List (List Nat)} (h₁ : Appends src need needpos m₁ m₂ ps)
    (h₂ : Appends src need needpos m₂ m₃ qs) : Appends src need needpos m₁ m₃ (ps ++ qs) := by
  obtain ⟨places₁, hplaces₁, hlt₁⟩ := h₁.writes
  obtain ⟨places₂, hplaces₂, hlt₂⟩ := h₂.writes
  constructor
  case out => rw [h₂.out, h₁.out, h₁.front, List.append_assoc, List.map_append]
  case length => exact h₂.length.trans h₁.length
  case front => exact h₂.front.trans h₁.front
  case behind => exact h₂.behind.trans h₁.behind
  case writes =>
    exact ⟨places₁ ++ places₂, by rw [hplaces₂, hplaces₁, List.append_assoc], List.forall_mem_append.mpr ⟨hlt₁, hlt₂⟩⟩

/-- An element is put behind the front, and the call below appends selections behind that. -/
theorem Appends.store {needpos i : Nat} {m m' : Memory T} {indices : List (List Nat)} (hi : i < src.length)
    (hneed : needpos < need) (hbuf : need ≤ m.buffer.length)
    (h : Appends src need (needpos + 1)
      { m with buffer := m.buffer.set needpos src[i], writes := m.writes ++ [needpos] } m' indices) :
    Appends src need needpos m m' (indices.map (i :: ·)) := by
  have hlt : needpos < m.buffer.length := Nat.lt_of_lt_of_le hneed hbuf
  have hfront : (m.buffer.set needpos src[i]).take (needpos + 1) = m.buffer.take needpos ++ [src[i]] := by
    have hlt' : needpos < (m.buffer.set needpos src[i]).length := by rwa [List.length_set]
    rw [List.take_succ_eq_append_getElem hlt', List.take_set_of_le (Nat.le_refl _), List.getElem_set_self]
  obtain ⟨places, hplaces, hplt⟩ := h.writes
  constructor
  case out =>
    rw [h.out, List.map_map]
    congr 1
    refine List.map_congr_left fun q _ => ?_
    rw [hfront, Function.comp_apply, pick_cons hi, List.append_assoc, List.singleton_append]
  case length => rw [h.length, List.length_set]
  case front =>
    have htake := congrArg (List.take needpos) h.front
    rw [hfront, List.take_take, Nat.min_eq_left (Nat.le_succ _),
      List.take_left' (List.length_take_of_le (Nat.le_of_lt hlt))] at htake
    exact htake
  case behind => rw [h.behind, List.drop_set_of_lt hneed]
  case writes =>
    exact ⟨needpos :: places, by rw [hplaces, List.append_assoc]; rfl, List.forall_mem_cons.mpr ⟨hneed, hplt⟩⟩

/-! ### The recursion -/

/-- The selections from the elements from `i` on. -/
def rest (src : List T) (need i needpos : Nat) : List (List Nat) :=
  selections (need - needpos) (List.range' i (src.length - i))

/-- A call from `i` on returns, and appends what there is to select. -/
def Enumerates (src : List T) (need i needpos : Nat) (call : Memory T → Except Fault (Memory T)) : Prop :=
  ∀ m : Memory T, need ≤ m.buffer.length → ∃ m', call m = .ok m' ∧ Appends src need needpos m m' (rest src need i needpos)

theorem enumerates_detail {i needpos : Nat} (hneed : needpos ≤ need)
    (hloop : needpos < need → Enumerates src need i needpos fun m => combinationalLoop src src.length need m i needpos) :
    Enumerates src need i needpos fun m => combinationalDetail src src.length need m i needpos := by
  intro m hbuf
  dsimp only
  rw [combinationalDetail]
  by_cases hfull : needpos = need
  · subst hfull
    rw [if_pos rfl, Memory.pushBack, if_pos hbuf]
    refine ⟨_, rfl, ?_⟩
    rw [rest, Nat.sub_self, selections_zero]
    exact { appends_nothing src needpos needpos m with out := by simp [pick] }
  · rw [if_neg hfull]
    exact hloop (Nat.lt_of_le_of_ne hneed hfull) m hbuf

/-- By the number of elements that are left: the call below has one less, and so has the next turn. -/
theorem enumerates_loop (left : Nat) : ∀ {i needpos : Nat}, src.length - i = left → needpos < need →
    Enumerates src need i needpos fun m => combinationalLoop src src.length need m i needpos := by
  induction left with
  | zero =>
    intro i needpos hleft hneed m hbuf
    dsimp only
    have hend : ¬i < src.length := by omega
    have hdue : need - needpos = (need - needpos - 1) + 1 := by omega
    rw [combinationalLoop, if_neg hend]
    refine ⟨m, rfl, ?_⟩
    rw [rest, hleft, hdue, List.range'_zero, selections_succ_nil]
    exact appends_nothing src need needpos m
  | succ left ih =>
    intro i needpos hleft hneed m hbuf
    dsimp only
    have hi : i < src.length := by omega
    rw [combinationalLoop, if_pos hi, subSizeT_of_le (Nat.le_of_lt hi), subSizeT_of_le (Nat.le_of_lt hneed)]
    by_cases hfew : src.length - i < need - needpos
    · -- What is left is too little for any selection.
      refine ⟨m, if_pos hfew, ?_⟩
      rw [rest, selections_of_length_lt (by rwa [List.length_range'])]
      exact appends_nothing src need needpos m
    · have hdetail : Enumerates src need (i + 1) (needpos + 1) fun m =>
          combinationalDetail src src.length need m (i + 1) (needpos + 1) :=
        enumerates_detail hneed fun hlt => ih (by omega) hlt
      obtain ⟨m₁, hm₁, happ₁⟩ := hdetail
        { m with buffer := m.buffer.set needpos src[i], writes := m.writes ++ [needpos] } (by rwa [List.length_set])
      have happ₁ := happ₁.store hi hneed hbuf
      obtain ⟨m₂, hm₂, happ₂⟩ := ih (i := i + 1) (by omega) hneed m₁ (by rwa [happ₁.length])
      have hrest : rest src need i needpos =
          (rest src need (i + 1) (needpos + 1)).map (i :: ·) ++ rest src need (i + 1) needpos := by
        have hdue : need - needpos = need - (needpos + 1) + 1 := by omega
        have hleft' : src.length - i = src.length - (i + 1) + 1 := by omega
        rw [rest, rest, rest, hleft', List.range'_succ, hdue, selections_succ_cons]
      refine ⟨m₂, ?_, hrest ▸ happ₁.trans happ₂⟩
      have hstore : m.store needpos src[i] = .ok _ := store_of_lt (Nat.lt_of_lt_of_le hneed hbuf) _
      simp only [bind, Except.bind, hfew, if_false, load_of_lt hi, hstore]
      rw [show combinationalDetail _ _ _ _ _ _ = _ from hm₁]
      exact hm₂

/-! ### The functions -/

/-- The indices that are selected: every selection of `need` of them, in order. -/
theorem combinational_appends {m : Memory T} (hpos : 1 ≤ need) (hle : need ≤ src.length) (hbuf : need ≤ m.buffer.length) :
    ∃ m', combinational src src.length need m = .ok m' ∧
      Appends src need 0 m m' (selections need (List.range src.length)) := by
  have hrange : List.range src.length = List.range' 0 (src.length - 0) := by rw [List.range_eq_range', Nat.sub_zero]
  rw [combinational, if_neg (not_not_intro hle), if_neg (Nat.ne_of_gt hpos), hrange]
  exact enumerates_detail (Nat.zero_le need) (fun hlt => enumerates_loop _ rfl hlt) m hbuf

theorem permutationLoop_appends [Inhabited T] (src : List T) : ∀ (left i : Nat) (out : List (List T)), 1 ≤ i →
    i + left = src.length + 1 → permutationLoop src src.length left i out =
      .ok (out ++ (selectionsFrom (List.range src.length) i left).map (pick src))
  | 0, i, out, _, _ => by simp [permutationLoop, selectionsFrom]
  | left + 1, i, out, hi, hleft => by
    have hbuf : i ≤ ({ buffer := List.replicate i default, out := [] } : Memory T).buffer.length := by
      rw [List.length_replicate]
    have hle : i ≤ src.length := by omega
    obtain ⟨m, hm, happ⟩ := combinational_appends hi hle hbuf
    have hout : m.out = (selections i (List.range src.length)).map (pick src) := by
      rw [happ.out]
      rfl
    rw [permutationLoop, hm, selectionsFrom_succ, List.map_append, ← List.append_assoc, ← hout]
    exact permutationLoop_appends src left (i + 1) _ (by omega) (by omega)

theorem sublist_range_iff {m : Nat} {q : List Nat} : q.Sublist (List.range m) ↔ Selection m q := by
  rw [sublist_iff List.pairwise_lt_range]
  simp only [Selection, List.mem_range]

/-- `combinational` appends each selection of `need` elements once, in lexicographic order of the indices, and writes nothing
    but the first `need` places of the buffer; `permutation` appends each that is not empty, by size. -/
theorem enumerates_exactly [Inhabited T] (src : List T) :
    (∀ (need : Nat) (buffer : List T) (out : List (List T)), 1 ≤ need → need ≤ src.length → need ≤ buffer.length →
      ∃ (m : Memory T) (indices : List (List Nat)), combinational src src.length need { buffer, out } = .ok m ∧
        m.out = out ++ indices.map (pick src) ∧ (∀ q, q ∈ indices ↔ Selection src.length q ∧ q.length = need) ∧
        indices.Pairwise (List.Lex (· < ·)) ∧ (∀ p ∈ m.writes, p < need) ∧ m.buffer.drop need = buffer.drop need) ∧
    ∀ out : List (List T), 1 ≤ src.length → ∃ indices : List (List Nat),
      permutation (some src) src.length out = .ok (out ++ indices.map (pick src)) ∧
        (∀ q, q ∈ indices ↔ Selection src.length q ∧ q ≠ []) ∧ indices.Pairwise (BySize (· < ·)) := by
  constructor
  · intro need buffer out hpos hle hbuf
    obtain ⟨m, hm, happ⟩ := combinational_appends (m := { buffer, out }) hpos hle hbuf
    obtain ⟨places, hplaces, hlt⟩ := happ.writes
    refine ⟨m, selections need (List.range src.length), hm, happ.out, fun q => ?_, ?_, ?_, happ.behind⟩
    · rw [mem_selections, sublist_range_iff]
    · exact pairwise_selections List.pairwise_lt_range need
    · rwa [show m.writes = places from hplaces]
  · intro out hpos
    refine ⟨selectionsFrom (List.range src.length) 1 src.length, ?_, fun q => ?_, ?_⟩
    · rw [permutation, if_neg (Nat.ne_of_gt hpos)]
      exact permutationLoop_appends src src.length 1 out (Nat.le_refl 1) (Nat.add_comm ..)
    · rw [mem_selectionsFrom, sublist_range_iff]
      refine and_congr_right fun hq => ?_
      have hlen : q.length ≤ src.length := by
        simpa using (sublist_range_iff.mpr hq).length_le
      rw [← List.length_pos_iff]
      omega
    · exact pairwise_selectionsFrom List.pairwise_lt_range 1 src.length

theorem enumerates_exactly_two_of_three : ∃ (m : Memory Nat) (indices : List (List Nat)),
    combinational [7, 8, 9] 3 2 { buffer := [0, 0], out := [] } = .ok m ∧ m.out = [] ++ indices.map (pick [7, 8, 9]) ∧
      (∀ q, q ∈ indices ↔ Selection 3 q ∧ q.length = 2) ∧ indices.Pairwise (List.Lex (· < ·)) ∧
      (∀ p ∈ m.writes, p < 2) ∧ m.buffer.drop 2 = [0, 0].drop 2 :=
  (enumerates_exactly [7, 8, 9]).1 2 [0, 0] [] (by decide) (by decide) (by decide)

end Zylib.Algorithm
