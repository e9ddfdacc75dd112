import Mathlib.Data.Vector.Basic
import Mathlib.Tactic.Common

/-! Blocks of memory of a fixed length, whose elements are read, stored and moved. What a block holds at a place is a list; a write
    changes what it holds there and nothing that is apart from there. -/

namespace Block

variable {α : Type*} {n : ℕ}

/-- What an access does that is undefined. -/
inductive Fault where
  | outOfBounds
  | overlap
deriving DecidableEq

/-- The `count` elements at `src`. -/
def read (m : Vector α n) (src count : ℕ) : Except Fault (List α) :=
  if src + count ≤ n then .ok ((m.toList.drop src).take count) else .error .outOfBounds

/-- The elements are put at `dst`. -/
def store (m : Vector α n) (dst : ℕ) (xs : List α) : Except Fault (Vector α n) :=
  if dst + xs.length ≤ n then .ok (Vector.ofFn fun i => if dst ≤ i then xs[i.val - dst]?.getD m[i] else m[i])
  else .error .outOfBounds

/-- The elements at `src` are moved to `dst`, which may overlap. -/
def move (m : Vector α n) (dst src count : ℕ) : Except Fault (Vector α n) :=
  match read m src count with
  | .error e => .error e
  | .ok xs => store m dst xs

/-- A move between places that must not overlap. -/
def copy (m : Vector α n) (dst src count : ℕ) : Except Fault (Vector α n) :=
  if dst < src + count ∧ src < dst + count then .error .overlap else move m dst src count

def fill (m : Vector α n) (dst count : ℕ) (x : α) : Except Fault (Vector α n) := store m dst (List.replicate count x)

/-- The elements from `middle` to `last` are put before the ones from `first` to `middle`. -/
def rotate (m : Vector α n) (first middle last : ℕ) : Except Fault (Vector α n) :=
  match read m middle (last - middle), read m first (middle - first) with
  | .ok xs, .ok ys => store m first (xs ++ ys)
  | .error e, _ => .error e
  | _, .error e => .error e

/-! ### What a block holds -/

/-- The elements at `p` are those of the list. -/
def Holds (m : Vector α n) (p : ℕ) (xs : List α) : Prop := ∀ i < xs.length, m[p + i]? = xs[i]?

instance decidableHolds [DecidableEq α] (m : Vector α n) (p : ℕ) (xs : List α) : Decidable (Holds m p xs) :=
  inferInstanceAs (Decidable (∀ i < xs.length, m[p + i]? = xs[i]?))

variable {m m' : Vector α n} {p dst src count : ℕ} {xs ys : List α}

theorem holds_nil (m : Vector α n) (p : ℕ) : Holds m p [] := fun _ h => absurd h (Nat.not_lt_zero _)

theorem holds_toList (m : Vector α n) : Holds m 0 m.toList := by
  intro i _
  rw [Nat.zero_add, Vector.getElem?_toList]

theorem holds_append : Holds m p (xs ++ ys) ↔ Holds m p xs ∧ Holds m (p + xs.length) ys := by
  constructor
  · refine fun h => ⟨fun i hi => ?_, fun i hi => ?_⟩
    · rw [h i (by rw [List.length_append]; omega), List.getElem?_append_left hi]
    · rw [Nat.add_assoc, h _ (by rw [List.length_append]; omega), List.getElem?_append_right (Nat.le_add_right _ _),
        Nat.add_sub_cancel_left]
  · rintro ⟨hxs, hys⟩ i hi
    rw [List.length_append] at hi
    rcases Nat.lt_or_ge i xs.length with hlt | hge
    · rw [hxs i hlt, List.getElem?_append_left hlt]
    · have hy := hys (i - xs.length) (by omega)
      rw [List.getElem?_append_right hge, ← hy]
      congr 1
      omega

theorem Holds.drop (h : Holds m p xs) (k : ℕ) : Holds m (p + k) (xs.drop k) := by
  intro i hi
  rw [List.length_drop] at hi
  rw [Nat.add_assoc, h _ (by omega), List.getElem?_drop]

theorem Holds.take (h : Holds m p xs) (k : ℕ) : Holds m p (xs.take k) := by
  intro i hi
  rw [List.length_take] at hi
  rw [h i (by omega), List.getElem?_take_of_lt (by omega)]

theorem Holds.le (h : Holds m p xs) (hne : xs ≠ []) : p + xs.length ≤ n := by
  by_contra hlt
  have hlen := List.length_pos_iff.mpr hne
  have hlast := h (xs.length - 1) (by omega)
  rw [List.getElem?_eq_getElem (by omega), Vector.getElem?_eq_none (by omega)] at hlast
  cases hlast

theorem Holds.unique (h : Holds m p xs) (h' : Holds m p ys) (hlen : xs.length = ys.length) : xs = ys := by
  refine List.ext_getElem? fun i => ?_
  rcases Nat.lt_or_ge i xs.length with hlt | hge
  · rw [← h i hlt, h' i (hlen ▸ hlt)]
  · rw [List.getElem?_eq_none hge, List.getElem?_eq_none (hlen ▸ hge)]

/-- What is read is what is held there. -/
theorem Holds.read_eq (h : Holds m p xs) (hn : p + xs.length ≤ n) : read m p xs.length = .ok xs := by
  have hread : Holds m p ((m.toList.drop p).take xs.length) := by
    have hdrop := (holds_toList m).drop p
    rw [Nat.zero_add] at hdrop
    exact hdrop.take _
  rw [Block.read, if_pos hn]
  refine congrArg Except.ok (hread.unique h ?_)
  rw [List.length_take, List.length_drop, Vector.length_toList]
  omega

theorem exists_holds (m : Vector α n) (p count : ℕ) (h : p + count ≤ n) : ∃ xs, xs.length = count ∧ Holds m p xs := by
  have hslice := ((holds_toList m).drop p).take count
  rw [Nat.zero_add] at hslice
  refine ⟨_, ?_, hslice⟩
  rw [List.length_take, List.length_drop, Vector.length_toList]
  omega

theorem holds_singleton {x : α} : Holds m p [x] ↔ m[p]? = some x := by
  refine ⟨fun h => h 0 Nat.one_pos, fun h i hi => ?_⟩
  rw [List.length_singleton, Nat.lt_one_iff] at hi
  rw [hi]
  exact h

/-! ### Writes -/

/-- The block now holds the elements at `dst`, and what is apart from there is as it was. -/
structure Writes (m m' : Vector α n) (dst : ℕ) (xs : List α) : Prop where
  holds : Holds m' dst xs
  frame : ∀ {p : ℕ} {ys : List α}, Holds m p ys → p + ys.length ≤ dst ∨ dst + xs.length ≤ p → Holds m' p ys

theorem writes_nil (m : Vector α n) (dst : ℕ) : Writes m m dst [] := ⟨holds_nil _ _, fun h _ => h⟩

/-- Two writes, one behind the other. -/
theorem Writes.append {m'' : Vector α n} (h : Writes m m' dst xs) (h' : Writes m' m'' (dst + xs.length) ys) :
    Writes m m'' dst (xs ++ ys) where
  holds := holds_append.mpr ⟨h'.frame h.holds (.inl le_rfl), h'.holds⟩
  frame {_ _} hp hapart := by
    rw [List.length_append] at hapart
    exact h'.frame (h.frame hp (by omega)) (by omega)

theorem Holds.slice (h : Holds m p xs) (k count : ℕ) : Holds m (p + k) ((xs.drop k).take count) := (h.drop k).take count

theorem store_eq (m : Vector α n) (dst : ℕ) (xs : List α) (h : dst + xs.length ≤ n) : ∃ m', store m dst xs = .ok m' ∧ Writes m m' dst xs := by
  refine ⟨_, if_pos h, fun i hi => ?_, fun {p ys} hp hapart i hi => ?_⟩
  · rw [Vector.getElem?_ofFn, dif_pos (by omega), List.getElem?_eq_getElem hi]
    simp only [Nat.le_add_right, if_true, Nat.add_sub_cancel_left, List.getElem?_eq_getElem hi, Option.getD_some]
  · have hpi := hp.le (List.ne_nil_of_length_pos (Nat.zero_lt_of_lt hi))
    rw [← hp i hi, Vector.getElem?_ofFn, dif_pos (by omega), Vector.getElem?_eq_getElem (by omega)]
    rcases hapart with hlt | hge
    · simp only [show ¬dst ≤ p + i by omega, if_false]
      rfl
    · simp only [show dst ≤ p + i by omega, if_true, List.getElem?_eq_none (show xs.length ≤ p + i - dst by omega), Option.getD_none]
      rfl

theorem writes_set (m : Vector α n) {i : ℕ} (h : i < n) (x : α) : Writes m (m.set i x) i [x] where
  holds j hj := by
    rw [Nat.lt_one_iff.mp hj, Nat.add_zero, Vector.getElem?_set_self h]
    rfl
  frame {p ys} hp hapart j hj := by
    rw [List.length_singleton] at hapart
    rw [Vector.getElem?_set_ne h (by omega), hp j hj]

theorem move_eq (h : Holds m src xs) (hlen : xs.length = count) (dst : ℕ) (hsrc : src + count ≤ n) (hdst : dst + count ≤ n) :
    ∃ m', move m dst src count = .ok m' ∧ Writes m m' dst xs := by
  subst hlen
  rw [move, h.read_eq hsrc]
  exact store_eq m dst xs hdst

theorem copy_eq (h : Holds m src xs) (hlen : xs.length = count) (dst : ℕ) (hsrc : src + count ≤ n) (hdst : dst + count ≤ n)
    (hapart : dst + count ≤ src ∨ src + count ≤ dst) : ∃ m', copy m dst src count = .ok m' ∧ Writes m m' dst xs := by
  rw [copy, if_neg (by omega)]
  exact move_eq h hlen dst hsrc hdst

theorem fill_eq (m : Vector α n) (dst count : ℕ) (x : α) (h : dst + count ≤ n) :
    ∃ m', fill m dst count x = .ok m' ∧ Writes m m' dst (List.replicate count x) :=
  store_eq m dst _ (by rwa [List.length_replicate])

theorem rotate_eq (middle : ℕ) {last : ℕ} (hxs : Holds m p xs) (hmiddle : p + xs.length = middle) (hys : Holds m middle ys)
    (hlast : middle + ys.length = last) (h : last ≤ n) : ∃ m', rotate m p middle last = .ok m' ∧ Writes m m' p (ys ++ xs) := by
  subst hmiddle hlast
  rw [rotate, Nat.add_sub_cancel_left, Nat.add_sub_cancel_left, hys.read_eq h, hxs.read_eq (by omega)]
  exact store_eq m p _ (by rw [List.length_append]; omega)

end Block
