import Zylib.ZySoft.TimingWheel
import Mathlib.Data.List.Nodup

/-! The representation invariant of a timing wheel, and what each call does to a wheel that meets it.
    `cancel` and `reset` abort when the entry they take out of a slot is the last of the slot, and
    `cancel` looks for an immediate entry in a slot, where it is not. -/

namespace Zylib.ZySoft.TimingWheel

/-! ### Slots -/

namespace Slot
variable {s : Slot} {key id t : Nat}

def Sorted (s : Slot) : Prop := s.Pairwise fun x y => x.1 ≤ y.1

theorem upTo_append_above (s : Slot) (t : Nat) : s.upTo t ++ s.above t = s := List.takeWhile_append_dropWhile

theorem insert_perm (s : Slot) (key id : Nat) : (s.insert key id).Perm ((key, id) :: s) := by
  have h : (s.insert key id).Perm ((key, id) :: (s.upTo key ++ s.above key)) := List.perm_middle
  rwa [upTo_append_above] at h

theorem mem_upTo_iff (hs : s.Sorted) {x : Nat × Nat} : x ∈ s.upTo t ↔ x ∈ s ∧ x.1 ≤ t := by
  induction s with
  | nil => simp [upTo]
  | cons y s ih =>
    obtain ⟨hy, hs'⟩ := List.pairwise_cons.mp hs
    by_cases hyt : y.1 ≤ t
    · have hcons : upTo (y :: s) t = y :: upTo s t := by simp [upTo, hyt]
      rw [hcons, List.mem_cons, ih hs', List.mem_cons]
      constructor
      · rintro (rfl | ⟨hx, hxt⟩)
        · exact ⟨Or.inl rfl, hyt⟩
        · exact ⟨Or.inr hx, hxt⟩
      · rintro ⟨rfl | hx, hxt⟩
        · exact Or.inl rfl
        · exact Or.inr ⟨hx, hxt⟩
    · have hnil : upTo (y :: s) t = [] := by simp [upTo, hyt]
      rw [hnil]
      constructor
      · intro hx
        cases hx
      · rintro ⟨hx, hxt⟩
        rcases List.mem_cons.mp hx with rfl | hx
        · exact absurd hxt hyt
        · exact absurd (Nat.le_trans (hy x hx) hxt) hyt

theorem lt_of_mem_above (hs : s.Sorted) {x : Nat × Nat} (hx : x ∈ s.above t) : t < x.1 := by
  induction s with
  | nil => cases hx
  | cons y s ih =>
    obtain ⟨hy, hs'⟩ := List.pairwise_cons.mp hs
    by_cases hyt : y.1 ≤ t
    · have hcons : above (y :: s) t = above s t := by simp [above, hyt]
      rw [hcons] at hx
      exact ih hs' hx
    · have hall : above (y :: s) t = y :: s := by simp [above, hyt]
      rw [hall] at hx
      rcases List.mem_cons.mp hx with rfl | hx
      · exact Nat.lt_of_not_le hyt
      · exact Nat.lt_of_lt_of_le (Nat.lt_of_not_le hyt) (hy x hx)

theorem Sorted.insert (hs : s.Sorted) (key id : Nat) : (s.insert key id).Sorted := by
  have hs' := hs
  rw [← upTo_append_above s key, Sorted, List.pairwise_append] at hs'
  obtain ⟨h₁, h₂, h₁₂⟩ := hs'
  have habove : ∀ y ∈ s.above key, key ≤ y.1 := fun y hy => Nat.le_of_lt (lt_of_mem_above hs hy)
  refine List.pairwise_append.mpr ⟨h₁, List.pairwise_cons.mpr ⟨habove, h₂⟩, fun x hx y hy => ?_⟩
  rcases List.mem_cons.mp hy with rfl | hy
  · exact ((mem_upTo_iff hs).mp hx).2
  · exact h₁₂ x hx y hy

theorem Sorted.sublist {s' : Slot} (hs : s.Sorted) (h : s'.Sublist s) : s'.Sorted := List.Pairwise.sublist h hs

theorem removeEntry_mid {a b : Slot} (ha : (key, id) ∉ a) :
    removeEntry (a ++ (key, id) :: b) key id = .ok (a ++ b, !b.isEmpty) := by
  have hfind : (a ++ (key, id) :: b).findIdx? (· == (key, id)) = some a.length := by
    have hnone : a.findIdx? (· == (key, id)) = none := by
      rw [List.findIdx?_eq_none_iff]
      intro x hx
      exact beq_eq_false_iff_ne.mpr fun e => ha (e ▸ hx)
    simp [List.findIdx?_append, hnone, List.findIdx?_cons]
  have hback : (a.length + 1 != (a ++ (key, id) :: b).length) = !b.isEmpty := by
    cases b <;> simp
  rw [removeEntry, hfind]
  simp only [hback]
  rw [List.eraseIdx_append_of_length_le (Nat.le_refl _)]
  simp

theorem removeEntry_of_not_mem (h : (key, id) ∉ s) : removeEntry s key id = .error .eraseEnd := by
  have hnone : s.findIdx? (· == (key, id)) = none := by
    rw [List.findIdx?_eq_none_iff]
    intro x hx
    exact beq_eq_false_iff_ne.mpr fun e => h (e ▸ hx)
  rw [removeEntry, hnone]

end Slot

variable {α : Type} {N : Nat} {w : TimingWheel α N} {id : Nat}

@[simp] theorem setSlot_self (w : TimingWheel α N) (i : Fin N) : w.setSlot i (w.wheel i) = w := by
  rw [setSlot, Function.update_eq_self]

@[simp] theorem wheel_setSlot (w : TimingWheel α N) (i : Fin N) (s : Slot) : (w.setSlot i s).wheel i = s :=
  Function.update_self ..

theorem wheel_setSlot_of_ne (w : TimingWheel α N) {i j : Fin N} (h : j ≠ i) (s : Slot) :
    (w.setSlot i s).wheel j = w.wheel j :=
  Function.update_of_ne h ..

/-! ### The invariant -/

/-- The entries in the slots. -/
def wheelEntries (w : TimingWheel α N) : List Nat := (List.finRange N).flatMap fun i => (w.wheel i).map Prod.snd

theorem length_wheelEntries (w : TimingWheel α N) : w.wheelEntries.length = w.wheelEntriesCount := by
  simp [wheelEntries, wheelEntriesCount, List.length_flatMap]

theorem mem_wheelEntries {i : Fin N} {x : Nat × Nat} (h : x ∈ w.wheel i) : x.2 ∈ w.wheelEntries :=
  List.mem_flatMap.mpr ⟨i, List.mem_finRange i, List.mem_map.mpr ⟨x, h, rfl⟩⟩

/-- The entries in the slots are those in one slot and the rest, whatever is in the slot. -/
theorem exists_rest (w : TimingWheel α N) (i : Fin N) :
    ∃ rest, ∀ s, (w.setSlot i s).wheelEntries.Perm (s.map Prod.snd ++ rest) := by
  obtain ⟨l₁, l₂, hl⟩ := List.append_of_mem (List.mem_finRange i)
  have hnodup := List.nodup_finRange N
  rw [hl] at hnodup
  have hi : i ∉ l₁ ∧ i ∉ l₂ := by
    rw [List.nodup_middle, List.nodup_cons, List.mem_append] at hnodup
    exact not_or.mp hnodup.1
  have hother : ∀ (l : List (Fin N)) (s : Slot), i ∉ l →
      (l.flatMap fun j => ((w.setSlot i s).wheel j).map Prod.snd) = l.flatMap fun j => (w.wheel j).map Prod.snd := by
    intro l s hnot
    refine List.flatMap_congr fun j hj => ?_
    have hne : j ≠ i := fun e => hnot (by rwa [← e])
    rw [wheel_setSlot_of_ne w hne]
  refine ⟨(l₁.flatMap fun j => (w.wheel j).map Prod.snd) ++ l₂.flatMap fun j => (w.wheel j).map Prod.snd, fun s => ?_⟩
  rw [wheelEntries, hl, List.flatMap_append, List.flatMap_cons, hother l₁ s hi.1, hother l₂ s hi.2, wheel_setSlot]
  exact List.perm_append_comm_assoc ..

variable [NeZero N]

/-- All entries are the immediate ones and those in the slots, each stored once: an immediate entry has
    duration 0, and one with another duration is in the slot of its tick, under its tick. -/
structure Inv (w : TimingWheel α N) : Prop where
  nodup : w.allEntries.Nodup
  all : w.allEntries.Perm (w.immediateEntries ++ w.wheelEntries)
  immediate : ∀ id ∈ w.immediateEntries, ∃ e, w.heap[id]? = some e ∧ e.duration = 0
  slot : ∀ i, ∀ x ∈ w.wheel i, ∃ e, w.heap[x.2]? = some e ∧ e.duration ≠ 0 ∧ e.tick = x.1 ∧ index e.tick = i
  sorted : ∀ i, (w.wheel i).Sorted

theorem inv_empty : Inv ({} : TimingWheel α N) where
  nodup := List.nodup_nil
  all := by simp [wheelEntries]
  immediate := fun id h => by cases h
  slot := fun i x h => by cases h
  sorted := fun i => List.Pairwise.nil

namespace Inv

theorem assertSizes (h : Inv w) : w.assertSizes = .ok () := by
  have := h.all.length_eq
  rw [List.length_append, length_wheelEntries] at this
  rw [TimingWheel.assertSizes, if_pos (by rw [beq_iff_eq]; omega)]

theorem disjoint (h : Inv w) : (w.immediateEntries ++ w.wheelEntries).Nodup := h.all.nodup_iff.mp h.nodup

theorem cases (h : Inv w) (hid : id ∈ w.allEntries) : ∃ e, w.heap[id]? = some e ∧
    ((e.duration = 0 ∧ id ∈ w.immediateEntries) ∨ (e.duration ≠ 0 ∧ (e.tick, id) ∈ w.wheel (index e.tick))) := by
  rcases List.mem_append.mp (h.all.mem_iff.mp hid) with hi | hw
  · obtain ⟨e, he, hd⟩ := h.immediate id hi
    exact ⟨e, he, Or.inl ⟨hd, hi⟩⟩
  · obtain ⟨i, -, hi⟩ := List.mem_flatMap.mp hw
    obtain ⟨x, hx, rfl⟩ := List.mem_map.mp hi
    obtain ⟨e, he, hd, ht, hidx⟩ := h.slot i x hx
    refine ⟨e, he, Or.inr ⟨hd, ?_⟩⟩
    rw [hidx, ht]
    exact hx

theorem lt_length (h : Inv w) (hid : id ∈ w.allEntries) : id < w.heap.length := by
  obtain ⟨e, he, -⟩ := h.cases hid
  exact (List.getElem?_eq_some_iff.mp he).1

theorem mem_of_immediate (h : Inv w) (hid : id ∈ w.immediateEntries) : id ∈ w.allEntries :=
  h.all.mem_iff.mpr (List.mem_append_left _ hid)

theorem mem_of_slot (h : Inv w) {i : Fin N} {x : Nat × Nat} (hx : x ∈ w.wheel i) : x.2 ∈ w.allEntries :=
  h.all.mem_iff.mpr (List.mem_append_right _ (mem_wheelEntries hx))

theorem lock (h : Inv w) (id : Nat) : w.lock id = if id ∈ w.allEntries then w.heap[id]? else none := by
  have hiff : (id ∈ w.allEntries ∨ id ∈ w.immediateEntries ∨ ∃ i, id ∈ (w.wheel i).map Prod.snd) ↔ id ∈ w.allEntries := by
    constructor
    · rintro (hid | hid | ⟨i, hid⟩)
      · exact hid
      · exact h.mem_of_immediate hid
      · obtain ⟨x, hx, rfl⟩ := List.mem_map.mp hid
        exact h.mem_of_slot hx
    · exact Or.inl
  rw [TimingWheel.lock]
  simp only [hiff]

theorem lock_eq_some_iff (h : Inv w) {e : Entry α} : w.lock id = some e ↔ id ∈ w.allEntries ∧ w.heap[id]? = some e := by
  rw [h.lock]
  by_cases hid : id ∈ w.allEntries
  · rw [if_pos hid, and_iff_right hid]
  · rw [if_neg hid]
    exact ⟨fun h0 => (by cases h0), fun h0 => absurd h0.1 hid⟩

end Inv

/-! ### Storing and taking out one entry -/

namespace Inv

/-- Objects that no container holds do not matter. -/
theorem of_heap (h : Inv w) {heap : List (Entry α)} (heq : ∀ id ∈ w.allEntries, heap[id]? = w.heap[id]?) :
    Inv { w with heap } where
  nodup := h.nodup
  all := h.all
  immediate := fun id hid => by
    obtain ⟨e, he, hd⟩ := h.immediate id hid
    exact ⟨e, (heq id (h.mem_of_immediate hid)).trans he, hd⟩
  slot := fun i x hx => by
    obtain ⟨e, he, hrest⟩ := h.slot i x hx
    exact ⟨e, (heq x.2 (h.mem_of_slot hx)).trans he, hrest⟩
  sorted := h.sorted

theorem insert_immediate (h : Inv w) (hid : id ∉ w.allEntries) {e : Entry α} (he : w.heap[id]? = some e)
    (hd : e.duration = 0) :
    Inv { w with immediateEntries := w.immediateEntries ++ [id], allEntries := w.allEntries ++ [id] } where
  nodup := List.nodup_append.mpr ⟨h.nodup, List.nodup_singleton id, fun x hx y hy => by
    rw [List.mem_singleton.mp hy]
    exact fun e => hid (e ▸ hx)⟩
  all := by
    refine (h.all.append_right [id]).trans ?_
    show List.Perm _ ((w.immediateEntries ++ [id]) ++ w.wheelEntries)
    rw [List.append_assoc, List.append_assoc]
    exact List.Perm.append_left _ List.perm_append_comm
  immediate := fun x hx => by
    rcases List.mem_append.mp hx with hx | hx
    · exact h.immediate x hx
    · rw [List.mem_singleton.mp hx]
      exact ⟨e, he, hd⟩
  slot := h.slot
  sorted := h.sorted

theorem insert_slot (h : Inv w) (hid : id ∉ w.allEntries) {e : Entry α} (he : w.heap[id]? = some e)
    (hd : e.duration ≠ 0) {allEntries : List Nat} (hall : allEntries.Perm (id :: w.allEntries)) :
    Inv { w.setSlot (index e.tick) ((w.wheel (index e.tick)).insert e.tick id) with allEntries } where
  nodup := hall.nodup_iff.mpr (List.nodup_cons.mpr ⟨hid, h.nodup⟩)
  all := by
    obtain ⟨rest, hrest⟩ := exists_rest w (index e.tick)
    have hnew : (w.setSlot (index e.tick) ((w.wheel (index e.tick)).insert e.tick id)).wheelEntries.Perm
        (id :: w.wheelEntries) := by
      have hold := hrest (w.wheel (index e.tick))
      rw [setSlot_self] at hold
      refine (hrest _).trans (((Slot.insert_perm _ _ _).map Prod.snd).append_right rest |>.trans ?_)
      exact List.Perm.cons id hold.symm
    refine hall.trans ((List.Perm.cons id h.all).trans ?_)
    exact List.perm_middle.symm.trans (List.Perm.append_left _ hnew.symm)
  immediate := h.immediate
  slot := fun i x hx => by
    by_cases hi : i = index e.tick
    · subst hi
      rw [wheel_setSlot] at hx
      rcases List.mem_cons.mp ((Slot.insert_perm _ _ _).mem_iff.mp hx) with rfl | hx
      · exact ⟨e, he, hd, rfl, rfl⟩
      · exact h.slot _ x hx
    · rw [wheel_setSlot_of_ne w hi] at hx
      exact h.slot i x hx
  sorted := fun i => by
    by_cases hi : i = index e.tick
    · subst hi
      rw [wheel_setSlot]
      exact (h.sorted _).insert _ _
    · rw [wheel_setSlot_of_ne w hi]
      exact h.sorted i

theorem remove_slot (h : Inv w) {i : Fin N} {a b : Slot} {key : Nat} (hs : w.wheel i = a ++ (key, id) :: b) :
    Inv { w.setSlot i (a ++ b) with allEntries := w.allEntries.erase id } where
  nodup := h.nodup.erase id
  all := by
    obtain ⟨rest, hrest⟩ := exists_rest w i
    have hold := hrest (w.wheel i)
    rw [setSlot_self, hs, List.map_append, List.map_cons, List.append_assoc] at hold
    have hnew := hrest (a ++ b)
    rw [List.map_append, List.append_assoc] at hnew
    have hw : w.wheelEntries.Perm (id :: (w.setSlot i (a ++ b)).wheelEntries) :=
      hold.trans (List.perm_middle.trans (List.Perm.cons id hnew.symm))
    have hall : w.allEntries.Perm (id :: (w.immediateEntries ++ (w.setSlot i (a ++ b)).wheelEntries)) :=
      h.all.trans ((List.Perm.append_left _ hw).trans List.perm_middle)
    have := hall.erase id
    rwa [List.erase_cons_head] at this
  immediate := h.immediate
  slot := fun j x hx => by
    by_cases hj : j = i
    · subst hj
      rw [wheel_setSlot] at hx
      refine h.slot j x ?_
      rw [hs]
      exact (List.sublist_cons_self _ b).append_left a |>.subset hx
    · rw [wheel_setSlot_of_ne w hj] at hx
      exact h.slot j x hx
  sorted := fun j => by
    by_cases hj : j = i
    · subst hj
      rw [wheel_setSlot]
      have := h.sorted j
      rw [hs] at this
      exact this.sublist ((List.sublist_cons_self _ b).append_left a)
    · rw [wheel_setSlot_of_ne w hj]
      exact h.sorted j

end Inv

/-! ### The calls -/

theorem assertSizes_then {β : Type} (h : Inv w) (x : β) :
    (do w.assertSizes; return x : Except Fault β) = .ok x := by
  rw [h.assertSizes]
  rfl

theorem tick_inv (h : Inv w) : Inv w.tick := ⟨h.nodup, h.all, h.immediate, h.slot, h.sorted⟩

/-- An entry that expires at the tick `t` when the slot of the current tick is looked at. -/
def Expires (w : TimingWheel α N) (t : Nat) (e : Entry α) : Prop :=
  e.duration = 0 ∨ index (N := N) e.tick = index w.currentTick ∧ e.tick ≤ t

theorem append_diff {l r : List Nat} : (l ++ r).diff l = r := by
  induction l with
  | nil => rfl
  | cons a l ih => rw [List.cons_append, List.diff_cons, List.erase_cons_head, ih]

/-- The entries that `get_expired(t)` puts out. -/
def due (w : TimingWheel α N) (t : Nat) : List Nat :=
  w.immediateEntries ++ ((w.wheel (index w.currentTick)).upTo t).map Prod.snd

/-- The wheel that `get_expired(t)` leaves. -/
def settled (w : TimingWheel α N) (t : Nat) : TimingWheel α N :=
  { w.setSlot (index w.currentTick) ((w.wheel (index w.currentTick)).above t) with
    immediateEntries := []
    allEntries := w.allEntries.diff (w.due t) }

theorem Inv.perm_due (h : Inv w) (t : Nat) : w.allEntries.Perm (w.due t ++ (w.settled t).wheelEntries) := by
  obtain ⟨rest, hrest⟩ := exists_rest w (index w.currentTick)
  let s := w.wheel (index w.currentTick)
  have hw : w.wheelEntries.Perm ((s.upTo t).map Prod.snd ++ ((s.above t).map Prod.snd ++ rest)) := by
    have := hrest s
    rwa [setSlot_self, ← Slot.upTo_append_above s t, List.map_append, List.append_assoc] at this
  refine h.all.trans ?_
  rw [due, List.append_assoc]
  exact List.Perm.append_left _ (hw.trans (List.Perm.append_left _ (hrest _).symm))

theorem Inv.settled (h : Inv w) (t : Nat) : Inv (w.settled t) where
  nodup := h.nodup.diff
  all := by
    have := (h.perm_due t).diff_right (w.due t)
    rwa [append_diff] at this
  immediate := by
    intro id hid
    cases hid
  slot := by
    intro i x hx
    refine h.slot i x ?_
    by_cases hi : i = index w.currentTick
    · subst hi
      rw [show (w.settled t).wheel (index w.currentTick) = _ from wheel_setSlot ..] at hx
      exact (List.dropWhile_sublist _).subset hx
    · rwa [show (w.settled t).wheel i = w.wheel i from wheel_setSlot_of_ne w hi _] at hx
  sorted := by
    intro i
    by_cases hi : i = index w.currentTick
    · subst hi
      rw [show (w.settled t).wheel (index w.currentTick) = _ from wheel_setSlot ..]
      exact (h.sorted _).sublist (List.dropWhile_sublist _)
    · rw [show (w.settled t).wheel i = w.wheel i from wheel_setSlot_of_ne w hi _]
      exact h.sorted i

theorem Inv.mem_due_iff (h : Inv w) (t id : Nat) :
    id ∈ w.due t ↔ id ∈ w.allEntries ∧ ∀ e, w.heap[id]? = some e → w.Expires t e := by
  have hs := h.sorted (index w.currentTick)
  constructor
  · intro hid
    rcases List.mem_append.mp hid with hi | hi
    · obtain ⟨e, he, hd⟩ := h.immediate id hi
      refine ⟨h.mem_of_immediate hi, fun e' he' => ?_⟩
      rw [he] at he'
      cases he'
      exact Or.inl hd
    · obtain ⟨x, hx, rfl⟩ := List.mem_map.mp hi
      obtain ⟨hx, hxt⟩ := (Slot.mem_upTo_iff hs).mp hx
      obtain ⟨e, he, -, htick, hidx⟩ := h.slot _ x hx
      refine ⟨h.mem_of_slot hx, fun e' he' => ?_⟩
      rw [he] at he'
      cases he'
      exact Or.inr ⟨hidx, htick ▸ hxt⟩
  · rintro ⟨hid, hexp⟩
    obtain ⟨e, he, ⟨hd, hi⟩ | ⟨hd, hx⟩⟩ := h.cases hid
    · exact List.mem_append_left _ hi
    · rcases hexp e he with hd' | ⟨hidx, hle⟩
      · exact absurd hd' hd
      · rw [hidx] at hx
        exact List.mem_append_right _ (List.mem_map.mpr ⟨_, (Slot.mem_upTo_iff hs).mpr ⟨hx, hle⟩, rfl⟩)

theorem getExpired_spec (h : Inv w) (t : Nat) : ∃ ids w', w.getExpired t = .ok (ids, w') ∧ Inv w' ∧ ids.Nodup ∧
    (∀ id, id ∈ ids ↔ id ∈ w.allEntries ∧ ∀ e, w.heap[id]? = some e → w.Expires t e) ∧
    w'.allEntries = w.allEntries.diff ids ∧ w'.heap = w.heap ∧ w'.currentTick = w.currentTick := by
  have hnodup : (w.due t ++ (w.settled t).wheelEntries).Nodup := (h.perm_due t).nodup_iff.mp h.nodup
  refine ⟨w.due t, w.settled t, ?_, h.settled t, (List.nodup_append.mp hnodup).1, h.mem_due_iff t, rfl, rfl, rfl⟩
  simp only [getExpired, h.assertSizes]
  exact assertSizes_then (h.settled t) _

theorem add_spec (h : Inv w) (value : α) (duration : UInt64) : ∃ w' e, w.add value duration = .ok w' ∧ Inv w' ∧
    w'.allEntries = w.allEntries ++ [w.heap.length] ∧ w'.heap = w.heap ++ [e] ∧ w'.currentTick = w.currentTick ∧
    e.value = value ∧ e.duration = duration.toNat ∧
    (e.duration ≠ 0 → e.tick = uint64 (duration.toNat + w.currentTick)) := by
  have hnew : w.heap.length ∉ w.allEntries := fun hid => Nat.lt_irrefl _ (h.lt_length hid)
  have hheap : ∀ e, Inv { w with heap := w.heap ++ [e] } := fun e =>
    h.of_heap fun id hid => List.getElem?_append_left (h.lt_length hid)
  have hlast : ∀ e : Entry α, (w.heap ++ [e])[w.heap.length]? = some e := fun e => by simp
  by_cases hd : duration.toNat = 0
  · let e : Entry α := { tick := w.currentTick, duration := duration.toNat, value }
    have hinv := (hheap e).insert_immediate hnew (hlast e) hd
    refine ⟨_, e, ?_, hinv, rfl, rfl, rfl, rfl, rfl, fun hne => absurd hd hne⟩
    simp [add, h.assertSizes, hd, e]
  · let e : Entry α := { tick := uint64 (duration.toNat + w.currentTick), duration := duration.toNat, value }
    have hall : (w.allEntries ++ [w.heap.length]).Perm (w.heap.length :: w.allEntries) := List.perm_append_comm
    have hinv := (hheap e).insert_slot hnew (hlast e) hd hall
    refine ⟨_, e, ?_, hinv, rfl, rfl, rfl, rfl, rfl, fun _ => rfl⟩
    simp only [add, h.assertSizes, hd, if_false]
    exact assertSizes_then hinv _

def Last (w : TimingWheel α N) (id : Nat) (e : Entry α) : Prop := (w.wheel (index e.tick)).getLast? = some (e.tick, id)

theorem Inv.split (h : Inv w) {e : Entry α} (hl : w.lock id = some e) (hd : e.duration ≠ 0) :
    ∃ a b, w.wheel (index e.tick) = a ++ (e.tick, id) :: b ∧ (b = [] ↔ w.Last id e) ∧
      (w.wheel (index e.tick)).removeEntry e.tick id = .ok (a ++ b, !b.isEmpty) := by
  obtain ⟨hid, he⟩ := h.lock_eq_some_iff.mp hl
  have hx : (e.tick, id) ∈ w.wheel (index e.tick) := by
    obtain ⟨e', he', hcases⟩ := h.cases hid
    rw [he] at he'
    cases he'
    exact (hcases.resolve_left fun hc => hd hc.1).2
  obtain ⟨a, b, hs, ha⟩ := List.eq_append_cons_of_mem hx
  refine ⟨a, b, hs, ?_, by rw [hs, Slot.removeEntry_mid ha]⟩
  have hb : (e.tick, id) ∉ b := by
    -- The entry is stored once.
    obtain ⟨rest, hrest⟩ := exists_rest w (index e.tick)
    have hw := hrest (w.wheel (index e.tick))
    rw [setSlot_self] at hw
    have hnodup := (List.nodup_append.mp (hw.nodup_iff.mp (List.nodup_append.mp h.disjoint).2.1)).1
    rw [hs, List.map_append, List.map_cons, List.nodup_middle, List.nodup_cons] at hnodup
    exact fun hb => hnodup.1 (List.mem_append_right _ (List.mem_map.mpr ⟨_, hb, rfl⟩))
  rw [Last, hs]
  constructor
  · rintro rfl
    simp
  · intro hlast
    by_contra hne
    rw [List.getLast?_append_of_ne_nil _ (List.cons_ne_nil _ _), List.getLast?_cons_of_ne_nil hne] at hlast
    exact hb (List.mem_of_getLast? hlast)

/-- A `cancel` of an entry that is stored takes it out, if the entry is not an immediate one and not the
    last of its slot. -/
theorem cancel_ok (h : Inv w) {e : Entry α} (hl : w.lock id = some e) (hd : e.duration ≠ 0) (hlast : ¬w.Last id e) :
    ∃ w', w.cancel id = .ok w' ∧ Inv w' ∧ w'.allEntries = w.allEntries.erase id ∧ w'.heap = w.heap ∧
      w'.currentTick = w.currentTick := by
  obtain ⟨a, b, hs, hb, hremove⟩ := h.split hl hd
  have hret : b.isEmpty = false := List.isEmpty_eq_false_iff.mpr (mt hb.mp hlast)
  have hinv := h.remove_slot hs
  refine ⟨_, ?_, hinv, rfl, rfl, rfl⟩
  simp only [cancel, hl, h.assertSizes, (h.lock_eq_some_iff.mp hl).1, hremove, hret]
  exact assertSizes_then hinv _

theorem cancel_immediate (h : Inv w) {e : Entry α} (hl : w.lock id = some e) (hd : e.duration = 0) :
    w.cancel id = .error .eraseEnd := by
  obtain ⟨hid, he⟩ := h.lock_eq_some_iff.mp hl
  have hremove : (w.wheel (index e.tick)).removeEntry e.tick id = .error .eraseEnd := by
    refine Slot.removeEntry_of_not_mem fun hx => ?_
    obtain ⟨e', he', hd', -⟩ := h.slot _ _ hx
    rw [he] at he'
    cases he'
    exact hd' hd
  simp only [cancel, hl, h.assertSizes, hid, hremove]
  rfl

theorem cancel_last (h : Inv w) {e : Entry α} (hl : w.lock id = some e) (hd : e.duration ≠ 0) (hlast : w.Last id e) :
    w.cancel id = .error .assertion := by
  obtain ⟨a, b, hs, hb, hremove⟩ := h.split hl hd
  have hret : b.isEmpty = true := List.isEmpty_iff.mpr (hb.mpr hlast)
  simp only [cancel, hl, h.assertSizes, (h.lock_eq_some_iff.mp hl).1, hremove, hret]
  rfl

theorem cancel_expired (hl : w.lock id = none) : w.cancel id = .ok w := by
  simp only [cancel, hl]
  rfl

/-- The entry is to be moved: it has a duration, and was not added or reset in this tick. -/
def Moves (w : TimingWheel α N) (e : Entry α) : Prop :=
  e.duration ≠ 0 ∧ e.tick ≠ uint64 (e.duration + w.currentTick)

/-- A `reset` of an entry that is to be moved moves it, if the entry is not the last of its slot. -/
theorem reset_ok (h : Inv w) {e : Entry α} (hl : w.lock id = some e) (hm : w.Moves e) (hlast : ¬w.Last id e) :
    ∃ w', w.reset id = .ok w' ∧ Inv w' ∧ w'.allEntries = w.allEntries ∧
      w'.heap = w.heap.set id { e with tick := uint64 (e.duration + w.currentTick) } ∧ w'.currentTick = w.currentTick := by
  obtain ⟨hid, he⟩ := h.lock_eq_some_iff.mp hl
  obtain ⟨hd, hne⟩ := hm
  obtain ⟨a, b, hs, hb, hremove⟩ := h.split hl hd
  have hret : b.isEmpty = false := List.isEmpty_eq_false_iff.mpr (mt hb.mp hlast)
  let e' : Entry α := { e with tick := uint64 (e.duration + w.currentTick) }
  have hout : id ∉ w.allEntries.erase id := h.nodup.not_mem_erase
  have hheap : ∀ x ∈ w.allEntries.erase id, (w.heap.set id e')[x]? = w.heap[x]? := by
    intro x hx
    refine List.getElem?_set_ne fun hxid => ?_
    subst hxid
    exact hout hx
  have hself : (w.heap.set id e')[id]? = some e' := List.getElem?_set_self (h.lt_length hid)
  have hinv := ((h.remove_slot hs).of_heap hheap).insert_slot hout hself hd (List.perm_cons_erase hid)
  refine ⟨_, ?_, hinv, rfl, rfl, rfl⟩
  simp only [reset, hl, hd, h.assertSizes, hid, hne, hremove, hret, if_false, if_true]
  exact assertSizes_then hinv _

theorem reset_last (h : Inv w) {e : Entry α} (hl : w.lock id = some e) (hm : w.Moves e) (hlast : w.Last id e) :
    w.reset id = .error .assertion := by
  obtain ⟨a, b, hs, hb, hremove⟩ := h.split hl hm.1
  have hret : b.isEmpty = true := List.isEmpty_iff.mpr (hb.mpr hlast)
  simp only [reset, hl, hm.1, h.assertSizes, (h.lock_eq_some_iff.mp hl).1, hm.2, hremove, hret, if_false, if_true]
  rfl

theorem reset_stays (h : Inv w) {e : Entry α} (hl : w.lock id = some e) (hm : ¬w.Moves e) : w.reset id = .ok w := by
  by_cases hd : e.duration = 0
  · simp only [reset, hl, hd, if_true]
    rfl
  · have htick : e.tick = uint64 (e.duration + w.currentTick) := not_not.mp fun hne => hm ⟨hd, hne⟩
    simp only [reset, hl, hd, h.assertSizes, (h.lock_eq_some_iff.mp hl).1, ← htick, if_false, if_true]
    rfl

theorem reset_expired (hl : w.lock id = none) : w.reset id = .ok w := by
  simp only [reset, hl]
  rfl

theorem clear_spec (h : Inv w) : ∃ w', w.clear = .ok w' ∧ Inv w' ∧ w'.allEntries = [] ∧ w'.heap = w.heap := by
  have hinv : Inv { w with wheel := fun _ => [], immediateEntries := [], allEntries := [], currentTick := 0 } :=
    ⟨List.nodup_nil, (inv_empty (α := α) (N := N)).all, nofun, nofun, fun _ => List.Pairwise.nil⟩
  refine ⟨_, ?_, hinv, rfl, rfl⟩
  simp only [clear, h.assertSizes]
  exact assertSizes_then hinv _

theorem size_spec (h : Inv w) : w.size = .ok w.allEntries.length := assertSizes_then h _

/-! ### Runs -/

/-- The calls that do not abort: a `cancel` or an effective `reset` of an entry that is stored does not
    meet the last entry of a slot, and a `cancel` no immediate entry. -/
def Allowed (s : State α N) : Op α → Prop
  | .cancel hdl => ∀ e, s.wheel.lock hdl = some e → e.duration ≠ 0 ∧ ¬s.wheel.Last hdl e
  | .reset hdl => ∀ e, s.wheel.lock hdl = some e → s.wheel.Moves e → ¬s.wheel.Last hdl e
  | _ => True

/-- The entries `ids` are put out of the state `s`, at the tick `k`, and `t` is left. -/
structure Puts (s : State α N) (k : Nat) (ids : List Nat) (t : State α N) : Prop where
  nodup : ids.Nodup
  mem_iff : ∀ id, id ∈ ids ↔ id ∈ s.wheel.allEntries ∧ ∀ e, s.wheel.heap[id]? = some e → s.wheel.Expires k e
  allEntries : t.wheel.allEntries = s.wheel.allEntries.diff ids
  heap : t.wheel.heap = s.wheel.heap
  currentTick : t.wheel.currentTick = s.wheel.currentTick
  log : t.log = s.log ++ ids.filterMap s.pairOf

/-- What a call that does not abort does to the entries, the clock and the log. -/
def Effect (s : State α N) (op : Op α) (t : State α N) : Prop :=
  match op with
  | .tick => t = { s with wheel := s.wheel.tick }
  | .getExpired => ∃ ids, Puts s s.wheel.currentTick ids t
  | .getExpiredAt k => ∃ ids, Puts s k.toNat ids t
  | .add value duration => t.log = s.log ∧ t.wheel.currentTick = s.wheel.currentTick ∧
      t.wheel.allEntries = s.wheel.allEntries ++ [s.wheel.heap.length] ∧ ∃ e, t.wheel.heap = s.wheel.heap ++ [e] ∧
      e.value = value ∧ e.duration = duration.toNat ∧
      (e.duration ≠ 0 → e.tick = uint64 (duration.toNat + s.wheel.currentTick))
  | .cancel hdl => (s.wheel.lock hdl = none ∧ t = s) ∨ (∃ e, s.wheel.lock hdl = some e) ∧ t.log = s.log ∧
      t.wheel.currentTick = s.wheel.currentTick ∧ t.wheel.allEntries = s.wheel.allEntries.erase hdl ∧
      t.wheel.heap = s.wheel.heap
  | .reset hdl => ((∀ e, s.wheel.lock hdl = some e → ¬s.wheel.Moves e) ∧ t = s) ∨
      ∃ e, s.wheel.lock hdl = some e ∧ s.wheel.Moves e ∧ t.log = s.log ∧ t.wheel.currentTick = s.wheel.currentTick ∧
      t.wheel.allEntries = s.wheel.allEntries ∧
      t.wheel.heap = s.wheel.heap.set hdl { e with tick := uint64 (e.duration + s.wheel.currentTick) }
  | .clear => t.log = s.log ∧ t.wheel.allEntries = [] ∧ t.wheel.heap = s.wheel.heap
  | .size => t = s

variable {s t : State α N} {op : Op α}

theorem puts_of_getExpired (hI : Inv s.wheel) (k : Nat) : ∃ ids w, s.wheel.getExpired k = .ok (ids, w) ∧
    Inv (s.expire ids w).wheel ∧ Puts s k ids (s.expire ids w) := by
  obtain ⟨ids, w, hrun, hinv, hnodup, hmem, hall, hheap, htick⟩ := getExpired_spec hI k
  exact ⟨ids, w, hrun, hinv, hnodup, hmem, hall, hheap, htick, rfl⟩

/-- An allowed call succeeds, keeps the invariant and has its effect. -/
theorem step_spec (hI : Inv s.wheel) (ha : Allowed s op) : ∃ t, step s op = .ok t ∧ Inv t.wheel ∧ Effect s op t := by
  cases op with
  | tick => exact ⟨_, rfl, tick_inv hI, rfl⟩
  | getExpired =>
    obtain ⟨ids, w, hrun, hinv, hputs⟩ := puts_of_getExpired hI s.wheel.currentTick
    refine ⟨_, ?_, hinv, ids, hputs⟩
    simp only [step, hrun]
    rfl
  | getExpiredAt k =>
    obtain ⟨ids, w, hrun, hinv, hputs⟩ := puts_of_getExpired hI k.toNat
    refine ⟨_, ?_, hinv, ids, hputs⟩
    simp only [step, hrun]
    rfl
  | add value duration =>
    obtain ⟨w, e, hrun, hinv, hall, hheap, htick, he⟩ := add_spec hI value duration
    refine ⟨{ s with wheel := w }, ?_, hinv, rfl, htick, hall, e, hheap, he⟩
    simp only [step, hrun]
    rfl
  | cancel hdl =>
    cases hl : s.wheel.lock hdl with
    | none =>
      refine ⟨s, ?_, hI, Or.inl ⟨hl, rfl⟩⟩
      simp only [step, cancel_expired hl]
      rfl
    | some e =>
      obtain ⟨hd, hlast⟩ := ha e hl
      obtain ⟨w, hrun, hinv, hall, hheap, htick⟩ := cancel_ok hI hl hd hlast
      refine ⟨{ s with wheel := w }, ?_, hinv, Or.inr ⟨⟨e, hl⟩, rfl, htick, hall, hheap⟩⟩
      simp only [step, hrun]
      rfl
  | reset hdl =>
    by_cases hm : ∃ e, s.wheel.lock hdl = some e ∧ s.wheel.Moves e
    · obtain ⟨e, hl, hm⟩ := hm
      obtain ⟨w, hrun, hinv, hall, hheap, htick⟩ := reset_ok hI hl hm (ha e hl hm)
      refine ⟨{ s with wheel := w }, ?_, hinv, Or.inr ⟨e, hl, hm, rfl, htick, hall, hheap⟩⟩
      simp only [step, hrun]
      rfl
    · have hno : ∀ e, s.wheel.lock hdl = some e → ¬s.wheel.Moves e := fun e hl hm' => hm ⟨e, hl, hm'⟩
      have hrun : s.wheel.reset hdl = .ok s.wheel := by
        cases hl : s.wheel.lock hdl with
        | none => exact reset_expired hl
        | some e => exact reset_stays hI hl (hno e hl)
      refine ⟨s, ?_, hI, Or.inl ⟨hno, rfl⟩⟩
      simp only [step, hrun]
      rfl
  | clear =>
    obtain ⟨w, hrun, hinv, hall, hheap⟩ := clear_spec hI
    refine ⟨{ s with wheel := w }, ?_, hinv, rfl, hall, hheap⟩
    simp only [step, hrun]
    rfl
  | size =>
    refine ⟨s, ?_, hI, rfl⟩
    simp only [step, size_spec hI]
    rfl

theorem step_not_allowed (hI : Inv s.wheel) (ha : ¬Allowed s op) : ∃ f, step s op = .error f := by
  cases op with
  | cancel hdl =>
    simp only [Allowed, not_forall] at ha
    obtain ⟨e, hl, hbad⟩ := ha
    have hrun : ∃ f, s.wheel.cancel hdl = .error f := by
      by_cases hd : e.duration = 0
      · exact ⟨_, cancel_immediate hI hl hd⟩
      · exact ⟨_, cancel_last hI hl hd (not_not.mp fun hlast => hbad ⟨hd, hlast⟩)⟩
    obtain ⟨f, hrun⟩ := hrun
    refine ⟨f, ?_⟩
    simp only [step, hrun]
    rfl
  | reset hdl =>
    simp only [Allowed, not_forall, not_not] at ha
    obtain ⟨e, hl, hm, hlast⟩ := ha
    refine ⟨.assertion, ?_⟩
    simp only [step, reset_last hI hl hm hlast]
    rfl
  | _ => exact absurd trivial ha

theorem step_ok_iff (hI : Inv s.wheel) : (∃ t, step s op = .ok t) ↔ Allowed s op := by
  constructor
  · rintro ⟨t, ht⟩
    by_contra ha
    obtain ⟨f, hf⟩ := step_not_allowed hI ha
    rw [ht] at hf
    cases hf
  · intro ha
    obtain ⟨t, ht, -⟩ := step_spec hI ha
    exact ⟨t, ht⟩

theorem step_inv (hI : Inv s.wheel) (h : step s op = .ok t) : Inv t.wheel ∧ Effect s op t := by
  obtain ⟨t', ht', hinv⟩ := step_spec hI ((step_ok_iff hI).mp ⟨t, h⟩)
  rw [h] at ht'
  cases ht'
  exact hinv

open Run in
/-- From an empty wheel on, no assertion fails, no end is erased and every state meets the invariant if
    and only if all calls of the run are allowed. -/
theorem always_inv_iff (ops : List (Op α)) :
    Always step (fun s : State α N => Inv s.wheel) {} ops ↔ Along step Allowed ({} : State α N) ops :=
  always_iff_along (fun hI => step_ok_iff hI) (fun hI h => (step_inv hI h).1) inv_empty

open Run in
theorem always_inv_iff_two : Always step (fun s : State Nat 3 => Inv s.wheel) {} [.add 5 1, .add 6 1, .cancel 0] ↔
    Along step Allowed ({} : State Nat 3) [.add 5 1, .add 6 1, .cancel 0] :=
  always_inv_iff [.add 5 1, .add 6 1, .cancel 0]

open Run in
/-- The only timer of its slot is cancelled. -/
theorem not_always_inv_cancel : ¬∀ ops : List (Op Nat), Always step (fun s : State Nat 3 => Inv s.wheel) {} ops := by
  intro h
  obtain ⟨t, ht, -⟩ := (h [.add 5 1, .cancel 0]).run
  have habort : (run step ({} : State Nat 3) [.add 5 1, .cancel 0]).toBool = false := by decide
  rw [ht] at habort
  cases habort

end Zylib.ZySoft.TimingWheel
