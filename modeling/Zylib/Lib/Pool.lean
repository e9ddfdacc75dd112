import Zylib.Lib.Lists
import Mathlib.Data.List.Count

/-! Pools of things that are lent: a list of slots, each marked while its thing is in use. A thing is
    lent from the first slot that is free, and its slot goes to the end when it comes back. -/

namespace Pool
open Lists

structure Slot (α : Type*) where
  conn : α
  inUse : Bool
deriving DecidableEq

variable {α : Type*} {l l' : List (Slot α)} {c : α}

/-- Marks the first slot that is free: what it holds, and the slots after that. -/
def take : List (Slot α) → Option (α × List (Slot α))
  | [] => none
  | s :: l =>
    if s.inUse then (take l).map fun (c, l) => (c, s :: l) else some (s.conn, { s with inUse := true } :: l)

/-- What is in use. -/
def lent (l : List (Slot α)) : List α := (l.filter (·.inUse)).map (·.conn)

theorem lent_cons (s : Slot α) (l : List (Slot α)) : lent (s :: l) = if s.inUse then s.conn :: lent l else lent l := by
  unfold lent
  rw [List.filter_cons]
  split <;> simp

theorem lent_append (l l' : List (Slot α)) : lent (l ++ l') = lent l ++ lent l' := by
  simp [lent]

theorem lent_eq_nil : lent l = [] ↔ ∀ s ∈ l, s.inUse = false := by
  simp [lent]

theorem mem_lent : c ∈ lent l ↔ ∃ s ∈ l, s.inUse = true ∧ s.conn = c := by
  simp [lent, and_assoc]

theorem length_lent_le (l : List (Slot α)) : (lent l).length ≤ l.length := by
  rw [lent, List.length_map]
  exact List.length_filter_le _ _

theorem take_eq_none : take l = none ↔ ∀ s ∈ l, s.inUse = true := by
  induction l with
  | nil => simp [take]
  | cons s l ih =>
    unfold take
    split
    · rename_i hs
      simp [ih, hs]
    · rename_i hs
      simp [hs]

/-- Lending keeps the slots, and adds what is lent to what is in use. -/
theorem take_eq_some (h : take l = some (c, l')) :
    l'.map Slot.conn = l.map Slot.conn ∧ (lent l').Perm (c :: lent l) ∧ ∃ s ∈ l, s.inUse = false ∧ s.conn = c := by
  induction l generalizing l' with
  | nil => cases h
  | cons s l ih =>
    unfold take at h
    split at h
    · rename_i hs
      obtain ⟨⟨c', k⟩, hk, heq⟩ := Option.map_eq_some_iff.mp h
      cases heq
      obtain ⟨hconns, hlent, x, hx, hfree⟩ := ih hk
      refine ⟨by simp [hconns], ?_, x, List.mem_cons_of_mem _ hx, hfree⟩
      rw [lent_cons, lent_cons, if_pos hs, if_pos hs]
      exact (hlent.cons _).trans (List.Perm.swap _ _ _)
    · rename_i hs
      cases h
      refine ⟨rfl, ?_, s, List.mem_cons_self, by simpa using hs, rfl⟩
      rw [lent_cons, lent_cons, if_pos rfl, if_neg hs]

theorem not_mem_lent_of_take (h : take l = some (c, l')) (hl : (l.map Slot.conn).Nodup) : c ∉ lent l := by
  obtain ⟨hconns, hlent, -⟩ := take_eq_some h
  have hnodup : (lent l').Nodup := (hconns ▸ hl).sublist (List.filter_sublist.map _)
  exact (List.nodup_cons.mp (hlent.nodup_iff.mp hnodup)).1

variable [DecidableEq α]

/-- The slot of `c`, and the slots after it is free and at the end. -/
def give (l : List (Slot α)) (c : α) : Option (Slot α × List (Slot α)) :=
  match l.find? (·.conn == c) with
  | none => none
  | some s => some (s, l.eraseP (·.conn == c) ++ [{ s with inUse := false }])

theorem give_eq_none : give l c = none ↔ c ∉ l.map Slot.conn := by
  unfold give
  split
  · rename_i h
    simpa using h
  · rename_i s h
    have hs := List.mem_of_find?_eq_some h
    have hc : s.conn = c := by simpa using List.find?_some h
    simp only [reduceCtorEq, false_iff, not_not]
    exact hc ▸ List.mem_map_of_mem hs

/-- Giving back neither loses a slot nor adds one. -/
theorem give_eq_some {s : Slot α} (h : give l c = some (s, l')) :
    s ∈ l ∧ s.conn = c ∧ (l'.map Slot.conn).Perm (l.map Slot.conn) ∧
      (if s.inUse then (lent l).Perm (c :: lent l') else (lent l').Perm (lent l)) := by
  unfold give at h
  split at h
  · cases h
  · rename_i s' hfind
    cases h
    have hmem := List.mem_of_find?_eq_some hfind
    have hc : s.conn = c := by simpa using List.find?_some hfind
    have hperm := perm_of_find? hfind
    refine ⟨hmem, hc, ?_, ?_⟩
    · rw [List.map_append]
      exact List.perm_append_comm.trans (hperm.map Slot.conn).symm
    · have hlent : (lent l).Perm (lent (s :: l.eraseP (·.conn == c))) := (hperm.filter _).map _
      rw [lent_append]
      rw [lent_cons] at hlent
      have hfree : lent [{ s with inUse := false }] = ([] : List α) := rfl
      rw [hfree, List.append_nil]
      split
      · rename_i hs
        rw [if_pos hs, hc] at hlent
        exact hlent
      · rename_i hs
        rw [if_neg hs] at hlent
        exact hlent.symm

/-- What is given back is no longer in use, and nothing else changes. -/
theorem mem_lent_give {s : Slot α} (h : give l c = some (s, l')) (hl : (l.map Slot.conn).Nodup) {x : α} :
    x ∈ lent l' ↔ x ∈ lent l ∧ x ≠ c := by
  obtain ⟨hs, hc, hconns, hlent⟩ := give_eq_some h
  have hnot : c ∉ lent l' := by
    intro hmem
    obtain ⟨t, ht, husing, htc⟩ := mem_lent.mp hmem
    have hfree : (⟨c, false⟩ : Slot α) ∈ l' := by
      unfold give at h
      split at h <;> cases h
      exact List.mem_append_right _ (hc ▸ List.mem_singleton_self _)
    have heq : t = ⟨c, false⟩ := List.inj_on_of_nodup_map (hconns.nodup_iff.mpr hl) ht hfree htc
    rw [heq] at husing
    cases husing
  have hmem : x ∈ lent l ↔ x ∈ lent l' ∨ (x = c ∧ s.inUse = true) := by
    split at hlent
    · rename_i husing
      rw [hlent.mem_iff, List.mem_cons, or_comm]
      simp [husing]
    · rename_i hfree
      rw [hlent.mem_iff]
      simp [hfree]
  rw [hmem]
  refine ⟨fun hx => ⟨Or.inl hx, fun heq => hnot (heq ▸ hx)⟩, ?_⟩
  rintro ⟨hx | ⟨rfl, -⟩, hne⟩
  · exact hx
  · exact absurd rfl hne

theorem length_give {s : Slot α} (h : give l c = some (s, l')) : l'.length = l.length := by
  have hperm := (give_eq_some h).2.2.1.length_eq
  simpa using hperm

omit [DecidableEq α] in
theorem length_take (h : take l = some (c, l')) : l'.length = l.length := by
  have hconns := congrArg List.length (take_eq_some h).1
  simpa using hconns

end Pool
