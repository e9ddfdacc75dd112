import Mathlib.Data.List.Nodup
import Mathlib.Logic.Function.Basic
import Mathlib.Logic.Equiv.Defs

/-! A heap of blocks, numbered in the order in which they are allocated. `Sound` says that no block is
    deallocated twice or with another size than its own, `Held` that each live block has exactly one holder. -/

/-- The contents of the blocks, and the blocks that were deallocated, each with the size that was given for it. -/
structure Heap (α : Type*) where
  blocks : List (List α) := []
  deallocs : List (ℕ × ℕ) := []

namespace Heap

variable {α ι : Type*} {h : Heap α} {b b' n : ℕ} {cs : List α}

/-- The block was allocated and is not deallocated. -/
def Live (h : Heap α) (b : ℕ) : Prop := b < h.blocks.length ∧ b ∉ h.deallocs.map Prod.fst

instance : Decidable (h.Live b) := inferInstanceAs (Decidable (_ ∧ _))

def cells (h : Heap α) (b : ℕ) : List α := h.blocks.getD b []

/-- The new block, which has the cells `cs`, is the one with the number `h.blocks.length`. -/
def alloc (h : Heap α) (cs : List α) : Heap α := { h with blocks := h.blocks ++ [cs] }

def dealloc (h : Heap α) (b n : ℕ) : Heap α := { h with deallocs := h.deallocs ++ [(b, n)] }

def write (h : Heap α) (b : ℕ) (cs : List α) : Heap α := { h with blocks := h.blocks.set b cs }

/-! ### What each operation changes -/

@[simp] theorem cells_dealloc (h : Heap α) (b b' n : ℕ) : (h.dealloc b n).cells b' = h.cells b' := rfl

theorem cells_alloc (hb : b < h.blocks.length) (cs : List α) : (h.alloc cs).cells b = h.cells b := by
  simp [cells, alloc, List.getElem?_append_left hb]

@[simp] theorem cells_alloc_self (h : Heap α) (cs : List α) : (h.alloc cs).cells h.blocks.length = cs := by
  simp [cells, alloc]

theorem cells_write (hb : b < h.blocks.length) (cs : List α) (b' : ℕ) :
    (h.write b cs).cells b' = if b' = b then cs else h.cells b' := by
  by_cases hbb : b' = b
  · subst hbb
    simp [cells, write, hb]
  · simp [cells, write, hbb, List.getElem?_set_ne (Ne.symm hbb)]

/-- What is written to a block that was just allocated could have been allocated. -/
theorem write_alloc (h : Heap α) (cs cs' : List α) : (h.alloc cs).write h.blocks.length cs' = h.alloc cs' := by
  simp [write, alloc]

@[simp] theorem live_write (cs : List α) : (h.write b cs).Live b' ↔ h.Live b' := by
  simp [Live, write]

@[simp] theorem live_dealloc : (h.dealloc b n).Live b' ↔ h.Live b' ∧ b' ≠ b := by
  simp only [Live, dealloc, List.map_append, List.map_cons, List.map_nil, List.mem_append, List.mem_singleton, not_or,
    and_assoc, ne_eq]

/-! ### Deallocation -/

/-- Each deallocated block was allocated, was deallocated once, and with its own size. -/
structure Sound (h : Heap α) : Prop where
  once : (h.deallocs.map Prod.fst).Nodup
  size : ∀ p ∈ h.deallocs, p.1 < h.blocks.length ∧ p.2 = (h.cells p.1).length

theorem sound_empty : Sound ({} : Heap α) := ⟨List.nodup_nil, fun _ hp => by cases hp⟩

theorem Sound.notMem_deallocs (hS : h.Sound) : h.blocks.length ∉ h.deallocs.map Prod.fst := by
  intro hmem
  obtain ⟨p, hp, hlen⟩ := List.mem_map.mp hmem
  exact absurd (hS.size p hp).1 (hlen ▸ Nat.lt_irrefl _)

theorem Sound.live_alloc (hS : h.Sound) (cs : List α) : (h.alloc cs).Live b ↔ h.Live b ∨ b = h.blocks.length := by
  have hlt : b < (h.blocks ++ [cs]).length ↔ b < h.blocks.length ∨ b = h.blocks.length := by
    rw [List.length_append, List.length_singleton, Nat.lt_succ_iff_lt_or_eq]
  have hnew := hS.notMem_deallocs
  constructor
  · rintro ⟨hb, hmem⟩
    exact (hlt.mp hb).imp_left fun hb => ⟨hb, hmem⟩
  · rintro (hlive | rfl)
    · exact ⟨hlt.mpr (Or.inl hlive.1), hlive.2⟩
    · exact ⟨hlt.mpr (Or.inr rfl), hnew⟩

theorem Sound.alloc (hS : h.Sound) (cs : List α) : (h.alloc cs).Sound := by
  refine ⟨hS.once, fun p hp => ?_⟩
  obtain ⟨hlt, hlen⟩ := hS.size p hp
  rw [cells_alloc hlt]
  exact ⟨by simpa [Heap.alloc] using Nat.lt_succ_of_lt hlt, hlen⟩

theorem Sound.write (hS : h.Sound) (hb : b < h.blocks.length) (hcs : cs.length = (h.cells b).length) :
    (h.write b cs).Sound := by
  refine ⟨hS.once, fun p hp => ?_⟩
  obtain ⟨hlt, hlen⟩ := hS.size p hp
  refine ⟨by simpa [Heap.write] using hlt, ?_⟩
  rw [cells_write hb]
  split
  · rename_i hpb
    rw [hlen, hpb, hcs]
  · exact hlen

/-- A live block has to be deallocated with its own size. -/
theorem sound_dealloc_iff (hb : h.Live b) : (h.dealloc b n).Sound ↔ h.Sound ∧ n = (h.cells b).length := by
  constructor
  · intro hS
    refine ⟨⟨?_, fun p hp => hS.size p (List.mem_append_left _ hp)⟩, (hS.size (b, n) ?_).2⟩
    · have hnodup := hS.once
      rw [dealloc, List.map_append] at hnodup
      exact (List.nodup_append.mp hnodup).1
    · exact List.mem_append_right _ List.mem_cons_self
  · rintro ⟨hS, hn⟩
    refine ⟨?_, fun p hp => ?_⟩
    · rw [dealloc, List.map_append]
      refine List.nodup_append.mpr ⟨hS.once, List.nodup_singleton _, fun x hx y hy => ?_⟩
      rw [List.map_cons, List.map_nil, List.mem_singleton] at hy
      intro hxy
      have hxb : x = b := hxy.trans hy
      exact hb.2 (hxb ▸ hx)
    · rcases List.mem_append.mp hp with hp | hp
      · exact hS.size p hp
      · cases List.mem_singleton.mp hp
        exact ⟨hb.1, hn⟩

/-! ### Holders -/

/-- Each live block has exactly one holder, and nothing else is held. -/
structure Held (h : Heap α) (f : ι → Option ℕ) : Prop where
  live : ∀ o b, f o = some b → h.Live b
  unique : ∀ o o' b, f o = some b → f o' = some b → o = o'
  covered : ∀ b, h.Live b → ∃ o, f o = some b

theorem held_empty : Held ({} : Heap α) fun _ : ι => none :=
  ⟨nofun, nofun, fun _ hb => absurd hb.1 (Nat.not_lt_zero _)⟩

section
variable {f : ι → Option ℕ} {o : ι}

theorem Held.write (hf : Held h f) (cs : List α) : Held (h.write b cs) f :=
  ⟨fun o b' ho => (live_write cs).mpr (hf.live o b' ho), hf.unique, fun b' hb => hf.covered b' ((live_write cs).mp hb)⟩

/-- The holders may exchange what they hold. -/
theorem Held.perm (hf : Held h f) (e : Equiv.Perm ι) : Held h (f ∘ e) := by
  refine ⟨fun o b ho => hf.live _ b ho, fun o o' b ho ho' => e.injective (hf.unique _ _ b ho ho'), fun b hb => ?_⟩
  obtain ⟨o, ho⟩ := hf.covered b hb
  exact ⟨e.symm o, (congrArg f (e.apply_symm_apply o)).trans ho⟩

variable [DecidableEq ι]

theorem Held.alloc (hf : Held h f) (hS : h.Sound) (ho : f o = none) (cs : List α) :
    Held (h.alloc cs) (Function.update f o (some h.blocks.length)) := by
  have hold : ∀ {o' b}, f o' = some b → b ≠ h.blocks.length := fun hb => Nat.ne_of_lt (hf.live _ _ hb).1
  refine ⟨fun o' b hb => ?_, fun o₁ o₂ b h₁ h₂ => ?_, fun b hb => ?_⟩
  · rw [hS.live_alloc]
    by_cases hoo : o' = o
    · subst hoo
      rw [Function.update_self] at hb
      exact Or.inr (Option.some.inj hb).symm
    · rw [Function.update_of_ne hoo] at hb
      exact Or.inl (hf.live o' b hb)
  · by_cases ho₁ : o₁ = o <;> by_cases ho₂ : o₂ = o
    · rw [ho₁, ho₂]
    · subst ho₁
      rw [Function.update_self] at h₁
      rw [Function.update_of_ne ho₂] at h₂
      exact absurd (Option.some.inj h₁).symm (hold h₂)
    · subst ho₂
      rw [Function.update_of_ne ho₁] at h₁
      rw [Function.update_self] at h₂
      exact absurd (Option.some.inj h₂).symm (hold h₁)
    · rw [Function.update_of_ne ho₁] at h₁
      rw [Function.update_of_ne ho₂] at h₂
      exact hf.unique o₁ o₂ b h₁ h₂
  · rcases (hS.live_alloc cs).mp hb with hb | rfl
    · obtain ⟨o', ho'⟩ := hf.covered b hb
      refine ⟨o', ?_⟩
      rw [Function.update_of_ne]
      · exact ho'
      · rintro rfl
        cases ho.symm.trans ho'
    · exact ⟨o, Function.update_self ..⟩

theorem Held.dealloc (hf : Held h f) (ho : f o = some b) (n : ℕ) : Held (h.dealloc b n) (Function.update f o none) := by
  have hne : ∀ {o' b'}, Function.update f o none o' = some b' → o' ≠ o ∧ f o' = some b' := by
    intro o' b' h'
    by_cases hoo : o' = o
    · subst hoo
      rw [Function.update_self] at h'
      cases h'
    · rw [Function.update_of_ne hoo] at h'
      exact ⟨hoo, h'⟩
  refine ⟨fun o' b' h' => ?_, fun o₁ o₂ b' h₁ h₂ => hf.unique o₁ o₂ b' (hne h₁).2 (hne h₂).2, fun b' hb' => ?_⟩
  · obtain ⟨hoo, h'⟩ := hne h'
    refine live_dealloc.mpr ⟨hf.live o' b' h', ?_⟩
    rintro rfl
    exact hoo (hf.unique o' o b' h' ho)
  · obtain ⟨hlive, hbb⟩ := live_dealloc.mp hb'
    obtain ⟨o', ho'⟩ := hf.covered b' hlive
    refine ⟨o', ?_⟩
    rw [Function.update_of_ne]
    · exact ho'
    · rintro rfl
      exact hbb (Option.some.inj (ho'.symm.trans ho))

end

end Heap
