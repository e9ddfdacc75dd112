import Zylib.ZySoft.Memory.AutoBuffer
import Zylib.Lib.Run
import Mathlib.Logic.Equiv.Basic
import Mathlib.Algebra.GroupWithZero.Nat

/-! Who owns the blocks of the `auto_buffer`s. As long as no buffer is constructed with exactly `N` elements or
    without the block it needs, none is swapped that is inside its object, and none is deallocated after it was made
    smaller, each block belongs to one object and is deallocated once, with its size. -/

namespace Zylib.ZySoft.AutoBuffer.System
open Run

variable {T : Type} {N : ℕ}

/-- How many elements fit at a pointer: of a block, as many as it was allocated with. -/
def capacity (s : System T N) : Ptr → ℕ
  | .null => 0
  | .internal _ => N
  | .block b => (s.heap.cells b).length

/-- The block that an object points to. -/
def holder (s : System T N) (o : Obj) : Option ℕ := (s.objects o).bind fun x => x.buffer.block?

/-- What `m_external`, `m_buffer` and `m_items` say in each object, and what happens to the blocks. -/
structure Owned (s : System T N) : Prop where
  external : ∀ o x, s.objects o = some x → (x.external = true ↔
    ∃ b, x.buffer = .block b ∧ s.heap.Live b ∧ ∀ o' y, s.objects o' = some y → y.buffer = .block b → o' = o)
  internal : ∀ o x, s.objects o = some x → x.external = false → x.buffer = .internal o
  room : ∀ o x, s.objects o = some x → ∃ cells, s.cells x.buffer = some cells ∧ x.items ≤ cells.length
  deallocated : s.heap.Sound
  held : ∀ b, s.heap.Live b → ∃ o x, s.objects o = some x ∧ x.buffer = .block b

/-- No `resize` or destructor goes through a pointer to nothing, and a `resize` that returns `true` leaves `n` elements,
    of which those that were there before are the same. -/
structure Preserves (s : System T N) : Prop where
  resize : ∀ o x n ok, s.objects o = some x → ∃ r t, s.resize o n ok = .ok (r, t) ∧ (r = true →
    (t.contents o).length = n ∧ (t.contents o).take (s.contents o).length = (s.contents o).take n)
  destruct : ∀ o x, s.objects o = some x → ∃ t, s.destruct o = .ok t

/-- The object may give its block back: it has as many items as the block was allocated with. -/
def Full (s : System T N) (x : AutoBuffer T N) : Prop := x.external = true → x.items = s.capacity x.buffer

/-- No buffer of `N` elements is constructed and none without its block; only buffers in the heap are swapped; a buffer
    that was made smaller keeps its block. -/
def Fits (s : System T N) : Action T → Prop
  | .construct _ n ok => n ≠ N ∧ (N < n → ok = true)
  | .resize o n ok => ∀ x ∈ s.objects o, n = 0 ∨ (x.items < n ∧ ok = true) → s.Full x
  | .swap o o' => o = o' ∨ ∀ x ∈ s.objects o, ∀ y ∈ s.objects o', x.external = true ∧ y.external = true
  | .destruct o => ∀ x ∈ s.objects o, s.Full x
  | .assign _ _ _ => True

instance (s : System T N) (x : AutoBuffer T N) : Decidable (s.Full x) := inferInstanceAs (Decidable (_ → _))

instance (s : System T N) : ∀ a, Decidable (Fits s a)
  | .construct _ _ _ => inferInstanceAs (Decidable (_ ∧ _))
  | .resize o _ _ => inferInstanceAs (Decidable (∀ x ∈ s.objects o, _ → s.Full x))
  | .swap o o' => inferInstanceAs (Decidable (_ ∨ ∀ x ∈ s.objects o, ∀ y ∈ s.objects o', _))
  | .destruct o => inferInstanceAs (Decidable (∀ x ∈ s.objects o, s.Full x))
  | .assign _ _ _ => .isTrue trivial

structure Inv (s : System T N) : Prop where
  sound : s.heap.Sound
  held : s.heap.Held s.holder
  own : ∀ o x, s.objects o = some x →
    (x.external = false ∧ x.buffer = .internal o) ∨ (x.external = true ∧ ∃ b, x.buffer = .block b)
  room : ∀ o x, s.objects o = some x → x.items ≤ s.capacity x.buffer

section
variable {s t : System T N} {o : Obj} {x : AutoBuffer T N} {n b : ℕ} {ok r : Bool}

/-! ### Objects and pointers -/

@[simp] theorem put_objects_self (s : System T N) (o : Obj) (x : AutoBuffer T N) : (s.put o x).objects o = some x :=
  Function.update_self ..

theorem put_objects_of_ne {o' : Obj} (h : o' ≠ o) (x : AutoBuffer T N) : (s.put o x).objects o' = s.objects o' :=
  Function.update_of_ne h ..

@[simp] theorem put_heap (s : System T N) (o : Obj) (x : AutoBuffer T N) : (s.put o x).heap = s.heap := rfl

theorem Inv.live (hI : Inv s) (hx : s.objects o = some x) (hb : x.buffer = .block b) : s.heap.Live b := by
  refine hI.held.live o b ?_
  rw [holder, hx, Option.bind_some, hb]
  rfl

/-- What is in the buffer of an object, whatever its items are. -/
def buffered (s : System T N) (x : AutoBuffer T N) : List (Option T) := (s.cells x.buffer).getD []

theorem contents_eq (hx : s.objects o = some x) : s.contents o = (s.buffered x).take x.items := by
  rw [contents, hx, buffered]

/-- There is something at the pointer of an object, and as much as fits there. -/
theorem Inv.cells (hI : Inv s) (hx : s.objects o = some x) :
    s.cells x.buffer = some (s.buffered x) ∧ (s.buffered x).length = s.capacity x.buffer := by
  rcases hI.own o x hx with ⟨-, hbuf⟩ | ⟨-, b, hbuf⟩
  · have hcells : s.cells x.buffer = some x.internal.toList := by
      rw [hbuf, System.cells, hx]
      rfl
    rw [buffered, hcells, hbuf, capacity]
    exact ⟨rfl, Vector.length_toList⟩
  · have hcells : s.cells x.buffer = some (s.heap.cells b) := by
      rw [hbuf, System.cells, if_pos (hI.live hx hbuf)]
    rw [buffered, hcells, hbuf, capacity]
    exact ⟨rfl, rfl⟩

theorem holder_update (s : System T N) (h : Heap (Option T)) (o : Obj) (v : Option (AutoBuffer T N)) :
    holder { objects := Function.update s.objects o v, heap := h } =
      Function.update s.holder o (v.bind fun x => x.buffer.block?) := by
  funext o'
  by_cases hoo : o' = o
  · subst hoo
    simp [holder]
  · simp [holder, Function.update_of_ne hoo]

/-- One object is changed or destroyed, and the heap with it. -/
theorem Inv.update (hI : Inv s) {h : Heap (Option T)} {v : Option (AutoBuffer T N)} (hsound : h.Sound)
    (hheld : h.Held (Function.update s.holder o (v.bind fun x => x.buffer.block?)))
    (hcells : ∀ b, s.heap.Live b → (h.cells b).length = (s.heap.cells b).length)
    (hown : ∀ x, v = some x →
      (x.external = false ∧ x.buffer = .internal o) ∨ (x.external = true ∧ ∃ b, x.buffer = .block b))
    (hroom : ∀ x, v = some x → x.items ≤ capacity { s with heap := h } x.buffer) :
    Inv { objects := Function.update s.objects o v, heap := h } := by
  have hobjects : ∀ {o' y}, Function.update s.objects o v o' = some y →
      (o' = o ∧ v = some y) ∨ (o' ≠ o ∧ s.objects o' = some y) := by
    intro o' y hy
    by_cases hoo : o' = o
    · subst hoo
      rw [Function.update_self] at hy
      exact Or.inl ⟨rfl, hy⟩
    · rw [Function.update_of_ne hoo] at hy
      exact Or.inr ⟨hoo, hy⟩
  refine ⟨hsound, ?_, fun o' y hy => ?_, fun o' y hy => ?_⟩
  · rw [holder_update]
    exact hheld
  · rcases hobjects hy with ⟨rfl, hv⟩ | ⟨-, hold⟩
    · exact hown y hv
    · exact hI.own o' y hold
  · rcases hobjects hy with ⟨rfl, hv⟩ | ⟨-, hold⟩
    · exact hroom y hv
    · have hitems := hI.room o' y hold
      rcases hI.own o' y hold with ⟨-, hbuf⟩ | ⟨-, b, hbuf⟩
      · rw [hbuf] at hitems ⊢
        exact hitems
      · have hlen := hcells b (hI.live hold hbuf)
        rw [hbuf] at hitems ⊢
        exact le_of_le_of_eq hitems hlen.symm

theorem Inv.owned (hI : Inv s) : Owned s := by
  have hholder : ∀ {o x b}, s.objects o = some x → x.buffer = .block b → s.holder o = some b := by
    intro o x b hx hb
    rw [holder, hx, Option.bind_some, hb]
    rfl
  refine ⟨fun o x hx => ⟨fun hext => ?_, ?_⟩, fun o x hx hext => ?_, fun o x hx => ?_, hI.sound, fun b hb => ?_⟩
  · rcases hI.own o x hx with ⟨hint, -⟩ | ⟨-, b, hb⟩
    · rw [hint] at hext
      cases hext
    · exact ⟨b, hb, hI.live hx hb, fun o' y hy hyb => hI.held.unique o' o b (hholder hy hyb) (hholder hx hb)⟩
  · rintro ⟨b, hb, -⟩
    rcases hI.own o x hx with ⟨-, hint⟩ | ⟨hext, -⟩
    · rw [hint] at hb
      cases hb
    · exact hext
  · rcases hI.own o x hx with ⟨-, hint⟩ | ⟨htrue, -⟩
    · exact hint
    · rw [hext] at htrue
      cases htrue
  · obtain ⟨hcells, hlen⟩ := hI.cells hx
    exact ⟨s.buffered x, hcells, hlen ▸ hI.room o x hx⟩
  · obtain ⟨o, ho⟩ := hI.held.covered b hb
    obtain ⟨x, hx, hxb⟩ := Option.bind_eq_some_iff.mp ho
    refine ⟨o, x, hx, ?_⟩
    cases hbuf : x.buffer <;> rw [hbuf] at hxb <;> cases hxb
    rfl

/-! ### `resize` -/

theorem bind_ok {α β : Type} {e : Except Fault α} {f : α → Except Fault β} {y : β} (h : (e >>= f) = .ok y) :
    ∃ a, e = .ok a ∧ f a = .ok y := by
  cases e with
  | error _ => cases h
  | ok a => exact ⟨a, rfl, h⟩

/-- The items of a buffer in a block for `n` elements. -/
def grown (cells : List (Option T)) (items n : ℕ) : List (Option T) := cells.take items ++ List.replicate (n - items) none

theorem length_grown {cells : List (Option T)} {items : ℕ} (hitems : items ≤ cells.length) (hn : items ≤ n) :
    (grown cells items n).length = n := by
  rw [grown, List.length_append, List.length_take, List.length_replicate, Nat.min_eq_left hitems, Nat.add_sub_cancel' hn]

/-- What is copied to a new block could have been allocated. -/
theorem blockCopy_alloc {p : Ptr} {cells : List (Option T)} {len : ℕ} (hp : s.cells p = some cells)
    (hsound : s.heap.Sound) (hlen : len ≤ cells.length) (hn : len ≤ n) :
    { s with heap := s.heap.alloc (List.replicate n none) }.blockCopy s.heap.blocks.length p len =
      .ok { s with heap := s.heap.alloc (grown cells len n) } := by
  have hcells : ({ s with heap := s.heap.alloc (List.replicate n none) } : System T N).cells p = some cells := by
    cases p with
    | null => exact hp
    | internal o => exact hp
    | block b =>
      rw [System.cells] at hp ⊢
      split at hp
      · rename_i hlive
        cases hp
        rw [if_pos ((hsound.live_alloc _).mpr (Or.inl hlive)), Heap.cells_alloc hlive.1]
      · cases hp
  unfold blockCopy
  split
  · rename_i hzero
    subst hzero
    rfl
  · rw [hcells]
    simp only
    rw [Heap.cells_alloc_self, if_pos ⟨hlen, by rwa [List.length_replicate]⟩, Heap.write_alloc, List.drop_replicate, grown]

/-- What `resize` does: it changes the number of the items, gives the block back, gets no block, or moves
    the items to a new block, out of the object or out of a block that it gives back. -/
inductive Resized (s : System T N) (o : Obj) (x : AutoBuffer T N) (n : ℕ) (ok : Bool) : Bool → System T N → Prop
  | inPlace (hfits : n ≤ s.capacity x.buffer) (hkeeps : n ≤ x.items ∨ x.external = false)
      (hzero : n = 0 → x.external = false) : Resized s o x n ok true (s.put o { x with items := n })
  | given {b : ℕ} (hn : n = 0) (hb : x.buffer = .block b) : Resized s o x n ok true
      ({ s with heap := s.heap.dealloc b x.items }.put o { x with external := false, buffer := .internal o, items := n })
  | noBlock (hn : n ≠ 0) (hok : ok = false) : Resized s o x n ok false s
  | movedOut (hlt : x.items < n) (hint : x.buffer = .internal o) : Resized s o x n ok true
      ({ s with heap := s.heap.alloc (grown (s.buffered x) x.items n) }.put o
        { x with buffer := .block s.heap.blocks.length, external := true, items := n })
  | moved {b : ℕ} (hlt : x.items < n) (hok : ok = true) (hb : x.buffer = .block b) : Resized s o x n ok true
      ({ s with heap := (s.heap.alloc (grown (s.buffered x) x.items n)).dealloc b x.items }.put o
        { x with buffer := .block s.heap.blocks.length, items := n })

theorem Inv.copied (hI : Inv s) (hx : s.objects o = some x) (hn : x.items ≤ n) :
    { s with heap := s.heap.alloc (List.replicate n none) }.blockCopy s.heap.blocks.length x.buffer x.items =
      .ok { s with heap := s.heap.alloc (grown (s.buffered x) x.items n) } := by
  obtain ⟨hcells, hlen⟩ := hI.cells hx
  exact blockCopy_alloc hcells hI.sound (hlen ▸ hI.room o x hx) hn

theorem Inv.block (hI : Inv s) (hx : s.objects o = some x) (hext : x.external = true) : ∃ b, x.buffer = .block b := by
  rcases hI.own o x hx with ⟨hfalse, -⟩ | ⟨-, hb⟩
  · rw [hfalse] at hext
    cases hext
  · exact hb

theorem Inv.inside (hI : Inv s) (hx : s.objects o = some x) (hext : ¬x.external = true) : x.buffer = .internal o := by
  rcases hI.own o x hx with ⟨-, hbuf⟩ | ⟨htrue, -⟩
  · exact hbuf
  · exact absurd htrue hext

theorem Inv.realloc_eq (hI : Inv s) (hx : s.objects o = some x) (hb : x.buffer = .block b) (hn : x.items ≤ n) :
    s.realloc x.buffer x.items n true = .ok (some s.heap.blocks.length,
      { s with heap := (s.heap.alloc (grown (s.buffered x) x.items n)).dealloc b x.items }) := by
  have hlive : (s.heap.alloc (grown (s.buffered x) x.items n)).Live b :=
    (hI.sound.live_alloc _).mpr (Or.inl (hI.live hx hb))
  have hdealloc : dealloc { s with heap := s.heap.alloc (grown (s.buffered x) x.items n) } x.buffer x.items =
      .ok { s with heap := (s.heap.alloc (grown (s.buffered x) x.items n)).dealloc b x.items } := by
    rw [hb, dealloc, if_pos hlive]
  unfold realloc alloc
  simp only [↓reduceIte, hI.copied hx hn, bind, Except.bind, hdealloc]

theorem resized (hI : Inv s) (h : s.resize o n ok = .ok (r, t)) : ∃ x, s.objects o = some x ∧ Resized s o x n ok r t := by
  unfold resize at h
  split at h
  · cases h
  rename_i x hx
  refine ⟨x, hx, ?_⟩
  have hroom := hI.room o x hx
  split at h
  · rename_i hn
    split at h
    · rename_i hext
      obtain ⟨b, hb⟩ := hI.block hx hext
      obtain ⟨u, hu, h⟩ := bind_ok h
      rw [hb, dealloc, if_pos (hI.live hx hb)] at hu
      cases hu
      cases h
      exact .given hn hb
    · rename_i hext
      cases h
      exact .inPlace (hn ▸ Nat.zero_le _) (Or.inr (Bool.not_eq_true _ ▸ hext)) fun _ => Bool.not_eq_true _ ▸ hext
  · rename_i hn
    split at h
    · rename_i hlt
      split at h
      · rename_i hext
        obtain ⟨b, hb⟩ := hI.block hx hext
        obtain ⟨⟨p, u⟩, hu, h⟩ := bind_ok h
        cases ok with
        | false =>
          cases hu
          cases h
          exact .noBlock hn rfl
        | true =>
          cases (hI.realloc_eq hx hb (Nat.le_of_lt hlt)).symm.trans hu
          cases h
          exact .moved hlt rfl hb
      · rename_i hext
        have hbuf := hI.inside hx hext
        split at h
        · unfold alloc at h
          cases ok with
          | false =>
            cases h
            exact .noBlock hn rfl
          | true =>
            obtain ⟨u, hu, h⟩ := bind_ok h
            cases (hI.copied hx (Nat.le_of_lt hlt)).symm.trans hu
            cases h
            exact .movedOut hlt hbuf
        · rename_i hN
          cases h
          have hinternal : x.external = false := Bool.not_eq_true _ ▸ hext
          exact .inPlace (by rw [hbuf]; exact Nat.not_lt.mp hN) (Or.inr hinternal) fun _ => hinternal
    · rename_i hle
      cases h
      exact .inPlace (Nat.le_trans (Nat.not_lt.mp hle) hroom) (Or.inl (Nat.not_lt.mp hle)) fun h => absurd h hn

theorem take_grown {cells : List (Option T)} {items : ℕ} (hitems : items ≤ cells.length) (hn : items ≤ n) :
    ((grown cells items n).take n).length = n ∧
      ((grown cells items n).take n).take (cells.take items).length = (cells.take items).take n := by
  have hlength := length_grown hitems hn
  have hitemsLen : (cells.take items).length = items := List.length_take_of_le hitems
  rw [List.take_of_length_le (Nat.le_of_eq hlength)]
  have hshort : (cells.take items).take n = cells.take items := List.take_of_length_le (hitemsLen.symm ▸ hn)
  refine ⟨hlength, ?_⟩
  rw [hshort, grown, List.take_left]

theorem cells_put_items (hx : s.objects o = some x) (p : Ptr) : (s.put o { x with items := n }).cells p = s.cells p := by
  cases p with
  | null => rfl
  | block b => rfl
  | internal o' =>
    by_cases hoo : o' = o
    · subst hoo
      rw [System.cells, System.cells, put_objects_self, hx]
      rfl
    · rw [System.cells, System.cells, put_objects_of_ne hoo]

theorem Inv.resize_ok (hI : Inv s) (hx : s.objects o = some x) (n : ℕ) (ok : Bool) : ∃ r t, s.resize o n ok = .ok (r, t) := by
  unfold resize
  rw [hx]
  simp only
  split
  · split
    · rename_i hext
      obtain ⟨b, hb⟩ := hI.block hx hext
      rw [hb, dealloc, if_pos (hI.live hx hb)]
      exact ⟨_, _, rfl⟩
    · exact ⟨_, _, rfl⟩
  · split
    · rename_i hlt
      split
      · rename_i hext
        obtain ⟨b, hb⟩ := hI.block hx hext
        cases ok with
        | false => exact ⟨_, _, rfl⟩
        | true =>
          rw [hI.realloc_eq hx hb (Nat.le_of_lt hlt)]
          exact ⟨_, _, rfl⟩
      · split
        · cases ok with
          | false => exact ⟨_, _, rfl⟩
          | true =>
            unfold alloc
            simp only [↓reduceIte, hI.copied hx (Nat.le_of_lt hlt), bind, Except.bind]
            exact ⟨_, _, rfl⟩
        · exact ⟨_, _, rfl⟩
    · exact ⟨_, _, rfl⟩

theorem Inv.destruct_ok (hI : Inv s) (hx : s.objects o = some x) : ∃ t, s.destruct o = .ok t := by
  unfold destruct
  rw [hx]
  simp only
  split
  · rename_i hext
    obtain ⟨b, hb⟩ := hI.block hx hext
    rw [hb, dealloc, if_pos (hI.live hx hb)]
    exact ⟨_, rfl⟩
  · exact ⟨_, rfl⟩

theorem Inv.resize_preserves (hI : Inv s) (h : s.resize o n ok = .ok (true, t)) :
    (t.contents o).length = n ∧ (t.contents o).take (s.contents o).length = (s.contents o).take n := by
  obtain ⟨x, hx, hresized⟩ := resized hI h
  have hroom := hI.room o x hx
  obtain ⟨hcells, hlen⟩ := hI.cells hx
  rw [contents_eq hx]
  cases hresized with
  | inPlace hfits hkeeps hzero =>
    rw [contents_eq (put_objects_self ..), buffered, cells_put_items hx, hcells, Option.getD_some]
    have hn : ((s.buffered x).take n).length = n := List.length_take_of_le (hlen ▸ hfits)
    refine ⟨hn, ?_⟩
    rw [List.length_take_of_le (hlen ▸ hroom), List.take_take, List.take_take, Nat.min_comm]
  | given hn hb =>
    rw [contents_eq (put_objects_self ..), hn]
    simp
  | movedOut hlt hint =>
    have hnew := (hI.sound.live_alloc (grown (s.buffered x) x.items n)).mpr (Or.inr rfl)
    rw [contents_eq (put_objects_self ..), buffered, System.cells, put_heap, if_pos hnew, Heap.cells_alloc_self,
      Option.getD_some]
    exact take_grown (hlen ▸ hroom) (Nat.le_of_lt hlt)
  | @moved b hlt hok hb =>
    have hlive := hI.live hx hb
    have hnew := Heap.live_dealloc (n := x.items).mpr
      ⟨(hI.sound.live_alloc (grown (s.buffered x) x.items n)).mpr (Or.inr rfl), (Nat.ne_of_lt hlive.1).symm⟩
    rw [contents_eq (put_objects_self ..), buffered, System.cells, put_heap, if_pos hnew, Heap.cells_dealloc,
      Heap.cells_alloc_self, Option.getD_some]
    exact take_grown (hlen ▸ hroom) (Nat.le_of_lt hlt)

theorem Inv.preserves (hI : Inv s) : Preserves s := by
  refine ⟨fun o x n ok hx => ?_, fun o x hx => hI.destruct_ok hx⟩
  obtain ⟨r, t, h⟩ := hI.resize_ok hx n ok
  exact ⟨r, t, h, fun hr => hI.resize_preserves (hr ▸ h)⟩

/-! ### Steps -/

theorem holder_eq (hx : s.objects o = some x) : s.holder o = x.buffer.block? := by
  rw [holder, hx, Option.bind_some]

theorem Inv.external (hI : Inv s) (hx : s.objects o = some x) (hb : x.buffer = .block b) : x.external = true := by
  rcases hI.own o x hx with ⟨-, hint⟩ | ⟨hext, -⟩
  · rw [hint] at hb
    cases hb
  · exact hext

theorem Inv.dealloc (hI : Inv s) (hx : s.objects o = some x) (hb : x.buffer = .block b) (hfull : s.Full x) :
    (s.heap.dealloc b x.items).Sound ∧ (s.heap.dealloc b x.items).Held (Function.update s.holder o none) := by
  have hsize : x.items = (s.heap.cells b).length := by
    rw [hfull (hI.external hx hb), hb, capacity]
  exact ⟨(Heap.sound_dealloc_iff (hI.live hx hb)).mpr ⟨hI.sound, hsize⟩,
    hI.held.dealloc ((holder_eq hx).trans (congrArg Ptr.block? hb)) x.items⟩

theorem inv_resize (hI : Inv s) (hP : ∀ x ∈ s.objects o, n = 0 ∨ (x.items < n ∧ ok = true) → s.Full x)
    (h : s.resize o n ok = .ok (r, t)) : Inv t := by
  obtain ⟨x, hx, hresized⟩ := resized hI h
  obtain ⟨-, hlen⟩ := hI.cells hx
  have hroom : x.items ≤ (s.buffered x).length := hlen ▸ hI.room o x hx
  cases hresized with
  | noBlock hn hok => exact hI
  | inPlace hfits hkeeps hzero =>
    refine hI.update (v := some { x with items := n }) hI.sound ?_ (fun _ _ => rfl) ?_ ?_
    · rw [Option.bind_some, ← holder_eq hx, Function.update_eq_self]
      exact hI.held
    · rintro _ ⟨⟩
      exact hI.own o x hx
    · rintro _ ⟨⟩
      exact hfits
  | @given b hn hb =>
    obtain ⟨hsound, hheld⟩ := hI.dealloc hx hb (hP x hx (Or.inl hn))
    refine hI.update (v := some { x with external := false, buffer := .internal o, items := n }) hsound hheld
      (fun _ _ => rfl) ?_ ?_
    · rintro _ ⟨⟩
      exact Or.inl ⟨rfl, rfl⟩
    · rintro _ ⟨⟩
      exact hn ▸ Nat.zero_le _
  | movedOut hlt hint =>
    refine hI.update (v := some { x with buffer := .block s.heap.blocks.length, external := true, items := n })
      (hI.sound.alloc _) (hI.held.alloc hI.sound ((holder_eq hx).trans (congrArg Ptr.block? hint)) _)
      (fun b hb => by rw [Heap.cells_alloc hb.1]) ?_ ?_
    · rintro _ ⟨⟩
      exact Or.inr ⟨rfl, _, rfl⟩
    · rintro _ ⟨⟩
      exact Nat.le_of_eq (by rw [capacity, Heap.cells_alloc_self, length_grown hroom (Nat.le_of_lt hlt)])
  | @moved b hlt hok hb =>
    obtain ⟨hsound, hheld⟩ := hI.dealloc hx hb (hP x hx (Or.inr ⟨hlt, hok⟩))
    have hnew := hheld.alloc hsound (Function.update_self ..) (grown (s.buffered x) x.items n)
    rw [Function.update_idem] at hnew
    have hext := hI.external hx hb
    refine hI.update (v := some { x with buffer := .block s.heap.blocks.length, items := n }) (hsound.alloc _) hnew
      (fun b hb => by rw [Heap.cells_dealloc, Heap.cells_alloc hb.1]) ?_ ?_
    · rintro _ ⟨⟩
      exact Or.inr ⟨hext, _, rfl⟩
    · rintro _ ⟨⟩
      exact Nat.le_of_eq (by rw [capacity, Heap.cells_dealloc, Heap.cells_alloc_self, length_grown hroom (Nat.le_of_lt hlt)])

section
variable [Zero T]

theorem construct_inside (s : System T N) (o : Obj) (hn : n < N) (ok : Bool) :
    s.construct o n ok = s.put o ⟨Vector.replicate N (some 0), .internal o, n, false⟩ := by
  have hext : decide (N < n) = false := decide_eq_false (Nat.lt_asymm hn)
  unfold construct
  rw [if_pos hn, hext]
  rfl

theorem construct_null (s : System T N) (o : Obj) (hn : N ≤ n) :
    s.construct o n false = s.put o ⟨Vector.replicate N (some 0), .null, 0, decide (N < n)⟩ := by
  unfold construct
  rw [if_neg (Nat.not_lt.mpr hn)]
  rfl

theorem construct_block (s : System T N) (o : Obj) (hn : N ≤ n) :
    s.construct o n true = { s with heap := s.heap.alloc (List.replicate n (some 0)) }.put o
      ⟨Vector.replicate N (some 0), .block s.heap.blocks.length, n, decide (N < n)⟩ := by
  have hfill : (List.replicate n (none : Option T)).mapIdx (fun i cell => if i < n then some 0 else cell) =
      List.replicate n (some 0) := by
    refine List.ext_getElem (by simp) fun i hi _ => ?_
    have hi : i < n := by simpa using hi
    simp [hi]
  calc s.construct o n true
      = ({ s with
          heap := (s.heap.alloc (List.replicate n none)).write s.heap.blocks.length
            (((s.heap.alloc (List.replicate n none)).cells s.heap.blocks.length).mapIdx
              fun i cell => if i < n then some 0 else cell) } : System T N).put o
          ⟨Vector.replicate N (some 0), .block s.heap.blocks.length, n, decide (N < n)⟩ := by
        unfold construct
        rw [if_neg (Nat.not_lt.mpr hn)]
        rfl
    _ = _ := by rw [Heap.cells_alloc_self, hfill, Heap.write_alloc]

theorem inv_construct (hI : Inv s) (ho : s.objects o = none) (hP : n ≠ N ∧ (N < n → ok = true)) :
    Inv (s.construct o n ok) := by
  have hnone : s.holder o = none := by
    rw [holder, ho]
    rfl
  by_cases hn : n < N
  · rw [construct_inside s o hn]
    refine hI.update (v := some _) hI.sound ?_ (fun _ _ => rfl) ?_ ?_
    · have hsame : Function.update s.holder o none = s.holder := hnone ▸ Function.update_eq_self o s.holder
      exact hsame.symm ▸ hI.held
    · rintro _ ⟨⟩
      exact Or.inl ⟨rfl, rfl⟩
    · rintro _ ⟨⟩
      exact Nat.le_of_lt hn
  · have hlt : N < n := Nat.lt_of_le_of_ne (Nat.not_lt.mp hn) hP.1.symm
    rw [hP.2 hlt, construct_block s o (Nat.le_of_lt hlt)]
    refine hI.update (v := some _) (hI.sound.alloc _) (hI.held.alloc hI.sound hnone _)
      (fun b hb => by rw [Heap.cells_alloc hb.1]) ?_ ?_
    · rintro _ ⟨⟩
      exact Or.inr ⟨decide_eq_true hlt, _, rfl⟩
    · rintro _ ⟨⟩
      exact Nat.le_of_eq (by rw [capacity, Heap.cells_alloc_self, List.length_replicate])

end

theorem swap_ok {o' : Obj} (h : s.swap o o' = .ok t) :
    (∃ x y, s.objects o = some x ∧ s.objects o' = some y) ∧ t = { s with objects := s.objects ∘ Equiv.swap o o' } := by
  unfold swap at h
  split at h
  · rename_i x y hx hy
    cases h
    refine ⟨⟨x, y, hx, hy⟩, congrArg (System.mk · s.heap) (funext fun p => ?_)⟩
    by_cases hp' : p = o'
    · subst hp'
      rw [Function.comp_apply, Equiv.swap_apply_right, hx]
      exact Function.update_self ..
    · by_cases hp : p = o
      · subst hp
        rw [Function.comp_apply, Equiv.swap_apply_left, hy, Function.update_of_ne hp']
        exact Function.update_self ..
      · rw [Function.comp_apply, Equiv.swap_apply_of_ne_of_ne hp hp', Function.update_of_ne hp']
        exact Function.update_of_ne hp ..
  · cases h

/-- Buffers that are in the heap may be exchanged. -/
theorem inv_swap {o' : Obj} (hI : Inv s)
    (hP : o = o' ∨ ∀ x ∈ s.objects o, ∀ y ∈ s.objects o', x.external = true ∧ y.external = true)
    (h : s.swap o o' = .ok t) : Inv t := by
  obtain ⟨⟨x, y, hx, hy⟩, rfl⟩ := swap_ok h
  refine ⟨hI.sound, hI.held.perm (Equiv.swap o o'), fun p z hz => ?_, fun p z hz => hI.room _ z hz⟩
  have hz : s.objects (Equiv.swap o o' p) = some z := hz
  rcases hI.own _ z hz with ⟨hext, hbuf⟩ | hblock
  · have hsame : Equiv.swap o o' p = p := by
      rcases hP with rfl | hboth
      · rw [Equiv.swap_self, Equiv.refl_apply]
      · obtain ⟨hxext, hyext⟩ := hboth x hx y hy
        refine Equiv.swap_apply_of_ne_of_ne ?_ ?_
        · rintro rfl
          rw [Equiv.swap_apply_left] at hz
          cases hy.symm.trans hz
          rw [hext] at hyext
          cases hyext
        · rintro rfl
          rw [Equiv.swap_apply_right] at hz
          cases hx.symm.trans hz
          rw [hext] at hxext
          cases hxext
    exact Or.inl ⟨hext, hsame ▸ hbuf⟩
  · exact Or.inr hblock

theorem inv_destruct (hI : Inv s) (hP : ∀ x ∈ s.objects o, s.Full x) (h : s.destruct o = .ok t) : Inv t := by
  unfold destruct at h
  split at h
  · cases h
  · rename_i x hx
    split at h
    · rename_i hext
      obtain ⟨b, hb⟩ := hI.block hx hext
      obtain ⟨hsound, hheld⟩ := hI.dealloc hx hb (hP x hx)
      obtain ⟨u, hu, h⟩ := bind_ok h
      rw [hb, System.dealloc, if_pos (hI.live hx hb)] at hu
      cases hu
      cases h
      exact hI.update (v := none) hsound hheld (fun _ _ => rfl) nofun nofun
    · rename_i hext
      cases h
      refine hI.update (v := none) hI.sound ?_ (fun _ _ => rfl) nofun nofun
      have hnone : s.holder o = none := (holder_eq hx).trans (congrArg Ptr.block? (hI.inside hx hext))
      rw [Option.bind_none, ← hnone, Function.update_eq_self]
      exact hI.held

theorem inv_assign {v : T} {index : ℕ} (hI : Inv s) (h : s.assign o index v = .ok t) : Inv t := by
  unfold assign at h
  split at h
  · cases h
  rename_i x hx
  split at h
  · cases h
  rename_i cells hcells
  split at h
  · rename_i hindex
    split at h
    · rename_i b hb
      cases h
      have hlive := hI.live hx hb
      have hlen : (cells.set index (some v)).length = (s.heap.cells b).length := by
        rw [hb, System.cells, if_pos hlive] at hcells
        cases hcells
        exact List.length_set
      have hcapacity : ∀ p, capacity { s with heap := s.heap.write b (cells.set index (some v)) } p = s.capacity p := by
        rintro (_ | o' | b')
        · rfl
        · rfl
        · rw [capacity, capacity, Heap.cells_write hlive.1]
          split
          · rename_i hbb
            rw [hlen, hbb]
          · rfl
      refine ⟨hI.sound.write hlive.1 hlen, hI.held.write _, hI.own, fun o' y hy => ?_⟩
      rw [hcapacity]
      exact hI.room o' y hy
    · rename_i o' hint
      split at h
      · rename_i y hy
        cases h
        have hsame : (some { y with internal := y.internal.setIfInBounds index (some v) }).bind (fun x => x.buffer.block?) =
            s.holder o' := (holder_eq hy).symm
        refine hI.update (v := some { y with internal := y.internal.setIfInBounds index (some v) }) hI.sound ?_
          (fun _ _ => rfl) ?_ ?_
        · rw [hsame, Function.update_eq_self]
          exact hI.held
        · rintro _ ⟨⟩
          exact hI.own o' y hy
        · rintro _ ⟨⟩
          exact hI.room o' y hy
      · cases h
    · cases h
  · cases h

theorem inv_step [Zero T] {a : Action T} (hI : Inv s) (hP : Fits s a) (h : step s a = .ok t) : Inv t := by
  cases a with
  | construct o n ok =>
    simp only [step] at h
    split at h <;> cases h
    exact inv_construct hI ‹_› hP
  | resize o n ok =>
    simp only [step] at h
    cases hr : s.resize o n ok with
    | error e =>
      rw [hr] at h
      cases h
    | ok p =>
      rw [hr] at h
      cases h
      exact inv_resize hI hP hr
  | swap o o' => exact inv_swap hI hP h
  | destruct o => exact inv_destruct hI hP h
  | assign o index v => exact inv_assign hI h

theorem inv_init : Inv ({} : System T N) := ⟨Heap.sound_empty, Heap.held_empty, nofun, nofun⟩

/-! ### The steps that break the ownership -/

theorem size_of_sound {h : Heap (Option T)} (hb : h.Live b) (hcells : (h.cells b).length = (s.heap.cells b).length)
    (hbuf : x.buffer = .block b) (hsound : (h.dealloc b x.items).Sound) : x.items = s.capacity x.buffer := by
  rw [hbuf, capacity, ← hcells]
  exact ((Heap.sound_dealloc_iff hb).mp hsound).2

theorem construct_bad [Zero T] (hO : Owned (s.construct o n ok)) : n ≠ N ∧ (N < n → ok = true) := by
  constructor
  · rintro rfl
    cases ok with
    | false =>
      rw [construct_null s o (Nat.le_refl n)] at hO
      cases hO.internal o _ (put_objects_self ..) (decide_eq_false (Nat.lt_irrefl n))
    | true =>
      rw [construct_block s o (Nat.le_refl n)] at hO
      cases hO.internal o _ (put_objects_self ..) (decide_eq_false (Nat.lt_irrefl n))
  · intro hlt
    cases ok with
    | true => rfl
    | false =>
      rw [construct_null s o (Nat.le_of_lt hlt)] at hO
      obtain ⟨b, hb, -⟩ := (hO.external o _ (put_objects_self ..)).mp (decide_eq_true hlt)
      cases hb

theorem resize_bad (hI : Inv s) (h : s.resize o n ok = .ok (r, t)) (hO : Owned t) :
    ∀ x ∈ s.objects o, n = 0 ∨ (x.items < n ∧ ok = true) → s.Full x := by
  intro x hx hn hext
  obtain ⟨y, hy, hresized⟩ := resized hI h
  cases hx.symm.trans hy
  cases hresized with
  | inPlace hfits hkeeps hzero =>
    rcases hn with hn | ⟨hlt, -⟩
    · cases hext.symm.trans (hzero hn)
    · cases hext.symm.trans (hkeeps.resolve_left (Nat.not_le.mpr hlt))
  | given hn hb => exact size_of_sound (hI.live hx hb) rfl hb hO.deallocated
  | noBlock hn' hok =>
    rcases hn with hn | ⟨-, htrue⟩
    · exact absurd hn hn'
    · cases htrue.symm.trans hok
  | movedOut hlt hint =>
    obtain ⟨b, hb⟩ := hI.block hx hext
    cases hint.symm.trans hb
  | moved hlt hok hb =>
    have hlive := hI.live hx hb
    exact size_of_sound ((hI.sound.live_alloc _).mpr (Or.inl hlive)) (by rw [Heap.cells_alloc hlive.1]) hb hO.deallocated

theorem swap_bad {o' : Obj} (hI : Inv s) (h : s.swap o o' = .ok t) (hO : Owned t) :
    o = o' ∨ ∀ x ∈ s.objects o, ∀ y ∈ s.objects o', x.external = true ∧ y.external = true := by
  obtain ⟨-, rfl⟩ := swap_ok h
  refine or_iff_not_imp_left.mpr fun hne x hx y hy => ⟨?_, ?_⟩
  · by_contra hext
    have hx' : (s.objects ∘ Equiv.swap o o') o' = some x := by rwa [Function.comp_apply, Equiv.swap_apply_right]
    cases (hI.inside hx hext).symm.trans (hO.internal o' x hx' (Bool.not_eq_true _ ▸ hext))
    exact hne rfl
  · by_contra hext
    have hy' : (s.objects ∘ Equiv.swap o o') o = some y := by rwa [Function.comp_apply, Equiv.swap_apply_left]
    cases (hI.inside hy hext).symm.trans (hO.internal o y hy' (Bool.not_eq_true _ ▸ hext))
    exact hne rfl

theorem destruct_bad (hI : Inv s) (h : s.destruct o = .ok t) (hO : Owned t) : ∀ x ∈ s.objects o, s.Full x := by
  intro x hx hext
  obtain ⟨b, hb⟩ := hI.block hx hext
  unfold destruct at h
  rw [Option.mem_def.mp hx] at h
  simp only [hext, ↓reduceIte] at h
  obtain ⟨u, hu, h⟩ := bind_ok h
  rw [hb, System.dealloc, if_pos (hI.live hx hb)] at hu
  cases hu
  cases h
  exact size_of_sound (hI.live hx hb) rfl hb hO.deallocated

theorem fits_of_owned [Zero T] {a : Action T} (hI : Inv s) (h : step s a = .ok t) (hO : Owned t) : Fits s a := by
  cases a with
  | construct o n ok =>
    simp only [step] at h
    split at h <;> cases h
    exact construct_bad hO
  | resize o n ok =>
    simp only [step] at h
    cases hr : s.resize o n ok with
    | error e =>
      rw [hr] at h
      cases h
    | ok p =>
      rw [hr] at h
      cases h
      exact resize_bad hI hr hO
  | swap o o' => exact swap_bad hI h hO
  | destruct o => exact destruct_bad hI h hO
  | assign o index v => trivial

end

/-- In a run of constructions, resizes, swaps, assignments and destructions, in every state each object owns its
    buffer, each block is deallocated once with its size and `resize` keeps the elements, if and only if every step fits. -/
theorem owned_iff [Zero T] {as : List (Action T)} {t : System T N} (h : run step ({} : System T N) as = .ok t) :
    (∀ past s, past <+: as → run step ({} : System T N) past = .ok s → Owned s ∧ Preserves s) ↔
      Along step Fits ({} : System T N) as :=
  forall_prefix_iff_along (J := fun _ => Inv) (Q := fun _ s => Owned s ∧ Preserves s) []
    (fun hI => ⟨hI.owned, hI.preserves⟩) inv_step (fun hI h hO => fits_of_owned hI h hO.1) inv_init h

/-- Two buffers: one leaves its object and gives its block back, the other is in the heap from the start; they are swapped. -/
theorem owned_iff_two :
    let as : List (Action ℕ) := [.construct 0 1 true, .assign 0 0 7, .construct 1 3 true, .resize 0 2 true, .resize 0 4 true,
      .swap 0 1, .resize 1 6 false, .resize 1 6 true, .destruct 0, .resize 1 0 true]
    ∃ s, run step ({} : System ℕ 2) as = .ok s ∧ Owned s ∧ Preserves s := by
  intro as
  have hfits : Along step Fits ({} : System ℕ 2) as := by decide
  exact ⟨_, rfl, (owned_iff rfl).mpr hfits as _ (List.prefix_refl as) rfl⟩

/-- A buffer of exactly `N` elements gets a block that no flag remembers. -/
theorem construct_leaks : ¬∀ (as : List (Action ℕ)) s, run step ({} : System ℕ 2) as = .ok s → Owned s := by
  intro h
  have hO := h [.construct 0 2 true] _ rfl
  cases hO.internal 0 _ rfl rfl

end Zylib.ZySoft.AutoBuffer.System
