import Zylib.Theorems.ByteBuffer

/-! `nel::ByteBuf` as a queue of bytes. Its `shrinkToFit` leaves the bytes of a drained buffer in the
    storage, and `byteEmpty` compares the read cursor with the size of the storage: from then on the
    buffer takes itself for non-empty. -/

namespace Zylib.Nel
open Zylib.ByteBuffer

variable {p : Platform} {b : ByteBuf} {q : Bytes}

/-- The buffer that a call leaves, whether it returned or threw. -/
def after : EStateM.Result Exception ByteBuf Bytes → ByteBuf
  | .ok _ b => b
  | .error _ b => b

/-- Everything that was written has been read, and the cursors have moved. -/
def Drained (b : ByteBuf) : Prop := b.rpos ≠ 0 ∧ b.rpos = b.wpos

/-- No `shrinkToFit` of the run meets a drained buffer. -/
def NoDrainedShrink (p : Platform) : ByteBuf → List Op → Prop
  | _, [] => True
  | b, op :: ops => (op = .shrinkToFit → ¬Drained b) ∧ NoDrainedShrink p (after (op.exec p ByteBuf.drained b)) ops

theorem conforms_of_simulates {drained : Bytes → Bytes} {ops : List Op} (h : Simulates p drained b q ops) :
    Conforms b q := by
  cases ops with
  | nil => exact h
  | cons op ops => exact h.1

/-- After a `shrinkToFit` a drained buffer is not empty, though it has no byte to read. -/
theorem not_conforms_of_drained (h : Holds b q) (hd : Drained b) (q' : Bytes) :
    ¬Conforms { storage := b.storage } q' := by
  intro hc
  have hzero : q'.length = 0 := by
    have := hc.byteSize
    simp only [byteSize, Nat.lt_irrefl, if_false, Nat.sub_self] at this
    injection this with this
    exact this.symm
  have hstorage : b.storage.length = 0 := by
    have := hc.byteEmpty.mpr hzero
    rw [byteEmpty, beq_iff_eq] at this
    exact this.symm
  exact hd.1 (by rw [hd.2, h.wpos_eq, hstorage])

theorem shrinkToFit_drained (h : Holds b q) (hd : Drained b) :
    Op.exec p ByteBuf.drained .shrinkToFit b = .ok [] { storage := b.storage } := by
  have hq : q.length = 0 := by rw [← h.size, hd.2, Nat.sub_self]
  simp [Op.exec, shrinkToFitWith, hd.1, h.byteSize, hq, ByteBuf.drained]

theorem simulates_iff_of_holds (h : Holds b q) (ops : List Op) :
    Simulates p ByteBuf.drained b q ops ↔ NoDrainedShrink p b ops := by
  induction ops generalizing b q with
  | nil => exact ⟨fun _ => trivial, fun _ => h.conforms⟩
  | cons op ops ih =>
    by_cases hbad : op = .shrinkToFit ∧ Drained b
    · obtain ⟨rfl, hd⟩ := hbad
      constructor
      · rintro ⟨-, hrun⟩
        rw [shrinkToFit_drained h hd] at hrun
        obtain ⟨q', -, hs⟩ := hrun
        exact absurd (conforms_of_simulates hs) (not_conforms_of_drained h hd q')
      · rintro ⟨hno, -⟩
        exact absurd hd (hno rfl)
    · have hok : op = .shrinkToFit → ¬Drained b := fun e hd => hbad ⟨e, hd⟩
      have hstep : Agrees (op.exec p ByteBuf.drained b) q (op.onQueue p q) :=
        agrees_exec h op fun e h0 hend => absurd ⟨h0, hend⟩ (hok e)
      simp only [Simulates, NoDrainedShrink]
      cases hrun : op.exec p ByteBuf.drained b with
      | ok out b' =>
        rw [hrun] at hstep
        obtain ⟨q', hq, h'⟩ := hstep
        simp only [hq, Option.some.injEq, Prod.mk.injEq, true_and, exists_eq_left', after, ih h']
        exact ⟨fun hs => ⟨hok, hs.2⟩, fun hs => ⟨h.conforms, hs.2⟩⟩
      | error e b' =>
        rw [hrun] at hstep
        simp only [after, ih hstep.2]
        exact ⟨fun hs => ⟨hok, hs.2⟩, fun hs => ⟨h.conforms, hs.2⟩⟩

/-- From an empty buffer on, a run acts as on a queue of bytes if and only if no `shrinkToFit` of it
    meets a drained buffer. -/
theorem simulates_iff (p : Platform) (ops : List Op) :
    Simulates p ByteBuf.drained {} [] ops ↔ NoDrainedShrink p {} ops :=
  simulates_iff_of_holds holds_empty ops

/-- A byte is written and read, and the buffer compacted. -/
theorem not_simulates_drained : ¬∀ (p : Platform) (ops : List Op), Simulates p ByteBuf.drained {} [] ops := by
  intro h
  obtain ⟨-, q₁, -, -, q₂, -, -, q₃, -, hc⟩ := h ⟨16, fun _ _ => true⟩ [.put [7], .take (.integral 1), .shrinkToFit]
  have hzero : q₃.length = 0 := by
    have := hc.byteSize
    injection this with this
    exact this.symm
  exact absurd (hc.byteEmpty.mpr hzero) (by decide)

end Zylib.Nel
