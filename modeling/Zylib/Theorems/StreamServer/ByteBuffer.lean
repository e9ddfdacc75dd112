import Zylib.Theorems.ByteBuffer

/-! `network::ByteBuffer` as a queue of bytes. Its `shrinkToFit` clears the storage of a drained buffer, so
    that every run from an empty buffer acts as on a queue. -/

namespace Zylib.StreamServer
open Zylib.ByteBuffer

variable {p : Platform} {b : ByteBuffer} {q : Bytes}

/-- `b` represents the queue `q`, its cursors are in order and its storage ends at the write cursor. -/
structure Represents (b : ByteBuffer) (q : Bytes) : Prop extends Conforms b q where
  rpos_le : b.rpos ≤ b.wpos
  wpos_eq : b.wpos = b.storage.length

/-- Throughout the calls the buffer represents the queue. A call that returns has the effect it is to have;
    one that throws has none, and the queue refuses it or the vector would exceed its maximal size. -/
def Refines (p : Platform) : ByteBuffer → Bytes → List Op → Prop
  | b, q, [] => Represents b q
  | b, q, op :: ops =>
    Represents b q ∧
      match op.exec p drained b with
      | .ok out b' => ∃ q', op.onQueue p q = some (out, q') ∧ Refines p b' q' ops
      | .error e b' => (op.onQueue p q = none ∨ e = .lengthError) ∧ Refines p b' q ops

theorem represents_of_holds (h : Holds b q) : Represents b q := ⟨h.conforms, h.rpos_le, h.wpos_eq⟩

/-- Each call acts on the queue that the buffer holds, `shrinkToFit` too. -/
theorem agrees_exec_drained (h : Holds b q) (op : Op) : Agrees (op.exec p drained b) q (op.onQueue p q) :=
  agrees_exec h op fun _ _ _ => rfl

theorem refines_of_holds (h : Holds b q) (ops : List Op) : Refines p b q ops := by
  induction ops generalizing b q with
  | nil => exact represents_of_holds h
  | cons op ops ih =>
    refine ⟨represents_of_holds h, ?_⟩
    have hstep : Agrees (op.exec p drained b) q (op.onQueue p q) := agrees_exec_drained h op
    cases hrun : op.exec p drained b with
    | ok out b' =>
      rw [hrun] at hstep
      obtain ⟨q', hq, h'⟩ := hstep
      exact ⟨q', hq, ih h'⟩
    | error e b' =>
      rw [hrun] at hstep
      exact ⟨hstep.1, ih hstep.2⟩

/-- A buffer whose two bytes have been read is emptied. -/
example : Op.exec ⟨16, fun _ _ => true⟩ drained .shrinkToFit ⟨2, 2, [7, 8]⟩ = .ok [] {} := rfl

end Zylib.StreamServer
