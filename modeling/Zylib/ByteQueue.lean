import Zylib.ByteBuffer

/-! What a byte buffer is for: a queue of bytes, to which writers append and from whose front readers
    take. `Op` is a call of a member function, `Op.exec` what it does to a buffer and `Op.onQueue`
    what it is to do to the queue. -/

namespace Zylib.ByteBuffer

inductive Op where
  | append (src : Option Bytes)
  | put (value : Bytes)
  | putBool (value : Bool)
  | putString (value : Bytes)
  | putCString (str : Option Bytes)
  | readBytes (len : Nat)
  | read (t : Arithmetic)
  | readSkip (skip : Nat)
  | take (t : Arithmetic)
  | takeString
  | takeVector
  | shrinkToFit
  | reserve (s : Nat)
  | clear
deriving DecidableEq

section
variable (p : Platform)

/-- A call on a buffer, and the bytes it returns; `drained` is as in `shrinkToFitWith`. -/
def Op.exec (drained : Bytes → Bytes) : Op → M Bytes
  | .append src => do ByteBuffer.append src; return []
  | .put value => do ByteBuffer.put value; return []
  | .putBool value => do ByteBuffer.putBool value; return []
  | .putString value => do ByteBuffer.putString value; return []
  | .putCString str => do ByteBuffer.putCString str; return []
  | .readBytes len => ByteBuffer.readBytes len
  | .read t => ByteBuffer.read p t
  | .readSkip skip => do ByteBuffer.readSkip skip; return []
  | .take t => ByteBuffer.take p t
  | .takeString => ByteBuffer.takeString
  | .takeVector => ByteBuffer.takeVector
  | .shrinkToFit => do shrinkToFitWith drained; return []
  | .reserve s => do ByteBuffer.reserve s; return []
  | .clear => do ByteBuffer.clear; return []

/-- The value of type `t` that the bytes represent, if it is one that may be read. -/
def Arithmetic.value (t : Arithmetic) (v : Bytes) : Option Bytes :=
  match t with
  | .integral _ => some v
  | .bool => some [if v ≠ [0] then 1 else 0]
  | .floating t => if p.isfinite t v then some v else none

/-- The first `n` bytes of a queue, if it has as many. -/
def front (n : Nat) (q : Bytes) : Option Bytes := if n ≤ q.length then some (q.take n) else none

/-- A call on a queue: the bytes it returns and the queue it leaves, or `none` when it is refused. -/
def Op.onQueue (op : Op) (q : Bytes) : Option (Bytes × Bytes) :=
  match op with
  | .append src => some ([], q ++ src.getD [])
  | .put value => some ([], q ++ value)
  | .putBool value => some ([], q ++ [if value then 1 else 0])
  | .putString value => some ([], q ++ value)
  | .putCString str => some ([], q ++ (str.getD []).takeWhile (· ≠ 0))
  | .readBytes len => (front len q).map fun v => (v, q)
  | .read t => ((front (t.sizeof p) q).bind (t.value p)).map fun v => (v, q)
  | .readSkip skip => (front skip q).map fun _ => ([], q.drop skip)
  | .take t => ((front (t.sizeof p) q).bind (t.value p)).map fun v => (v, q.drop (t.sizeof p))
  | .takeString => some (q, [])
  | .takeVector => some (q, [])
  | .shrinkToFit => some ([], q)
  | .reserve _ => some ([], q)
  | .clear => some ([], [])

/-- `b` represents the queue `q`: the sizes it reports are those of the queue, and reading a string or
    a vector returns the whole of it. -/
structure Conforms (b : ByteBuffer) (q : Bytes) : Prop where
  unread : b.unread = q
  byteSize : byteSize b = .ok q.length b
  byteEmpty : b.byteEmpty = true ↔ q.length = 0
  takeString : ∃ b', takeString b = .ok q b'
  takeVector : ∃ b', takeVector b = .ok q b'

/-- Throughout the calls the buffer represents the queue; a call that returns has the effect it is to
    have, and one that throws has none. -/
def Simulates (drained : Bytes → Bytes) : ByteBuffer → Bytes → List Op → Prop
  | b, q, [] => Conforms b q
  | b, q, op :: ops =>
    Conforms b q ∧
      match op.exec p drained b with
      | .ok out b' => ∃ q', op.onQueue p q = some (out, q') ∧ Simulates drained b' q' ops
      | .error _ b' => Simulates drained b' q ops

end
end Zylib.ByteBuffer
