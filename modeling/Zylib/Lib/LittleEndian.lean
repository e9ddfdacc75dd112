import Mathlib.Algebra.Group.Int.Defs
import Mathlib.Algebra.GroupWithZero.Nat
import Mathlib.Data.List.Basic

/-! Little-endian words: `toLE k n` is the number `n` in `k` bytes, low byte first, and `ofLE` reads
    such bytes back. A 32-bit signed word is stored as the bytes of its two's complement. -/

namespace LittleEndian

/-- The `k` low bytes of `n`, low byte first. -/
def toLE : Nat → Nat → List UInt8
  | 0, _ => []
  | k + 1, n => UInt8.ofNat n :: toLE k (n / 256)

/-- The number whose bytes, low byte first, are `bs`. -/
def ofLE : List UInt8 → Nat
  | [] => 0
  | b :: bs => b.toNat + 256 * ofLE bs

@[simp] theorem length_toLE (k n : Nat) : (toLE k n).length = k := by
  induction k generalizing n with
  | zero => rfl
  | succ k ih => simp [toLE, ih]

theorem ofLE_toLE (k n : Nat) : ofLE (toLE k n) = n % 256 ^ k := by
  induction k generalizing n with
  | zero => simp [toLE, ofLE, Nat.mod_one]
  | succ k ih =>
    have low : (UInt8.ofNat n).toNat = n % 256 := UInt8.toNat_ofNat'
    simp only [toLE, ofLE, ih, low]
    rw [Nat.pow_succ, Nat.mul_comm (256 ^ k), Nat.mod_mul]

theorem ofLE_lt (bs : List UInt8) : ofLE bs < 256 ^ bs.length := by
  induction bs with
  | nil => simp [ofLE]
  | cons b bs ih =>
    have hb := b.toNat_lt
    simp only [ofLE, List.length_cons, Nat.pow_succ]
    omega

theorem toLE_ofLE (bs : List UInt8) : toLE bs.length (ofLE bs) = bs := by
  induction bs with
  | nil => rfl
  | cons b bs ih =>
    have hb := b.toNat_lt
    have head : UInt8.ofNat (b.toNat + 256 * ofLE bs) = b := UInt8.toNat_inj.mp (by simp)
    have tail : (b.toNat + 256 * ofLE bs) / 256 = ofLE bs := by omega
    simp only [List.length_cons, toLE, ofLE, head, tail, ih]

theorem ofLE_append (bs cs : List UInt8) : ofLE (bs ++ cs) = ofLE bs + 256 ^ bs.length * ofLE cs := by
  induction bs with
  | nil => simp [ofLE]
  | cons b bs ih =>
    simp only [List.cons_append, ofLE, ih, List.length_cons, Nat.pow_succ, Nat.mul_add]
    rw [Nat.mul_right_comm, Nat.mul_comm 256 (256 ^ bs.length * _), Nat.add_assoc, Nat.mul_right_comm]

theorem ofLE_take_add {bs : List UInt8} {k : Nat} (h : k ≤ bs.length) (m : Nat) :
    ofLE (bs.take (k + m)) = ofLE (bs.take k) + 256 ^ k * ofLE ((bs.drop k).take m) := by
  rw [List.take_add, ofLE_append, List.length_take_of_le h]

/-! ### 32-bit signed words -/

/-- The four bytes of a 32-bit signed word. -/
def int32Bytes (x : Int32) : List UInt8 := toLE 4 x.toUInt32.toNat

/-- The 32-bit signed word whose bytes are `bs`. -/
def int32OfBytes (bs : List UInt8) : Int32 := (UInt32.ofNat (ofLE bs)).toInt32

@[simp] theorem length_int32Bytes (x : Int32) : (int32Bytes x).length = 4 := length_toLE ..

@[simp] theorem int32OfBytes_int32Bytes (x : Int32) : int32OfBytes (int32Bytes x) = x := by
  simp [int32OfBytes, int32Bytes, ofLE_toLE]

theorem int32Bytes_int32OfBytes {bs : List UInt8} (h : bs.length = 4) : int32Bytes (int32OfBytes bs) = bs := by
  have hlt : ofLE bs < 2 ^ 32 := by
    have := ofLE_lt bs
    rw [h] at this
    exact this
  have hn : (UInt32.ofNat (ofLE bs)).toNat = ofLE bs := UInt32.toNat_ofNat_of_lt' hlt
  have := toLE_ofLE bs
  rw [h] at this
  simp only [int32Bytes, int32OfBytes, UInt32.toUInt32_toInt32, hn, this]

end LittleEndian
