import Mathlib.Tactic.Ring
import Zylib.Hashing.IdCRC32
import Zylib.Lib.BitPolynomial

/-! The table does eight turns of the register at once, since a turn is linear in exclusive or. A turn multiplies the register by `x`
    modulo the polynomial, so a checksum is the remainder the comment on the table speaks of. -/

namespace Zylib.Hashing.IdCRC32

/-! ### The register -/

theorem and_one (c : UInt64) : c &&& 1 = if c.toNat.testBit 0 then 1 else 0 := by
  apply UInt64.toNat_inj.mp
  rw [UInt64.toNat_and, show (1 : UInt64).toNat = 1 from rfl, Nat.and_one_is_mod, Nat.testBit_zero]
  rcases Nat.mod_two_eq_zero_or_one c.toNat with h | h <;> simp [h]

theorem shift_eq (c : UInt64) : shift c = (if c.toNat.testBit 0 then poly else 0) ^^^ (c >>> 1) := by
  unfold shift
  rw [and_one]
  cases c.toNat.testBit 0 <;> simp

theorem shift_xor (c d : UInt64) : shift (c ^^^ d) = shift c ^^^ shift d := by
  have hshift : (c ^^^ d) >>> 1 = (c >>> 1) ^^^ (d >>> 1) := by
    apply UInt64.toNat_inj.mp
    simp only [UInt64.toNat_shiftRight, UInt64.toNat_xor, Nat.shiftRight_xor_distrib]
  rw [shift_eq, shift_eq, shift_eq, UInt64.toNat_xor, Nat.testBit_xor, hshift]
  have hterm : (if (c.toNat.testBit 0 ^^ d.toNat.testBit 0) = true then poly else 0) =
      (if c.toNat.testBit 0 then poly else 0) ^^^ (if d.toNat.testBit 0 then poly else 0) := by
    cases c.toNat.testBit 0 <;> cases d.toNat.testBit 0 <;> simp
  rw [hterm]
  ac_rfl

theorem shifts_xor (n : Nat) (c d : UInt64) : shifts n (c ^^^ d) = shifts n c ^^^ shifts n d := by
  induction n generalizing c d with
  | zero => rfl
  | succ n ih => rw [shifts, shift_xor, ih, shifts, shifts]

/-- Zeros are shifted out. -/
theorem toNat_shifts {n : Nat} {c : UInt64} (h : 2 ^ n ∣ c.toNat) : (shifts n c).toNat = c.toNat / 2 ^ n := by
  induction n generalizing c with
  | zero => simp [shifts]
  | succ n ih =>
    obtain ⟨k, hk⟩ := h
    have hbit : c.toNat.testBit 0 = false := by
      rw [Nat.testBit_zero, hk, Nat.pow_succ, Nat.mul_comm (2 ^ n), Nat.mul_assoc]
      simp
    have hshift : (shift c).toNat = 2 ^ n * k := by
      rw [shift_eq, hbit, if_neg Bool.false_ne_true, UInt64.zero_xor, UInt64.toNat_shiftRight, hk]
      show 2 ^ (n + 1) * k / 2 = _
      rw [Nat.pow_succ, Nat.mul_right_comm, Nat.mul_div_cancel _ (by decide)]
    rw [shifts, ih ⟨k, hshift⟩, hshift, hk, Nat.mul_div_cancel_left _ (Nat.two_pow_pos _),
      Nat.mul_div_cancel_left _ (Nat.two_pow_pos _)]

theorem crctable_eq : crctable = makeCrcTable := by decide +kernel

theorem crctable_getD {i : Nat} (h : i < 256) : crctable.getD i 0 = shifts 8 (UInt64.ofNat i) := by
  rw [crctable_eq, makeCrcTable, List.getD_eq_getElem?_getD, List.getElem?_map, List.getElem?_range h]
  rfl

/-- The low byte and the others. -/
theorem xor_low_high (c : UInt64) : (c &&& (0xff : UInt64)) ^^^ ((c >>> 8) <<< 8) = c := by
  apply UInt64.toNat_inj.mp
  have hlow : c.toNat &&& 255 = c.toNat % 2 ^ 8 := Nat.and_two_pow_sub_one_eq_mod _ 8
  have hlt := c.toNat_lt
  rw [UInt64.toNat_xor, UInt64.toNat_and, UInt64.toNat_shiftLeft, UInt64.toNat_shiftRight]
  show (c.toNat &&& 255) ^^^ (c.toNat >>> 8 <<< 8 % 2 ^ 64) = c.toNat
  rw [hlow]
  apply Nat.eq_of_testBit_eq
  intro i
  simp only [Nat.testBit_xor, Nat.testBit_mod_two_pow, Nat.testBit_shiftLeft, Nat.testBit_shiftRight]
  rcases Nat.lt_or_ge i 8 with hi | hi
  · simp [hi, show ¬ 8 ≤ i by omega]
  · rw [show 8 + (i - 8) = i by omega]
    rcases Nat.lt_or_ge i 64 with hi' | hi'
    · simp [hi, hi', show ¬ i < 8 by omega]
    · have hzero : c.toNat.testBit i = false :=
        Nat.testBit_lt_two_pow (Nat.lt_of_lt_of_le hlt (Nat.pow_le_pow_right (by decide) hi'))
      simp [hzero]

theorem toUInt64_low (data : UInt8) : data.toUInt64 >>> 8 = 0 := by
  apply UInt64.toNat_inj.mp
  rw [UInt64.toNat_shiftRight, UInt8.toNat_toUInt64]
  exact Nat.shiftRight_eq_zero _ _ data.toNat_lt

theorem and_low_lt (c : UInt64) : (c &&& (0xff : UInt64)).toNat < 256 := by
  rw [UInt64.toNat_and]
  exact Nat.lt_of_le_of_lt Nat.and_le_right (by decide)

/-- A step of the table is eight turns of the register. -/
theorem update_eq (crc : UInt64) (data : UInt8) : update crc data = shifts 8 (crc ^^^ data.toUInt64) := by
  have hhigh : (crc ^^^ data.toUInt64) >>> 8 = crc >>> 8 := by
    have h : (crc ^^^ data.toUInt64) >>> 8 = (crc >>> 8) ^^^ (data.toUInt64 >>> 8) := by
      apply UInt64.toNat_inj.mp
      simp only [UInt64.toNat_shiftRight, UInt64.toNat_xor, Nat.shiftRight_xor_distrib]
    rw [h, toUInt64_low, UInt64.xor_zero]
  have hrest : shifts 8 ((crc >>> 8) <<< 8) = crc >>> 8 := by
    apply UInt64.toNat_inj.mp
    have hto : ((crc >>> 8) <<< 8).toNat = 2 ^ 8 * (crc >>> 8).toNat := by
      have hlt : (crc >>> 8).toNat * 2 ^ 8 < 2 ^ 64 := by
        rw [UInt64.toNat_shiftRight]
        show crc.toNat >>> 8 * 2 ^ 8 < 2 ^ 64
        rw [Nat.shiftRight_eq_div_pow]
        exact Nat.lt_of_le_of_lt (Nat.div_mul_le_self _ _) crc.toNat_lt
      rw [UInt64.toNat_shiftLeft]
      show (crc >>> 8).toNat <<< 8 % 2 ^ 64 = _
      rw [Nat.shiftLeft_eq, Nat.mod_eq_of_lt hlt, Nat.mul_comm]
    rw [toNat_shifts ⟨_, hto⟩, hto, Nat.mul_div_cancel_left _ (by decide)]
  calc update crc data
    _ = shifts 8 ((crc ^^^ data.toUInt64) &&& 0xff) ^^^ (crc >>> 8) := by
        rw [update, crctable_getD (and_low_lt _), UInt64.ofNat_toNat]
    _ = shifts 8 ((crc ^^^ data.toUInt64) &&& 0xff) ^^^ shifts 8 (((crc ^^^ data.toUInt64) >>> 8) <<< 8) := by
        rw [hhigh, hrest]
    _ = shifts 8 (crc ^^^ data.toUInt64) := by rw [← shifts_xor, xor_low_high]

/-! ### Bit by bit -/

theorem shiftIn_xor (c d : UInt64) (b b' : Bool) :
    shiftIn (c ^^^ d) (b ^^ b') = shiftIn c b ^^^ shiftIn d b' := by
  unfold shiftIn
  rw [shift_xor]
  have hbit : (if (b ^^ b') = true then poly else 0) = (if b then poly else 0) ^^^ (if b' then poly else 0) := by
    cases b <;> cases b' <;> simp
  rw [hbit]
  ac_rfl

theorem foldl_shiftIn_xor (c : UInt64) (l : List Bool) :
    l.foldl shiftIn c = shifts l.length c ^^^ l.foldl shiftIn 0 := by
  have hgen : ∀ d : UInt64, l.foldl shiftIn (c ^^^ d) = shifts l.length c ^^^ l.foldl shiftIn d := by
    induction l generalizing c with
    | nil => intro d; rfl
    | cons b l ih =>
      intro d
      have hstep := shiftIn_xor c d false b
      rw [Bool.false_xor] at hstep
      have hzero : shiftIn c false = shift c := by simp [shiftIn]
      rw [List.foldl_cons, List.foldl_cons, hstep, hzero, ih, List.length_cons, shifts]
  simpa using hgen 0

theorem foldl_shiftIn_bits (b : UInt8) : (bits b).foldl shiftIn 0 = shifts 8 b.toUInt64 := by
  have hall : ∀ i, i < 256 →
      (bits (UInt8.ofNat i)).foldl shiftIn 0 = shifts 8 (UInt8.ofNat i).toUInt64 := by decide +kernel
  have h := hall b.toNat b.toNat_lt
  rwa [UInt8.ofNat_toNat] at h

theorem update_eq_foldl (crc : UInt64) (data : UInt8) : update crc data = (bits data).foldl shiftIn crc := by
  rw [update_eq, foldl_shiftIn_xor, foldl_shiftIn_bits, shifts_xor]
  rfl

theorem updateChecksum_eq (crc : UInt64) (data : Bytes) :
    updateChecksum crc data = (data.flatMap bits).foldl shiftIn crc := by
  induction data generalizing crc with
  | nil => rfl
  | cons b data ih =>
    rw [List.flatMap_cons, List.foldl_append, ← update_eq_foldl, ← ih]
    rfl

/-! ### The register as a polynomial -/

open Polynomial Lib.BitPolynomial

/-- The coefficients of a register, the highest power in the least significant bit. -/
def regBits (c : UInt64) : List Bool := (List.range 32).map c.toNat.testBit

noncomputable def ofReg (c : UInt64) : (ZMod 2)[X] := ofBits (regBits c)

/-- `x^32+x^26+x^23+x^22+x^16+x^12+x^11+x^10+x^8+x^7+x^5+x^4+x^2+x^1+x^0`. -/
noncomputable def generator : (ZMod 2)[X] :=
  X ^ 32 + (X ^ 26 + X ^ 23 + X ^ 22 + X ^ 16 + X ^ 12 + X ^ 11 + X ^ 10 + X ^ 8 + X ^ 7 + X ^ 5 + X ^ 4 + X ^ 2 + X + 1)

theorem regBits_poly : regBits poly =
    [false, false, false, false, false, true, false, false, true, true, false, false, false, false, false, true,
     false, false, false, true, true, true, false, true, true, false, true, true, false, true, true, true] := by
  decide +kernel

theorem ofReg_poly : X ^ 32 + ofReg poly = generator := by
  rw [generator, ofReg, regBits_poly]
  simp only [ofBits, ofBit_true, ofBit_false, List.length_cons, List.length_nil]
  ring

theorem ofReg_xor (c d : UInt64) : ofReg (c ^^^ d) = ofReg c + ofReg d := by
  have hbits : regBits (c ^^^ d) = List.zipWith xor (regBits c) (regBits d) := by
    rw [regBits, regBits, regBits, List.zipWith_map, List.zipWith_self, UInt64.toNat_xor]
    exact List.map_congr_left fun i _ => Nat.testBit_xor _ _ i
  rw [ofReg, hbits, ofBits_zipWith_xor (by simp [regBits])]
  rfl

theorem ofReg_ite (b : Bool) (c : UInt64) : ofReg (if b then c else 0) = ofBit b * ofReg c := by
  have hzero : ofReg 0 = 0 := by
    have h : ofReg (0 ^^^ 0) = ofReg 0 + ofReg 0 := ofReg_xor 0 0
    rwa [add_self, show (0 : UInt64) ^^^ 0 = 0 from rfl] at h
  cases b <;> simp [hzero]

/-- The bits that a turn keeps. -/
def kept (c : UInt64) : List Bool := (List.range 31).map fun i => c.toNat.testBit (i + 1)

theorem regBits_eq (c : UInt64) : regBits c = c.toNat.testBit 0 :: kept c := by
  rw [regBits, List.range_succ_eq_map, List.map_cons, List.map_map]
  rfl

theorem regBits_shiftRight {c : UInt64} (h : c.toNat < 2 ^ 32) : regBits (c >>> 1) = kept c ++ [false] := by
  have hbit : ∀ i, (c >>> 1).toNat.testBit i = c.toNat.testBit (i + 1) := by
    intro i
    rw [UInt64.toNat_shiftRight]
    show (c.toNat >>> 1).testBit i = _
    rw [Nat.testBit_shiftRight, Nat.add_comm]
  have hlast : c.toNat.testBit (31 + 1) = false := Nat.testBit_lt_two_pow h
  rw [regBits, List.range_succ, List.map_append, List.map_cons, List.map_nil, hbit, hlast, kept,
    List.map_congr_left fun i _ => hbit i]

theorem ofReg_shiftRight {c : UInt64} (h : c.toNat < 2 ^ 32) :
    ofReg (c >>> 1) = X * ofReg c + ofBit (c.toNat.testBit 0) * X ^ 32 := by
  have hlen : (kept c).length = 31 := by simp [kept]
  rw [ofReg, ofReg, regBits_shiftRight h, regBits_eq, ofBits_append]
  simp only [ofBits, ofBit_false, List.length_cons, List.length_nil, hlen]
  calc _ = ofBits (kept c) * X + (ofBit (c.toNat.testBit 0) * X ^ 32 + ofBit (c.toNat.testBit 0) * X ^ 32) := by
        rw [add_self]; ring
    _ = _ := by ring

/-- A turn multiplies by `x`, and takes the remainder. -/
theorem ofReg_shiftIn {c : UInt64} (h : c.toNat < 2 ^ 32) (b : Bool) :
    ofReg (shiftIn c b) =
      X * ofReg c + ofBit b * X ^ 32 + (ofBit (c.toNat.testBit 0) + ofBit b) * generator := by
  rw [shiftIn, shift_eq, ofReg_xor, ofReg_xor, ofReg_ite, ofReg_ite, ofReg_shiftRight h, ← ofReg_poly]
  calc _ = ofBit (c.toNat.testBit 0) * ofReg poly + (X * ofReg c + ofBit (c.toNat.testBit 0) * X ^ 32)
          + ofBit b * ofReg poly + (ofBit b * X ^ 32 + ofBit b * X ^ 32) := by rw [add_self, add_zero]
    _ = _ := by ring

theorem shiftIn_lt {c : UInt64} (h : c.toNat < 2 ^ 32) (b : Bool) : (shiftIn c b).toNat < 2 ^ 32 := by
  have hpoly : ∀ b : Bool, (if b then poly else 0).toNat < 2 ^ 32 := by decide +kernel
  have hhalf : (c >>> 1).toNat < 2 ^ 32 := by
    rw [UInt64.toNat_shiftRight]
    exact Nat.lt_of_le_of_lt (Nat.shiftRight_le _ _) h
  rw [shiftIn, shift_eq, UInt64.toNat_xor, UInt64.toNat_xor]
  exact Nat.xor_lt_two_pow (Nat.xor_lt_two_pow (hpoly _) hhalf) (hpoly _)

theorem foldl_shiftIn_lt {c : UInt64} (h : c.toNat < 2 ^ 32) (l : List Bool) : (l.foldl shiftIn c).toNat < 2 ^ 32 := by
  induction l generalizing c with
  | nil => exact h
  | cons b l ih => exact ih (shiftIn_lt h b)

/-- The register after a word. -/
theorem generator_dvd {c : UInt64} (h : c.toNat < 2 ^ 32) (l : List Bool) :
    generator ∣ ofReg (l.foldl shiftIn c) + (ofReg c * X ^ l.length + X ^ 32 * ofBits l) := by
  induction l generalizing c with
  | nil => simp [ofBits, add_self]
  | cons b l ih =>
    obtain ⟨q, hq⟩ := ih (shiftIn_lt h b)
    refine ⟨q + (ofBit (c.toNat.testBit 0) + ofBit b) * X ^ l.length, ?_⟩
    rw [ofReg_shiftIn h] at hq
    rw [List.foldl_cons, mul_add, ← hq, List.length_cons, ofBits, pow_succ]
    calc _ = ofReg (l.foldl shiftIn (shiftIn c b)) + (ofReg c * (X ^ l.length * X)
            + X ^ 32 * (ofBit b * X ^ l.length + ofBits l)) + ((ofBit (c.toNat.testBit 0) + ofBit b) * generator * X ^ l.length
            + (ofBit (c.toNat.testBit 0) + ofBit b) * generator * X ^ l.length) := by rw [add_self, add_zero]
      _ = _ := by ring

theorem degree_ofReg_lt (c : UInt64) : (ofReg c).degree < 32 := by
  have h := degree_ofBits_lt (regBits c)
  rwa [show (regBits c).length = 32 by simp [regBits]] at h

theorem degree_generator : generator.degree = 32 := by
  have hlt : (ofReg poly).degree < (X ^ 32 : (ZMod 2)[X]).degree := by
    rw [degree_X_pow]
    exact degree_ofReg_lt _
  rw [← ofReg_poly, degree_add_eq_left_of_degree_lt hlt, degree_X_pow]
  rfl

theorem monic_generator : generator.Monic := by
  rw [← ofReg_poly]
  exact monic_X_pow_add (degree_ofReg_lt _)

theorem generator_coeff_zero : generator.coeff 0 ≠ 0 := by
  rw [generator]
  simp [coeff_one]

/-! ### Checksums -/

theorem foldl_updateChecksum (crc : UInt64) (chunks : List Bytes) :
    chunks.foldl updateChecksum crc = updateChecksum crc chunks.flatten := by
  induction chunks generalizing crc with
  | nil => rfl
  | cons data chunks ih =>
    rw [List.foldl_cons, ih, List.flatten_cons]
    exact List.foldl_append.symm

theorem length_flatMap_bits (data : Bytes) : (data.flatMap bits).length = 8 * data.length := by
  induction data with
  | nil => rfl
  | cons b data ih =>
    rw [List.flatMap_cons, List.length_append, ih, List.length_cons, show (bits b).length = 8 by simp [bits]]
    ring

theorem init_lt : CRC32_INIT_VALUE.toNat < 2 ^ 32 := by decide

theorem ofReg_updateChecksum (data : Bytes) :
    ofReg (updateChecksum CRC32_INIT_VALUE data) =
      (ofReg CRC32_INIT_VALUE * X ^ (8 * data.length) + X ^ 32 * ofBits (data.flatMap bits)) %ₘ generator := by
  obtain ⟨q, hq⟩ := generator_dvd init_lt (data.flatMap bits)
  rw [length_flatMap_bits, ← updateChecksum_eq] at hq
  refine ((div_modByMonic_unique q _ monic_generator ⟨?_, ?_⟩).2).symm
  · rw [← hq]
    calc _ = (ofReg (updateChecksum CRC32_INIT_VALUE data) + ofReg (updateChecksum CRC32_INIT_VALUE data))
          + (ofReg CRC32_INIT_VALUE * X ^ (8 * data.length) + X ^ 32 * ofBits (data.flatMap bits)) := by ring
      _ = _ := by rw [add_self, zero_add]
  · rw [degree_generator]
    exact degree_ofReg_lt _

theorem ofReg_init : ofReg CRC32_INIT_VALUE = ofBits (List.replicate 32 true) := by
  rw [ofReg, show regBits CRC32_INIT_VALUE = List.replicate 32 true by decide +kernel]

/-- However a message is cut, its checksum is below `2^32`, and it is the remainder of the message, its first bits
    complemented, times `x^32`, complemented. -/
theorem checksum_eq_remainder (chunks : List Bytes) :
    (finishChecksum (chunks.foldl updateChecksum CRC32_INIT_VALUE)).toNat < 2 ^ 32 ∧
    ofReg (finishChecksum (chunks.foldl updateChecksum CRC32_INIT_VALUE)) =
      (ofBits (List.replicate 32 true) * X ^ (8 * chunks.flatten.length)
        + X ^ 32 * ofBits (chunks.flatten.flatMap bits)) %ₘ generator + ofBits (List.replicate 32 true) := by
  rw [foldl_updateChecksum]
  constructor
  · rw [finishChecksum, UInt64.toNat_xor, updateChecksum_eq]
    exact Nat.xor_lt_two_pow (foldl_shiftIn_lt init_lt _) init_lt
  · rw [finishChecksum, ofReg_xor, ofReg_updateChecksum, show CRC32_XOR_VALUE = CRC32_INIT_VALUE from rfl, ofReg_init]

theorem bits_inj {b b' : UInt8} (h : bits b = bits b') : b = b' := by
  apply UInt8.toNat_inj.mp
  apply Nat.eq_of_testBit_eq
  intro i
  rcases Nat.lt_or_ge i 8 with hi | hi
  · exact List.map_inj_left.mp h i (List.mem_range.mpr hi)
  · have hpow : 2 ^ 8 ≤ 2 ^ i := Nat.pow_le_pow_right (by decide) hi
    rw [Nat.testBit_lt_two_pow (Nat.lt_of_lt_of_le b.toNat_lt hpow),
      Nat.testBit_lt_two_pow (Nat.lt_of_lt_of_le b'.toNat_lt hpow)]

theorem flatMap_bits_inj {data data' : Bytes} (h : data.flatMap bits = data'.flatMap bits) : data = data' := by
  induction data generalizing data' with
  | nil =>
    have hlen := congrArg List.length h
    rw [length_flatMap_bits, length_flatMap_bits, List.length_nil] at hlen
    exact (List.eq_nil_of_length_eq_zero (by omega)).symm
  | cons b data ih =>
    cases data' with
    | nil =>
      have hlen := congrArg List.length h
      rw [length_flatMap_bits, length_flatMap_bits, List.length_cons, List.length_nil] at hlen
      omega
    | cons b' data' =>
      rw [List.flatMap_cons, List.flatMap_cons] at h
      obtain ⟨hb, hrest⟩ := List.append_inj h (by simp [bits])
      rw [bits_inj hb, ih hrest]

/-- Messages of one length whose bits differ only within 32 of them in a row have different checksums. -/
theorem blockChecksum_ne {data data' : Bytes} (hne : data ≠ data') {pre w w' post : List Bool}
    (hdata : data.flatMap bits = pre ++ w ++ post) (hdata' : data'.flatMap bits = pre ++ w' ++ post)
    (hlen : w.length = w'.length) (h32 : w.length ≤ 32) : blockChecksum data ≠ blockChecksum data' := by
  intro heq
  have hreg : updateChecksum CRC32_INIT_VALUE data = updateChecksum CRC32_INIT_VALUE data' := by
    have h := congrArg (· ^^^ CRC32_XOR_VALUE) heq
    simpa [blockChecksum, finishChecksum, UInt64.xor_assoc] using h
  have hlens : (data.flatMap bits).length = (data'.flatMap bits).length := by
    rw [hdata, hdata', List.length_append, List.length_append, List.length_append, List.length_append, hlen]
  have hdvd := (generator_dvd init_lt (data.flatMap bits)).add (generator_dvd init_lt (data'.flatMap bits))
  rw [← updateChecksum_eq, ← updateChecksum_eq, hreg, hlens] at hdvd
  have hsum : generator ∣ X ^ 32 * (ofBits (pre ++ w ++ post) + ofBits (pre ++ w' ++ post)) := by
    rw [← hdata, ← hdata', mul_add]
    refine Eq.mp (congrArg (generator ∣ ·) ?_) hdvd
    calc _ = X ^ 32 * ofBits (data.flatMap bits) + X ^ 32 * ofBits (data'.flatMap bits)
          + ((ofReg (updateChecksum CRC32_INIT_VALUE data') + ofReg CRC32_INIT_VALUE * X ^ (data'.flatMap bits).length)
          + (ofReg (updateChecksum CRC32_INIT_VALUE data')
            + ofReg CRC32_INIT_VALUE * X ^ (data'.flatMap bits).length)) := by ring
      _ = _ := by rw [add_self, add_zero]
  have hdeg : w.length ≤ generator.natDegree := by rwa [natDegree_eq_of_degree_eq_some degree_generator]
  have hw : w = w' := eq_of_dvd generator_coeff_zero hlen hdeg pre post hsum
  exact hne (flatMap_bits_inj (by rw [hdata, hdata', hw]))

theorem blockChecksum_ne_byte : blockChecksum [0x31, 0x32, 0x33] ≠ blockChecksum [0x31, 0x36, 0x33] :=
  @blockChecksum_ne _ _ (by decide) (bits 0x31) (bits 0x32) (bits 0x36) (bits 0x33) (by decide) (by decide) (by decide)
    (by decide)

end Zylib.Hashing.IdCRC32
