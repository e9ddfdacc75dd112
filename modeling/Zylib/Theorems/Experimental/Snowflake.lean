import Zylib.Experimental.Snowflake
import Mathlib.Tactic.Ring

/-! The ids of `Snowflake`: one generator returns each later one above the earlier ones, and two with different workers
    return no id both. -/

namespace Zylib

/-- Numbers that are put together from a higher and a lower part are in the order of the higher parts. -/
theorem mul_add_lt_of_lt {a b c d k : Nat} (h : a < c) (hb : b < k) : a * k + b < c * k + d :=
  calc
    a * k + b < a * k + k := by omega
    _ = (a + 1) * k := (Nat.succ_mul a k).symm
    _ ≤ c * k := Nat.mul_le_mul_right k h
    _ ≤ c * k + d := Nat.le_add_right _ _

/-- The parts of such a number can be read from it. -/
theorem mul_add_inj {a a' b b' k : Nat} (hb : b < k) (hb' : b' < k) (h : a * k + b = a' * k + b') : a = a' ∧ b = b' := by
  rcases Nat.lt_trichotomy a a' with hlt | rfl | hlt
  · exact absurd h (mul_add_lt_of_lt hlt hb).ne
  · exact ⟨rfl, Nat.add_left_cancel h⟩
  · exact absurd h.symm (mul_add_lt_of_lt hlt hb').ne

theorem mul_two_pow_or_of_lt {b n : Nat} (h : b < 2 ^ n) (a : Nat) : a * 2 ^ n ||| b = a * 2 ^ n + b := by
  rw [← Nat.shiftLeft_eq, Nat.shiftLeft_add_eq_or_of_lt h]

theorem toNat_one_shiftLeft {n : Nat} (h : n < 64) : ((1 : UInt64) <<< UInt64.ofNat n).toNat = 2 ^ n := by
  have hn : (UInt64.ofNat n).toNat = n := UInt64.toNat_ofNat_of_lt' (by unfold UInt64.size; omega)
  rw [UInt64.toNat_shiftLeft, hn, Nat.mod_eq_of_lt h, UInt64.toNat_one, Nat.shiftLeft_eq, Nat.one_mul]
  exact Nat.mod_eq_of_lt (Nat.pow_lt_pow_right (by decide) h)

/-- A shift that loses no bit. -/
theorem toNat_shiftLeft_of_lt {a b : UInt64} {n : Nat} (hb : b.toNat = n) (hn : n < 64) (h : a.toNat * 2 ^ n < 2 ^ 64) :
    (a <<< b).toNat = a.toNat * 2 ^ n := by
  rw [UInt64.toNat_shiftLeft, hb, Nat.mod_eq_of_lt hn, Nat.shiftLeft_eq, Nat.mod_eq_of_lt h]

namespace Snowflake

variable {tm w sq : Nat} {g g' : Snowflake tm w sq}

/-- The parts of an id fit. -/
structure Fits (g : Snowflake tm w sq) : Prop where
  workerId : g.workerId.toNat < 2 ^ w
  lastTimestamp : g.lastTimestamp.toNat < 2 ^ tm
  sequence : g.sequence.toNat < 2 ^ sq

/-- The id as a number. -/
def idNat (g : Snowflake tm w sq) : Nat := (g.lastTimestamp.toNat * 2 ^ w + g.workerId.toNat) * 2 ^ sq + g.sequence.toNat

/-- The time and the sequence number went up. -/
def Before (g g' : Snowflake tm w sq) : Prop :=
  g.lastTimestamp < g'.lastTimestamp ∨ g.lastTimestamp = g'.lastTimestamp ∧ g.sequence < g'.sequence

section
variable (hbits : tm + w + sq ≤ 63)
include hbits

theorem idNat_lt (h : g.Fits) : g.idNat < 2 ^ 63 :=
  calc
    g.idNat < 2 ^ tm * 2 ^ w * 2 ^ sq + 0 :=
      mul_add_lt_of_lt (mul_add_lt_of_lt (d := 0) h.lastTimestamp h.workerId) h.sequence
    _ = 2 ^ (tm + w + sq) := by rw [Nat.add_zero, ← pow_add, ← pow_add]
    _ ≤ 2 ^ 63 := Nat.pow_le_pow_right (by decide) hbits

theorem toNat_makeID (h : g.Fits) : g.makeID.toUInt64.toNat = g.idNat := by
  have hid := idNat_lt hbits h
  have hshift : (TM_SHIFT w sq).toNat = sq + w := by
    have hsq : (UInt64.ofNat sq).toNat = sq := UInt64.toNat_ofNat_of_lt' (by unfold UInt64.size; omega)
    have hw : (UInt64.ofNat w).toNat = w := UInt64.toNat_ofNat_of_lt' (by unfold UInt64.size; omega)
    rw [TM_SHIFT, UInt64.toNat_add, hsq, hw]
    omega
  have hsq : (WORKER_ID_SHIFT sq).toNat = sq := UInt64.toNat_ofNat_of_lt' (by unfold UInt64.size; omega)
  have hidNat : g.idNat = g.lastTimestamp.toNat * 2 ^ (sq + w) + (g.workerId.toNat * 2 ^ sq + g.sequence.toNat) := by
    unfold idNat
    ring
  have htime := toNat_shiftLeft_of_lt (a := g.lastTimestamp) hshift (by omega) (by omega)
  have hworker := toNat_shiftLeft_of_lt (a := g.workerId) hsq (by omega) (by omega)
  have hlow : g.workerId.toNat * 2 ^ sq + g.sequence.toNat < 2 ^ (sq + w) :=
    calc
      _ < 2 ^ w * 2 ^ sq + 0 := mul_add_lt_of_lt h.workerId h.sequence
      _ = 2 ^ (sq + w) := by ring
  unfold makeID
  simp only [UInt64.toUInt64_toInt64, UInt64.toNat_or]
  rw [htime, hworker, hidNat, Nat.or_assoc, mul_two_pow_or_of_lt h.sequence, mul_two_pow_or_of_lt hlow]

theorem toInt_makeID (h : g.Fits) : g.makeID.toInt = g.idNat := by
  have hid := idNat_lt hbits h
  have hnat := toNat_makeID hbits h
  have hvec : g.makeID.toUInt64.toBitVec.toNat = g.idNat := hnat
  calc
    g.makeID.toInt = g.makeID.toUInt64.toBitVec.toInt := rfl
    _ = g.makeID.toUInt64.toBitVec.toNat := BitVec.toInt_eq_toNat_of_lt (by omega)
    _ = g.idNat := by rw [hvec]

theorem workerId_of_makeID (h : g.Fits) (h' : g'.Fits) (heq : g.makeID = g'.makeID) : g.workerId = g'.workerId := by
  have hid : g.idNat = g'.idNat := by rw [← toNat_makeID hbits h, heq, toNat_makeID hbits h']
  have hhigh := (mul_add_inj h.sequence h'.sequence hid).1
  exact UInt64.toNat_inj.mp (mul_add_inj h.workerId h'.workerId hhigh).2

end

theorem idNat_lt_of_before (h : Before g g') (hworker : g'.workerId = g.workerId) (hg : g.Fits) : g.idNat < g'.idNat := by
  unfold idNat
  rw [hworker]
  rcases h with htime | ⟨htime, hsequence⟩
  · exact mul_add_lt_of_lt (mul_add_lt_of_lt (UInt64.lt_iff_toNat_lt.mp htime) hg.workerId) hg.sequence
  · have hsequence := UInt64.lt_iff_toNat_lt.mp hsequence
    rw [htime]
    omega

/-! ### The calls -/

variable {clock clock' : List Timeval} {id : Int64}

/-- The loop ends if and only if the clock shows a later time at last. -/
theorem waitNextMilliseconds_isSome_iff (t : UInt64) :
    (waitNextMilliseconds t clock).isSome ↔ ∃ tv ∈ clock, t < genTimestamp tv := by
  induction clock with
  | nil => simp [waitNextMilliseconds]
  | cons tv clock ih =>
    rw [waitNextMilliseconds]
    split
    · rename_i hle
      rw [ih, List.exists_mem_cons_iff]
      exact (or_iff_right (UInt64.not_lt.mpr hle)).symm
    · rename_i hle
      exact ⟨fun _ => ⟨tv, List.mem_cons_self, UInt64.not_le.mp hle⟩, fun _ => rfl⟩

theorem waitNextMilliseconds_spec {t t' : UInt64} (h : waitNextMilliseconds t clock = some (t', clock')) :
    t < t' ∧ (∃ tv ∈ clock, t' = genTimestamp tv) ∧ clock' ⊆ clock := by
  induction clock with
  | nil => cases h
  | cons tv clock ih =>
    rw [waitNextMilliseconds] at h
    split at h
    · obtain ⟨hlt, ⟨tv', htv', heq⟩, hsub⟩ := ih h
      exact ⟨hlt, ⟨tv', List.mem_cons_of_mem _ htv', heq⟩, List.subset_cons_of_subset _ hsub⟩
    · rename_i hle
      cases h
      exact ⟨UInt64.not_le.mp hle, ⟨tv, List.mem_cons_self, rfl⟩, List.subset_cons_self _ _⟩

/-- The next number of the sequence, which is 0 if the last one was the greatest. -/
theorem toNat_next_sequence (hsq : sq < 64) (q : UInt64) :
    ((q + 1) &&& SEQUENCE_MASK sq).toNat = (q.toNat + 1) % 2 ^ sq := by
  have hmask : (SEQUENCE_MASK sq).toNat = 2 ^ sq - 1 := by
    have hone : (1 : UInt64) ≤ MAX_SEQUENCE sq := by
      rw [UInt64.le_iff_toNat_le, MAX_SEQUENCE, toNat_one_shiftLeft hsq]
      exact Nat.one_le_two_pow
    rw [SEQUENCE_MASK, UInt64.toNat_sub_of_le _ _ hone, MAX_SEQUENCE, toNat_one_shiftLeft hsq, UInt64.toNat_one]
  have hdvd : 2 ^ sq ∣ 2 ^ 64 := Nat.pow_dvd_pow 2 hsq.le
  rw [UInt64.toNat_and, hmask, Nat.and_two_pow_sub_one_eq_mod, UInt64.toNat_add, UInt64.toNat_one, Nat.mod_mod_of_dvd _ hdvd]

/-- A call that finds the clock gone back changes nothing; each other one goes on in time or in the sequence and makes
    its id of that. -/
theorem nextID_spec (hsq : sq < 64) (hg : g.Fits) (hclock : ∀ tv ∈ clock, (genTimestamp tv).toNat < 2 ^ tm)
    (h : g.nextID clock = some (id, g', clock')) :
    (id = 0 ∧ g' = g ∨ id = g'.makeID ∧ Before g g') ∧ g'.Fits ∧ g'.workerId = g.workerId ∧ clock' ⊆ clock := by
  cases clock with
  | nil => cases h
  | cons tv clock =>
    have htv := hclock tv List.mem_cons_self
    have hpos : (0 : UInt64).toNat < 2 ^ sq := Nat.two_pow_pos sq
    rw [nextID] at h
    dsimp only at h
    split at h
    · cases h
      exact ⟨.inl ⟨rfl, rfl⟩, hg, rfl, List.subset_cons_self _ _⟩
    · rename_i hback
      split at h
      · rename_i hsame
        split at h
        · rename_i hzero
          obtain ⟨⟨t', c'⟩, hwait, hcall⟩ := Option.map_eq_some_iff.mp h
          cases hcall
          obtain ⟨hlt, ⟨tv', htv', rfl⟩, hsub⟩ := waitNextMilliseconds_spec hwait
          refine ⟨.inr ⟨rfl, .inl hlt⟩, ⟨hg.workerId, ?_, ?_⟩, rfl, List.subset_cons_of_subset _ hsub⟩
          · exact hclock tv' (List.mem_cons_of_mem _ htv')
          · exact hzero ▸ hpos
        · rename_i hzero
          cases h
          have hnext := toNat_next_sequence hsq g.sequence
          have hlt : g.sequence.toNat + 1 < 2 ^ sq := by
            refine lt_of_le_of_ne hg.sequence fun heq => hzero (UInt64.toNat_inj.mp ?_)
            rw [hnext, heq, Nat.mod_self]
            rfl
          rw [Nat.mod_eq_of_lt hlt] at hnext
          refine ⟨.inr ⟨rfl, .inr ⟨hsame, ?_⟩⟩, ⟨hg.workerId, htv, ?_⟩, rfl, List.subset_cons_self _ _⟩
          · exact UInt64.lt_iff_toNat_lt.mpr (hnext ▸ Nat.lt_succ_self _)
          · exact hnext ▸ hlt
      · rename_i hne
        cases h
        have hlt := UInt64.lt_of_le_of_ne (UInt64.not_lt.mp hback) hne
        exact ⟨.inr ⟨rfl, .inl hlt⟩, ⟨hg.workerId, htv, hpos⟩, rfl, List.subset_cons_self _ _⟩

/-- An id that a generator of the worker may make. -/
def MadeBy (tm w sq : Nat) (worker : UInt64) (id : Int64) : Prop :=
  ∃ g : Snowflake tm w sq, g.Fits ∧ g.workerId = worker ∧ id = g.makeID

theorem nextIDs_spec (hbits : tm + w + sq ≤ 63) (hg : g.Fits) (hclock : ∀ tv ∈ clock, (genTimestamp tv).toNat < 2 ^ tm)
    {n : Nat} {ids : List Int64} (h : g.nextIDs n clock = some ids) :
    (∀ id ∈ ids, id ≠ 0 → g.idNat < id.toInt ∧ MadeBy tm w sq g.workerId id) ∧ (ids.filter (· ≠ 0)).Pairwise (· < ·) := by
  induction n generalizing g clock ids with
  | zero =>
    cases h
    exact ⟨fun _ h => (List.not_mem_nil h).elim, .nil⟩
  | succ n ih =>
    rw [nextIDs] at h
    split at h
    · cases h
    · rename_i id g' clock' hcall
      obtain ⟨ids', hids', rfl⟩ := Option.map_eq_some_iff.mp h
      obtain ⟨hid, hg', hworker, hsub⟩ := nextID_spec (by omega) hg hclock hcall
      obtain ⟨hlater, hincreasing⟩ := ih hg' (fun tv htv => hclock tv (hsub htv)) hids'
      rcases hid with ⟨rfl, rfl⟩ | ⟨rfl, hbefore⟩
      · refine ⟨fun id hmem hne => ?_, hincreasing⟩
        rcases List.mem_cons.mp hmem with rfl | hmem
        · exact absurd rfl hne
        · exact hlater id hmem hne
      · have hlt := idNat_lt_of_before hbefore hworker hg
        have hint := toInt_makeID hbits hg'
        constructor
        · intro id hmem hne
          rcases List.mem_cons.mp hmem with rfl | hmem
          · exact ⟨by omega, g', hg', hworker, rfl⟩
          · obtain ⟨hid, hmade⟩ := hlater id hmem hne
            exact ⟨by omega, hworker ▸ hmade⟩
        · rw [List.filter_cons]
          split
          · refine .cons (fun id hmem => ?_) hincreasing
            obtain ⟨hmem, hne⟩ := List.mem_filter.mp hmem
            have hid := (hlater id hmem (of_decide_eq_true hne)).1
            exact Int64.lt_iff_toInt_lt.mpr (by omega)
          · exact hincreasing

theorem fits_ofWorker {worker : UInt32} (hw : w < 64) (h : worker.toUInt64 < MAX_WORKER_ID w) :
    (ofWorker worker : Snowflake tm w sq).Fits where
  workerId := by
    have h := UInt64.lt_iff_toNat_lt.mp h
    rwa [MAX_WORKER_ID, toNat_one_shiftLeft hw] at h
  lastTimestamp := Nat.two_pow_pos tm
  sequence := Nat.two_pow_pos sq

/-- The non-zero ids of a generator go up, and generators of different workers have none in common. -/
theorem nextIDs_unique (hbits : tm + w + sq ≤ 63) {worker worker' : UInt32} {n n' : Nat} {ids ids' : List Int64}
    (hworker : worker.toUInt64 < MAX_WORKER_ID w) (hworker' : worker'.toUInt64 < MAX_WORKER_ID w)
    (hclock : ∀ tv ∈ clock, (genTimestamp tv).toNat < 2 ^ tm) (hclock' : ∀ tv ∈ clock', (genTimestamp tv).toNat < 2 ^ tm)
    (h : (ofWorker worker : Snowflake tm w sq).nextIDs n clock = some ids)
    (h' : (ofWorker worker' : Snowflake tm w sq).nextIDs n' clock' = some ids') :
    (ids.filter (· ≠ 0)).Pairwise (· < ·) ∧ (worker ≠ worker' → ∀ id ∈ ids, id ≠ 0 → id ∉ ids') := by
  obtain ⟨hmade, hincreasing⟩ := nextIDs_spec hbits (fits_ofWorker (by omega) hworker) hclock h
  obtain ⟨hmade', -⟩ := nextIDs_spec hbits (fits_ofWorker (by omega) hworker') hclock' h'
  refine ⟨hincreasing, fun hne id hid hzero hid' => hne ?_⟩
  obtain ⟨-, g, hg, hgw, rfl⟩ := hmade id hid hzero
  obtain ⟨-, g', hg', hgw', heq⟩ := hmade' _ hid' hzero
  have hsame := workerId_of_makeID hbits hg hg' heq
  rw [hgw, hgw'] at hsame
  exact UInt32.toUInt64_inj.mp hsame

/-- Two generators with a sequence number of one bit: the third call of the first has to wait, its fourth finds the
    clock gone back. -/
theorem nextIDs_unique_wait :
    [2058242, 2058243, 2060290, 2062338].Pairwise (fun id id' : Int64 => id < id') ∧
      ((1 : UInt32) ≠ 2 → ∀ id ∈ [2058242, 2058243, 2060290, 0, 2062338], id ≠ 0 → id ∉ [(2058244 : Int64), 2060292]) := by
  have h : (ofWorker 1 : Snowflake 41 10 1).nextIDs 5
      [⟨1, 5000⟩, ⟨1, 5000⟩, ⟨1, 5999⟩, ⟨1, 4000⟩, ⟨1, 6000⟩, ⟨0, 7⟩, ⟨1, 7000⟩] =
      some [2058242, 2058243, 2060290, 0, 2062338] := rfl
  have h' : (ofWorker 2 : Snowflake 41 10 1).nextIDs 2 [⟨1, 5000⟩, ⟨1, 6000⟩] = some [2058244, 2060292] := rfl
  exact nextIDs_unique (by decide) (by decide) (by decide) (by decide) (by decide) h h'

end Snowflake

end Zylib
