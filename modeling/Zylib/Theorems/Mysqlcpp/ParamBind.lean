import Mathlib.Data.List.Basic
import Zylib.Lib.Lists
import Zylib.Mysqlcpp.ParamBind

/-! Each bind describes the value that was last set for its index. A setter writes one bind and the vector of its index, and
    takes the pointer of the bind from that vector each time that it may have moved; of what it leaves in the bind from an
    earlier value, the new type has no use. -/

namespace Zylib.Mysqlcpp
open LittleEndian Run
open KNet.MessageDecoder (memcpyAt)

/-! ### Vectors -/

namespace ByteVector

/-- A vector without a block has room for nothing. -/
def Allocated (v : ByteVector) : Prop := v.addr = none → v.capacity = 0

theorem length_resize (v : ByteVector) (next n : Nat) : (v.resize next n).1.bytes.length = n := by
  have h : (KNet.MessageDecoder.resize v.bytes n).length = n := by
    rw [KNet.MessageDecoder.resize, List.length_append, List.length_take, List.length_replicate]
    omega
  unfold resize
  dsimp only
  split <;> exact h

/-- The block is the one that there was, or new. -/
theorem resize_cases (v : ByteVector) (next n : Nat) :
    ((v.resize next n).1.addr = v.addr ∧ (v.resize next n).2 = next) ∨
      ((v.resize next n).1.addr = some next ∧ (v.resize next n).2 = next + 1) := by
  unfold resize
  dsimp only
  split
  · exact .inl ⟨rfl, rfl⟩
  · exact .inr ⟨rfl, rfl⟩

theorem Allocated.resize {v : ByteVector} (h : v.Allocated) (next n : Nat) :
    (v.resize next n).1.Allocated ∧ (n ≠ 0 → (v.resize next n).1.addr ≠ none) := by
  unfold ByteVector.resize
  dsimp only
  split
  next hle => exact ⟨h, fun hn haddr => hn (Nat.le_zero.mp (h haddr ▸ hle))⟩
  next => exact ⟨nofun, nofun⟩

theorem ofBytes_cases (next : Nat) (bytes : Bytes) (spare : Nat) :
    (bytes.length + spare = 0 ∧ ofBytes next bytes spare = ({}, next)) ∨
      (bytes.length + spare ≠ 0 ∧
        ofBytes next bytes spare = ({ addr := some next, capacity := bytes.length + spare, bytes }, next + 1)) := by
  unfold ofBytes
  split
  next h => exact .inl ⟨h, rfl⟩
  next h => exact .inr ⟨h, rfl⟩

theorem bytes_memcpy {v : ByteVector} {src : Bytes} (h : v.bytes.length = src.length) : (v.memcpy src).bytes = src := by
  simp [memcpy, memcpyAt, ← h]

end ByteVector

namespace ParamBind

/-! ### What every history keeps -/

/-- Each vector has a block of its own, and each bind points into the vector of its index. -/
structure Inv (p : ParamBind) : Prop where
  bind : p.bind.length = p.paramCount
  bindBuffer : p.bindBuffer.length = p.paramCount
  owner : ∀ {i j : Nat} {v w : ByteVector} {a : Nat}, p.bindBuffer[i]? = some v → p.bindBuffer[j]? = some w →
    v.addr = some a → w.addr = some a → i = j
  old : ∀ v ∈ p.bindBuffer, ∀ a, v.addr = some a → a < p.next
  allocated : ∀ v ∈ p.bindBuffer, v.Allocated
  points : ∀ i, p.PointsInto i

/-- The bind and the vector of an index. -/
theorem Inv.at_index {p : ParamBind} (hI : Inv p) {i : Nat} (hi : i < p.paramCount) :
    p.bind[i]? = some (p.bind.getD i {}) ∧ p.bindBuffer[i]? = some (p.bindBuffer.getD i {}) := by
  rw [List.getD_eq_getElem?_getD, List.getD_eq_getElem?_getD, List.getElem?_eq_getElem (hI.bind ▸ hi),
    List.getElem?_eq_getElem (hI.bindBuffer ▸ hi)]
  exact ⟨rfl, rfl⟩

/-- A block is read as the vector that owns it. -/
theorem Inv.deref {p : ParamBind} (hI : Inv p) {i a : Nat} {v : ByteVector} (hv : p.bindBuffer[i]? = some v)
    (ha : v.addr = some a) : p.deref a = some v.bytes := by
  unfold ParamBind.deref
  cases hfind : p.bindBuffer.find? (fun v => v.addr == some a) with
  | none =>
    have hne := List.find?_eq_none.mp hfind v (List.mem_of_getElem? hv)
    simp [ha] at hne
  | some w =>
    obtain ⟨j, hw⟩ := List.mem_iff_getElem?.mp (List.mem_of_find?_eq_some hfind)
    have hwa : w.addr = some a := by simpa using List.find?_some hfind
    cases hI.owner hv hw ha hwa
    cases hv.symm.trans hw
    rfl

theorem inv_replicate {p : ParamBind} {n : Nat} (hcount : p.paramCount = n) (hbind : p.bind = List.replicate n {})
    (hbuffer : p.bindBuffer = List.replicate n {}) : Inv p := by
  have hempty : ∀ v ∈ p.bindBuffer, v = {} := fun v hv => List.eq_of_mem_replicate (hbuffer ▸ hv)
  refine ⟨?_, ?_, fun hv _ ha _ => ?_, fun v hv a ha => ?_, fun v hv _ => ?_, fun i param v hparam hv => ?_⟩
  · rw [hbind, List.length_replicate, hcount]
  · rw [hbuffer, List.length_replicate, hcount]
  · cases hempty _ (List.mem_of_getElem? hv)
    cases ha
  · cases hempty v hv
    cases ha
  · cases hempty v hv
    rfl
  · have hnew : param = {} := List.eq_of_mem_replicate (hbind ▸ List.mem_of_getElem? hparam)
    cases hnew
    cases hempty v (List.mem_of_getElem? hv)
    exact .inl rfl

/-! ### What a setter writes -/

/-- The bind and the vector of the index are replaced, and the new ones are good for the value. -/
structure Written (p q : ParamBind) (i : Nat) (value : Value) (param : MysqlBind) (v : ByteVector) : Prop where
  paramCount : q.paramCount = p.paramCount
  bind : q.bind = p.bind.set i param
  bindBuffer : q.bindBuffer = p.bindBuffer.set i v
  next : p.next ≤ q.next
  addr : ∀ a, v.addr = some a → (p.bindBuffer.getD i {}).addr = some a ∨ (p.next ≤ a ∧ a < q.next)
  allocated : v.Allocated
  points : param.buffer = v.data ∨ (param.buffer = none ∧ v.bytes = [])
  value : ∀ deref : Nat → Option Bytes, (∀ a, v.addr = some a → deref a = some v.bytes) → valueOf deref param = some value

section
variable {p q : ParamBind} {i : Nat} {value : Value} {param : MysqlBind} {v : ByteVector}

theorem Written.inv (h : Written p q i value param v) (hI : Inv p) (hi : i < p.paramCount) : Inv q := by
  obtain ⟨hbind, hold⟩ := hI.at_index hi
  -- A vector of another index does not own the block.
  have hother : ∀ {j : Nat} {w : ByteVector} {a : Nat}, i ≠ j → p.bindBuffer[j]? = some w → v.addr = some a →
      w.addr = some a → False := by
    intro j w a hij hw ha hwa
    rcases h.addr a ha with ha | ⟨hle, -⟩
    · exact hij (hI.owner hold hw ha hwa)
    · exact absurd (hI.old w (List.mem_of_getElem? hw) a hwa) (Nat.not_lt.mpr hle)
  refine ⟨?_, ?_, ?_, ?_, ?_, ?_⟩
  · rw [h.bind, List.length_set, hI.bind, h.paramCount]
  · rw [h.bindBuffer, List.length_set, hI.bindBuffer, h.paramCount]
  · intro j k w w' a hw hw' ha ha'
    rw [h.bindBuffer, Lists.getElem?_set_iff hold] at hw hw'
    rcases hw with ⟨rfl, rfl⟩ | ⟨hij, hw⟩ <;> rcases hw' with ⟨rfl, rfl⟩ | ⟨hik, hw'⟩
    · rfl
    · exact (hother hik hw' ha ha').elim
    · exact (hother hij hw ha' ha).elim
    · exact hI.owner hw hw' ha ha'
  · intro w hw a ha
    rw [h.bindBuffer] at hw
    rcases List.mem_or_eq_of_mem_set hw with hw | rfl
    · exact Nat.lt_of_lt_of_le (hI.old w hw a ha) h.next
    · rcases h.addr a ha with ha | ⟨-, hlt⟩
      · exact Nat.lt_of_lt_of_le (hI.old _ (List.mem_of_getElem? hold) a ha) h.next
      · exact hlt
  · intro w hw
    rw [h.bindBuffer] at hw
    rcases List.mem_or_eq_of_mem_set hw with hw | rfl
    · exact hI.allocated w hw
    · exact h.allocated
  · intro j param' w hparam hw
    rw [h.bindBuffer, Lists.getElem?_set_iff hold] at hw
    rw [h.bind, Lists.getElem?_set_iff hbind] at hparam
    rcases hw with ⟨rfl, rfl⟩ | ⟨hij, hw⟩
    · rcases hparam with ⟨-, rfl⟩ | ⟨hij, -⟩
      · exact h.points
      · exact absurd rfl hij
    · rcases hparam with ⟨hij', -⟩ | ⟨-, hparam⟩
      · exact absurd hij' hij
      · exact hI.points j param' w hparam hw

/-- Of the memory only the block that the pointer is to is read. -/
theorem valueOf_congr {d d' : Nat → Option Bytes} (h : ∀ a, param.buffer = some a → d a = d' a) :
    valueOf d param = valueOf d' param := by
  have hbind : param.buffer.bind d = param.buffer.bind d' := by
    cases hbuffer : param.buffer with
    | none => rfl
    | some a => exact h a hbuffer
  unfold valueOf read
  rw [hbind]

theorem Written.describes_eq (h : Written p q i value param v) (hI : Inv p) (hi : i < p.paramCount) :
    q.describes i = some value := by
  have hparam : q.bind[i]? = some param := by
    rw [h.bind, List.getElem?_set_self (hI.bind ▸ hi)]
  have hv : q.bindBuffer[i]? = some v := by
    rw [h.bindBuffer, List.getElem?_set_self (hI.bindBuffer ▸ hi)]
  rw [describes, hparam, Option.bind_some]
  exact h.value q.deref fun a ha => (h.inv hI hi).deref hv ha

theorem Written.describes_ne (h : Written p q i value param v) (hI : Inv p) (hi : i < p.paramCount) {j : Nat} (hij : i ≠ j) :
    q.describes j = p.describes j := by
  have hbind : q.bind[j]? = p.bind[j]? := by rw [h.bind, List.getElem?_set_ne hij]
  have hbuffer : q.bindBuffer[j]? = p.bindBuffer[j]? := by rw [h.bindBuffer, List.getElem?_set_ne hij]
  unfold describes
  rw [hbind]
  cases hparam : p.bind[j]? with
  | none => rfl
  | some other =>
    have hj : j < p.bindBuffer.length := by
      rw [hI.bindBuffer, ← hI.bind]
      exact (List.getElem?_eq_some_iff.mp hparam).1
    have hw : p.bindBuffer[j]? = some p.bindBuffer[j] := List.getElem?_eq_getElem hj
    refine valueOf_congr fun a ha => ?_
    rcases hI.points j other _ hparam hw with hpoint | ⟨hnull, -⟩
    · have haddr : p.bindBuffer[j].addr = some a := hpoint.symm.trans ha
      rw [(h.inv hI hi).deref (hbuffer.trans hw) haddr, hI.deref hw haddr]
    · cases hnull.symm.trans ha

/-! ### Setters -/

theorem checkValidIndex_eq (hi : i < p.paramCount) : ∃ warnings, p.checkValidIndex i = .ok { p with warnings } := by
  unfold checkValidIndex
  rw [if_pos hi]
  split
  · exact ⟨_, rfl⟩
  · exact ⟨p.warnings, rfl⟩

/-- The bytes of a vector, through a pointer to it. -/
theorem read_eq {deref : Nat → Option Bytes} {bytes : Bytes} (hbytes : v.bytes = bytes) (haddr : bytes.length ≠ 0 → v.addr ≠ none)
    (hderef : ∀ a, v.addr = some a → deref a = some v.bytes) : read deref v.addr bytes.length = some bytes := by
  unfold read
  split
  next h => rw [List.eq_nil_of_length_eq_zero h]
  next h =>
    obtain ⟨a, ha⟩ := Option.ne_none_iff_exists'.mp (haddr h)
    rw [ha, Option.bind_some, hderef a ha, hbytes]
    simp

/-- What the two functions for numbers write. -/
theorem written_number (hI : Inv p) (hi : i < p.paramCount) {src : Bytes} (valueSet : List Bool) (warnings : List Nat)
    (param : MysqlBind) (hbuffer : param.buffer = ((p.bindBuffer.getD i {}).resize p.next src.length).1.addr)
    (hvalue : ∀ deref, read deref param.buffer src.length = some src → valueOf deref param = some value) :
    Written p
      { p with
        valueSet, warnings
        next := ((p.bindBuffer.getD i {}).resize p.next src.length).2
        bindBuffer := p.bindBuffer.set i (((p.bindBuffer.getD i {}).resize p.next src.length).1.memcpy src)
        bind := p.bind.set i param }
      i value param (((p.bindBuffer.getD i {}).resize p.next src.length).1.memcpy src) := by
  have hmem : p.bindBuffer.getD i {} ∈ p.bindBuffer := List.mem_of_getElem? (hI.at_index hi).2
  obtain ⟨halloc, haddr⟩ := (hI.allocated _ hmem).resize p.next src.length
  have hbytes := ByteVector.bytes_memcpy (ByteVector.length_resize (p.bindBuffer.getD i {}) p.next src.length)
  have hcases := (p.bindBuffer.getD i {}).resize_cases p.next src.length
  refine ⟨rfl, rfl, rfl, ?_, fun a ha => ?_, halloc, .inl hbuffer, fun deref hderef => hvalue deref ?_⟩
  · rcases hcases with ⟨-, h⟩ | ⟨-, h⟩
    · exact Nat.le_of_eq h.symm
    · exact Nat.le_trans (Nat.le_succ p.next) (Nat.le_of_eq h.symm)
  · rcases hcases with ⟨h, -⟩ | ⟨h, hnext⟩
    · exact .inl (h.symm.trans ha)
    · cases h.symm.trans ha
      exact .inr ⟨Nat.le_refl _, Nat.lt_of_lt_of_le (Nat.lt_succ_self _) (Nat.le_of_eq hnext.symm)⟩
  · rw [hbuffer]
    exact read_eq (v := ByteVector.memcpy _ src) hbytes haddr hderef

theorem setWhole_written (hI : Inv p) (hi : i < p.paramCount) {type : FieldType} {src : Bytes} {isUnsigned : Bool}
    (hvalue : ∀ deref (param : MysqlBind), param.bufferType = type → param.isUnsigned = isUnsigned →
      read deref param.buffer src.length = some src → valueOf deref param = some value) :
    ∃ q param v, p.setWhole i type src isUnsigned = .ok q ∧ Written p q i value param v := by
  obtain ⟨warnings, hcheck⟩ := checkValidIndex_eq hi
  refine ⟨_, _, _, ?_, written_number hI hi (p.valueSet.set i true) warnings
    { p.bind.getD i {} with bufferType := type, buffer := _, isUnsigned } rfl fun deref => hvalue deref _ rfl rfl⟩
  rw [setWhole, hcheck]
  rfl

theorem setReal_written (hI : Inv p) (hi : i < p.paramCount) {type : FieldType} {src : Bytes}
    (hvalue : ∀ deref (param : MysqlBind), param.bufferType = type →
      read deref param.buffer src.length = some src → valueOf deref param = some value) :
    ∃ q param v, p.setReal i type src = .ok q ∧ Written p q i value param v := by
  obtain ⟨warnings, hcheck⟩ := checkValidIndex_eq hi
  refine ⟨_, _, _, ?_, written_number hI hi (p.valueSet.set i true) warnings
    { p.bind.getD i {} with bufferType := type, buffer := _ } rfl fun deref => hvalue deref _ rfl⟩
  rw [setReal, hcheck]
  rfl

/-- A vector that is moved in brings a block of its own, or none. -/
theorem written_moved (bytes : Bytes) (spare : Nat) (valueSet : List Bool) (warnings : List Nat)
    (param : MysqlBind)
    (hpoints : param.buffer = (ByteVector.ofBytes p.next bytes spare).1.addr ∨ (param.buffer = none ∧ bytes = []))
    (hvalue : ∀ deref, read deref param.buffer bytes.length = some bytes → valueOf deref param = some value) :
    Written p
      { p with
        valueSet, warnings
        next := (ByteVector.ofBytes p.next bytes spare).2
        bindBuffer := p.bindBuffer.set i (ByteVector.ofBytes p.next bytes spare).1
        bind := p.bind.set i param }
      i value param (ByteVector.ofBytes p.next bytes spare).1 := by
  have hnil : ∀ deref buffer, bytes.length = 0 → read deref buffer bytes.length = some bytes := by
    intro deref buffer h
    rw [read, if_pos h, List.eq_nil_of_length_eq_zero h]
  rcases ByteVector.ofBytes_cases p.next bytes spare with ⟨hzero, heq⟩ | ⟨-, heq⟩
  · rw [heq] at hpoints ⊢
    refine ⟨rfl, rfl, rfl, Nat.le_refl _, nofun, fun _ => rfl, ?_, fun deref _ => hvalue deref (hnil deref _ (by omega))⟩
    exact hpoints.imp id fun h => ⟨h.1, rfl⟩
  · rw [heq] at hpoints ⊢
    refine ⟨rfl, rfl, rfl, Nat.le_succ _, fun a ha => ?_, nofun, hpoints, fun deref hderef => hvalue deref ?_⟩
    · cases ha
      exact .inr ⟨Nat.le_refl _, Nat.lt_succ_self _⟩
    · rcases hpoints with hpoint | ⟨-, hempty⟩
      · rw [hpoint]
        exact read_eq (v := { addr := some p.next, capacity := bytes.length + spare, bytes }) rfl (fun _ => nofun) hderef
      · exact hnil deref _ (congrArg List.length hempty)

theorem setBinary_written (hi : i < p.paramCount) (bytes : Bytes) (spare : Nat) (isString : Bool) :
    ∃ q param v, p.setBinary i bytes spare isString = .ok q ∧
      Written p q i (.binary (if isString then .varString else .blob) bytes) param v := by
  obtain ⟨warnings, hcheck⟩ := checkValidIndex_eq hi
  have hbytes : (ByteVector.ofBytes p.next bytes spare).1.bytes = bytes := by
    rcases ByteVector.ofBytes_cases p.next bytes spare with ⟨hzero, heq⟩ | ⟨-, heq⟩
    · rw [heq, List.eq_nil_of_length_eq_zero (by omega : bytes.length = 0)]
    · rw [heq]
  refine ⟨_, _, _, ?_, written_moved bytes spare (p.valueSet.set i true) warnings
    { p.bind.getD i {} with
      buffer := if (ByteVector.ofBytes p.next bytes spare).1.bytes.isEmpty then none
        else (ByteVector.ofBytes p.next bytes spare).1.data
      bufferType := if isString then .varString else .blob
      bufferLength := bytes.length } ?_ fun deref hread => ?_⟩
  · rw [setBinary, hcheck]
    rfl
  · rw [hbytes]
    dsimp only
    split
    next h => exact .inr ⟨rfl, List.isEmpty_iff.mp h⟩
    next => exact .inl rfl
  · cases isString <;> exact congrArg (Option.map _) hread

theorem setNull_written (hI : Inv p) (hi : i < p.paramCount) :
    ∃ q param v, p.setNull i = .ok q ∧ Written p q i .null param v := by
  obtain ⟨warnings, hcheck⟩ := checkValidIndex_eq hi
  obtain ⟨hparam, hv⟩ := hI.at_index hi
  have hsame : p.bindBuffer = p.bindBuffer.set i (p.bindBuffer.getD i {}) := by
    obtain ⟨hlt, heq⟩ := List.getElem?_eq_some_iff.mp hv
    rw [← heq, List.set_getElem_self]
  refine ⟨_, { p.bind.getD i {} with bufferType := .null }, p.bindBuffer.getD i {}, by rw [setNull, hcheck]; rfl, ?_⟩
  refine ⟨rfl, rfl, hsame, Nat.le_refl _, fun a ha => .inl ha, ?_, ?_, fun _ _ => rfl⟩
  · exact hI.allocated _ (List.mem_of_getElem? hv)
  · have hpoints := hI.points i _ _ hparam hv
    exact hpoints

theorem setDateTime_written (hi : i < p.paramCount) (t : DateTime) :
    ∃ q param v, p.setDateTime i t = .ok q ∧ Written p q i (.fixed .datetime t.mysqlTime) param v := by
  obtain ⟨warnings, hcheck⟩ := checkValidIndex_eq hi
  refine ⟨_, _, _, ?_, written_moved t.mysqlTime 0 (p.valueSet.set i true) warnings
    { p.bind.getD i {} with buffer := _, bufferType := .datetime } (.inl rfl) fun deref hread => ?_⟩
  · rw [setDateTime, hcheck]
    rfl
  · rw [t.length_mysqlTime] at hread
    exact congrArg (Option.map _) hread

/-- Each call that sets a value succeeds, and writes what the value needs. -/
theorem step_written {c : Call} (hI : Inv p) (hc : c.sets = some (i, value)) (hi : i < p.paramCount) :
    ∃ q param v, step p c = .ok q ∧ Written p q i value param v := by
  have hwhole {type : FieldType} {src : Bytes} {isUnsigned : Bool} {k : Nat} (hlen : src.length = k)
      (hvalue : ∀ deref (param : MysqlBind), param.bufferType = type → valueOf deref param =
        (read deref param.buffer k).map (.whole type param.isUnsigned)) :
      ∃ q param v, p.setWhole i type src isUnsigned = .ok q ∧ Written p q i (.whole type isUnsigned src) param v := by
    refine setWhole_written hI hi fun deref param htype hunsigned hread => ?_
    rw [hvalue deref param htype, hunsigned, ← hlen, hread]
    rfl
  have hreal {type : FieldType} {src : Bytes} {k : Nat} (hlen : src.length = k)
      (hvalue : ∀ deref (param : MysqlBind), param.bufferType = type → valueOf deref param =
        (read deref param.buffer k).map (.fixed type)) :
      ∃ q param v, p.setReal i type src = .ok q ∧ Written p q i (.fixed type src) param v := by
    refine setReal_written hI hi fun deref param htype hread => ?_
    rw [hvalue deref param htype, ← hlen, hread]
    rfl
  have hstring (bytes : Bytes) : ∃ q param v, p.setString i bytes = .ok q ∧ Written p q i (.binary .varString bytes) param v := by
    unfold setString
    split
    next h =>
      rw [List.isEmpty_iff.mp h]
      exact setBinary_written hi [] 0 true
    next => exact setBinary_written hi bytes 0 true
  cases c with
  | setBool index b =>
    cases hc
    have hbool : toLE 1 (if b then (1 : UInt8) else 0).toNat = toLE 1 b.toNat := by cases b <;> rfl
    rw [step, setBool, setUInt8, hbool]
    exact hwhole rfl fun deref param h => by simp only [valueOf, h]; rfl
  | setUInt8 | setUInt16 | setUInt32 | setUInt64 | setInt8 | setInt16 | setInt32 | setInt64 =>
    cases hc
    exact hwhole rfl fun deref param h => by simp only [valueOf, h]; rfl
  | setFloat | setDouble =>
    cases hc
    exact hreal rfl fun deref param h => by simp only [valueOf, h]; rfl
  | setString index bytes =>
    cases hc
    exact hstring bytes
  | setCString index bytes =>
    cases hc
    obtain ⟨q, param, v, hq, hw⟩ := hstring (bytes.takeWhile (· ≠ 0))
    refine ⟨q, param, v, ?_, hw⟩
    rw [← hq]
    unfold step setCString setString
    simp only [List.isEmpty_iff_length_eq_zero]
  | setBinary index bytes spare isString =>
    cases hc
    exact setBinary_written hi bytes spare isString
  | setNull index =>
    cases hc
    exact setNull_written hI hi
  | setDateTime index t =>
    cases hc
    exact setDateTime_written hi t
  | clear => cases hc

end

/-! ### Histories -/

/-- The binds after a history. -/
structure Tells (n : Nat) (calls : List Call) (p : ParamBind) : Prop where
  inv : Inv p
  paramCount : p.paramCount = n
  describes : ∀ i < n, p.describes i = lastValue calls i

theorem describes_replicate {p : ParamBind} {n : Nat} (h : p.bind = List.replicate n {}) (i : Nat) : p.describes i = none := by
  unfold describes
  rw [h, List.getElem?_replicate]
  split <;> rfl

theorem tells_new (n : Nat) : Tells n [] (new n) where
  inv := inv_replicate rfl rfl rfl
  paramCount := rfl
  describes i _ := describes_replicate rfl i

/-- A call below the number of parameters. -/
def Call.Below (n : Nat) (c : Call) : Prop := ∀ i value, c.sets = some (i, value) → i < n

theorem tells_step {n : Nat} {calls : List Call} {p : ParamBind} {c : Call} (h : Tells n calls p) (hc : c.Below n) :
    ∃ q, step p c = .ok q ∧ Tells n (calls ++ [c]) q := by
  have hlast : ∀ i, lastValue (calls ++ [c]) i = c.effect i (lastValue calls i) := fun i => List.foldl_append
  cases hsets : c.sets with
  | none =>
    have hclear : c = .clear := by cases c <;> first | rfl | cases hsets
    cases hclear
    refine ⟨_, rfl, inv_replicate rfl rfl rfl, h.paramCount, fun i _ => ?_⟩
    rw [hlast]
    exact describes_replicate rfl i
  | some set =>
    obtain ⟨i, value⟩ := set
    have hi : i < p.paramCount := h.paramCount.symm ▸ hc i value hsets
    obtain ⟨q, param, v, hq, hwritten⟩ := step_written h.inv hsets hi
    refine ⟨q, hq, hwritten.inv h.inv hi, hwritten.paramCount.trans h.paramCount, fun j hj => ?_⟩
    rw [hlast, Call.effect, hsets]
    dsimp only
    split
    next hij =>
      cases hij
      exact hwritten.describes_eq h.inv hi
    next hij => exact (hwritten.describes_ne h.inv hi hij).trans (h.describes j hj)

theorem tells_run {n : Nat} : ∀ {calls past : List Call} {p : ParamBind}, Tells n past p → (∀ c ∈ calls, c.Below n) →
    ∃ q, run step p calls = .ok q ∧ Tells n (past ++ calls) q
  | [], past, p, h, _ => ⟨p, rfl, by rwa [List.append_nil]⟩
  | c :: calls, past, p, h, hcalls => by
    obtain ⟨hc, hcalls⟩ := List.forall_mem_cons.mp hcalls
    obtain ⟨q, hq, hq'⟩ := tells_step h hc
    obtain ⟨r, hr, hr'⟩ := tells_run hq' hcalls
    rw [run_cons hq, List.append_cons]
    exact ⟨r, hr, hr'⟩

/-- After any history of calls below the number of parameters, each bind describes the last value of its index and points
    into the vector of its index, and a further call changes what one index describes at most. -/
theorem last_write_wins (n : Nat) (calls : List Call) (h : ∀ c ∈ calls, c.Below n) :
    ∃ p, run step (new n) calls = .ok p ∧ (∀ i < n, p.describes i = lastValue calls i ∧ p.PointsInto i) ∧
      ∀ (c : Call) (i : Nat) (value : Value), c.sets = some (i, value) → i < n → ∃ q, step p c = .ok q ∧
        q.describes i = some value ∧ ∀ j, j ≠ i → q.describes j = p.describes j := by
  obtain ⟨p, hrun, htells⟩ := tells_run (tells_new n) h
  refine ⟨p, hrun, fun i hi => ⟨htells.describes i hi, htells.inv.points i⟩, fun c i value hsets hi => ?_⟩
  have hi' : i < p.paramCount := htells.paramCount.symm ▸ hi
  obtain ⟨q, param, v, hq, hwritten⟩ := step_written htells.inv hsets hi'
  exact ⟨q, hq, hwritten.describes_eq htells.inv hi', fun j hj => hwritten.describes_ne htells.inv hi' hj.symm⟩

theorem last_write_wins_setNull :
    ∃ p, run step (new 2) [.setString 0 [97, 98], .setInt32 1 7, .setNull 0] = .ok p ∧
      (∀ i < 2, p.describes i = lastValue [.setString 0 [97, 98], .setInt32 1 7, .setNull 0] i ∧ p.PointsInto i) ∧
      ∀ (c : Call) (i : Nat) (value : Value), c.sets = some (i, value) → i < 2 → ∃ q, step p c = .ok q ∧
        q.describes i = some value ∧ ∀ j, j ≠ i → q.describes j = p.describes j := by
  refine last_write_wins 2 _ fun c hc i value hsets => ?_
  simp only [List.mem_cons, List.not_mem_nil, or_false] at hc
  rcases hc with rfl | rfl | rfl <;> cases hsets <;> decide

end ParamBind

end Zylib.Mysqlcpp
