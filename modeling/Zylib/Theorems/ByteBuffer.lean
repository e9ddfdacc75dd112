import Zylib.ByteQueue

/-! What each call does to a buffer whose storage ends at the write cursor (`Holds`). Every call but a
    `shrinkToFit` of a drained buffer keeps this shape and acts as the queue does (`agrees_exec`). -/

namespace Zylib.ByteBuffer

/-! ### Running member functions -/

section
variable {α β : Type}

@[simp] theorem pure_run (a : α) (b : ByteBuffer) : (pure a : M α) b = .ok a b := rfl

@[simp] theorem get_run (b : ByteBuffer) : (get : M ByteBuffer) b = .ok b b := rfl

@[simp] theorem set_run (b b' : ByteBuffer) : (set b' : M Unit) b = .ok () b' := rfl

@[simp] theorem throw_run (e : Exception) (b : ByteBuffer) : (throw e : M α) b = .error e b := rfl

@[simp] theorem bind_run (x : M α) (f : α → M β) (b : ByteBuffer) :
    (x >>= f) b = match x b with
      | .ok a b' => f a b'
      | .error e b' => .error e b' := by
  show EStateM.bind x f b = _
  unfold EStateM.bind
  cases x b <;> rfl

@[simp] theorem map_run (f : α → β) (x : M α) (b : ByteBuffer) :
    (f <$> x) b = match x b with
      | .ok a b' => .ok (f a) b'
      | .error e b' => .error e b' := by
  show EStateM.map f x b = _
  unfold EStateM.map
  cases x b <;> rfl

@[simp] theorem ite_run (c : Prop) [Decidable c] (x y : M α) (b : ByteBuffer) :
    (if c then x else y) b = if c then x b else y b := by
  split <;> rfl

end

variable {p : Platform} {drained : Bytes → Bytes} {b : ByteBuffer} {q : Bytes}

/-! ### Buffers that hold a queue -/

/-- The read cursor is not beyond the write cursor, the storage ends at the write cursor, and `q` is
    the bytes between the two. -/
structure Holds (b : ByteBuffer) (q : Bytes) : Prop where
  rpos_le : b.rpos ≤ b.wpos
  wpos_eq : b.wpos = b.storage.length
  rest : b.storage.drop b.rpos = q

theorem holds_empty : Holds {} [] := ⟨Nat.le_refl _, rfl, rfl⟩

namespace Holds

theorem size (h : Holds b q) : b.wpos - b.rpos = q.length := by
  rw [← h.rest, List.length_drop, h.wpos_eq]

theorem unread (h : Holds b q) : b.unread = q := by
  rw [ByteBuffer.unread, h.wpos_eq, List.take_length, h.rest]

theorem byteSize (h : Holds b q) : byteSize b = .ok q.length b := by
  rw [ByteBuffer.byteSize, if_neg (Nat.not_lt.mpr h.rpos_le), h.size]

theorem byteEmpty_iff (h : Holds b q) : b.byteEmpty = true ↔ q.length = 0 := by
  have := h.rpos_le
  have := h.wpos_eq
  rw [byteEmpty, beq_iff_eq, ← h.size]
  omega

theorem byteEmpty_nil (h : Holds b []) : b.byteEmpty = true := h.byteEmpty_iff.mpr rfl

theorem byteEmpty_of_ne_nil (h : Holds b q) (hq : q ≠ []) : b.byteEmpty = false := by
  rw [Bool.eq_false_iff, Ne, h.byteEmpty_iff]
  exact fun h0 => hq (List.length_eq_zero_iff.mp h0)

theorem skip (h : Holds b q) {n : Nat} (hn : n ≤ q.length) : Holds { b with rpos := b.rpos + n } (q.drop n) where
  rpos_le := by
    have := h.rpos_le
    have := h.size
    show b.rpos + n ≤ b.wpos
    omega
  wpos_eq := h.wpos_eq
  rest := by rw [← h.rest, List.drop_drop]

theorem readBytes (h : Holds b q) {n : Nat} (hn : n ≤ q.length) : ByteBuffer.readBytes n b = .ok (q.take n) b := by
  simp [ByteBuffer.readBytes, h.byteSize, Nat.not_lt.mpr hn, h.rest]

theorem readBytes_overflow (h : Holds b q) {n : Nat} (hn : q.length < n) :
    ByteBuffer.readBytes n b = .error (.overflow b.rpos n q.length) b := by
  simp [ByteBuffer.readBytes, h.byteSize, hn]

theorem readSkip (h : Holds b q) {n : Nat} (hn : n ≤ q.length) :
    ByteBuffer.readSkip n b = .ok () { b with rpos := b.rpos + n } := by
  simp [ByteBuffer.readSkip, h.byteSize, Nat.not_lt.mpr hn]

theorem readSkip_overflow (h : Holds b q) {n : Nat} (hn : q.length < n) :
    ByteBuffer.readSkip n b = .error (.overflow b.rpos n q.length) b := by
  simp [ByteBuffer.readSkip, h.byteSize, hn]

theorem append (h : Holds b q) (bytes : Bytes) :
    Holds { b with storage := b.storage ++ bytes, wpos := b.wpos + bytes.length } (q ++ bytes) where
  rpos_le := Nat.le_trans h.rpos_le (Nat.le_add_right ..)
  wpos_eq := by simp [h.wpos_eq]
  rest := by
    have := h.rpos_le
    rw [← h.rest, List.drop_append_of_le_length (by rw [← h.wpos_eq]; exact this)]

theorem append_run (h : Holds b q) (bytes : Bytes) (hfit : b.wpos + bytes.length ≤ vectorMaxSize) :
    ByteBuffer.append (some bytes) b =
      .ok () { b with storage := b.storage ++ bytes, wpos := b.wpos + bytes.length } := by
  by_cases hnil : bytes = []
  · subst hnil
    simp [ByteBuffer.append]
  · have hpos : 0 < bytes.length := List.length_pos_iff.mpr hnil
    rw [h.wpos_eq] at hfit
    simp [ByteBuffer.append, hnil, h.wpos_eq, hpos, Nat.not_lt.mpr hfit]

theorem append_lengthError (b : ByteBuffer) {bytes : Bytes} (hnil : bytes ≠ [])
    (hfit : vectorMaxSize < b.wpos + bytes.length) : ByteBuffer.append (some bytes) b = .error .lengthError b := by
  simp [ByteBuffer.append, hnil, hfit]

/-! ### Taking everything -/

theorem toEnd (h : Holds b q) : Holds { b with rpos := b.wpos } [] where
  rpos_le := Nat.le_refl _
  wpos_eq := h.wpos_eq
  rest := by rw [h.wpos_eq, List.drop_length]

theorem at_end (h : Holds b []) : { b with rpos := b.wpos } = b := by
  have hle := h.rpos_le
  have hsize : b.wpos - b.rpos = 0 := h.size
  have hend : b.wpos = b.rpos := by omega
  exact congrArg (fun n => { b with rpos := n }) hend

theorem takeStringLoop (h : Holds b q) {n : Nat} (hn : q.length < n) (val : Bytes) :
    ByteBuffer.takeStringLoop n val b = .ok (val ++ q) { b with rpos := b.wpos } := by
  induction n generalizing b q val with
  | zero => omega
  | succ n ih =>
    cases q with
    | nil =>
      rw [h.at_end]
      simp [ByteBuffer.takeStringLoop, h.byteEmpty_nil]
    | cons c q =>
      have hempty := h.byteEmpty_of_ne_nil (List.cons_ne_nil c q)
      have hone : 1 ≤ (c :: q).length := Nat.le_add_left ..
      have htail : Holds { b with rpos := b.rpos + 1 } q := h.skip hone
      simp only [ByteBuffer.takeStringLoop, bind_run, get_run, hempty, Bool.false_eq_true, if_false, h.readBytes hone,
        h.readSkip hone]
      rw [ih htail (Nat.lt_of_succ_lt_succ hn)]
      simp

theorem takeString (h : Holds b q) : ByteBuffer.takeString b = .ok q { b with rpos := b.wpos } := by
  simpa [ByteBuffer.takeString, h.size] using h.takeStringLoop (Nat.lt_succ_self _) []

theorem takeVector (h : Holds b q) : ByteBuffer.takeVector b = .ok q { b with rpos := b.wpos } := by
  have hsize := h.size
  have hle := h.rpos_le
  by_cases hnil : q = []
  · subst hnil
    rw [h.at_end]
    simp [ByteBuffer.takeVector, h.byteEmpty_nil]
  · have hempty := h.byteEmpty_of_ne_nil hnil
    have hend : b.rpos + q.length = b.wpos := by omega
    simp [ByteBuffer.takeVector, data, hempty, h.byteSize, h.rest, h.readSkip (Nat.le_refl q.length), hend]

theorem conforms (h : Holds b q) : Conforms b q where
  unread := h.unread
  byteSize := h.byteSize
  byteEmpty := h.byteEmpty_iff
  takeString := ⟨_, h.takeString⟩
  takeVector := ⟨_, h.takeVector⟩

end Holds

/-- A buffer whose queue begins where the storage begins. -/
structure Compact (b : ByteBuffer) (q : Bytes) : Prop where
  holds : Holds b q
  rpos : b.rpos = 0

namespace Compact

theorem empty : Compact {} [] := ⟨holds_empty, rfl⟩

theorem wpos (h : Compact b q) : b.wpos = q.length := by
  rw [← h.holds.size, h.rpos, Nat.sub_zero]

theorem append (h : Compact b q) (bytes : Bytes) :
    Compact { b with storage := b.storage ++ bytes, wpos := b.wpos + bytes.length } (q ++ bytes) :=
  ⟨h.holds.append bytes, h.rpos⟩

end Compact

/-! ### The calls -/

/-- The call gave what the queue operation is to give; it threw only where the queue operation is
    refused or the vector would exceed its maximal size, and then nothing happened to the queue. -/
def Agrees (r : EStateM.Result Exception ByteBuffer Bytes) (q : Bytes) (want : Option (Bytes × Bytes)) : Prop :=
  match r with
  | .ok out b' => ∃ q', want = some (out, q') ∧ Holds b' q'
  | .error e b' => (want = none ∨ e = .lengthError) ∧ Holds b' q

theorem agrees_append (h : Holds b q) (src : Option Bytes) :
    Agrees ((do ByteBuffer.append src; return [] : M Bytes) b) q (some ([], q ++ src.getD [])) := by
  cases src with
  | none => exact ⟨q, by simp, h⟩
  | some bytes =>
    by_cases hfit : b.wpos + bytes.length ≤ vectorMaxSize
    · rw [bind_run, h.append_run bytes hfit]
      exact ⟨_, rfl, h.append bytes⟩
    · by_cases hnil : bytes = []
      · subst hnil
        exact ⟨q, by simp, h⟩
      · rw [bind_run, Holds.append_lengthError b hnil (Nat.lt_of_not_le hfit)]
        exact ⟨Or.inr rfl, h⟩

theorem agrees_putString (h : Holds b q) (value : Bytes) :
    Agrees ((do putString value; return [] : M Bytes) b) q (some ([], q ++ value)) := by
  by_cases hnil : value = []
  · subst hnil
    exact ⟨q, by simp, h⟩
  · simpa [putString, hnil] using agrees_append h (some value)

theorem agrees_reserve (h : Holds b q) (s : Nat) :
    Agrees ((do reserve s; return [] : M Bytes) b) q (some ([], q)) := by
  by_cases hgrow : b.storage.length < s
  · by_cases hmax : vectorMaxSize < s
    · have hrun : reserve s b = .error .lengthError b := by simp [reserve, hgrow, hmax]
      rw [bind_run, hrun]
      exact ⟨Or.inr rfl, h⟩
    · have hrun : reserve s b = .ok () b := by simp [reserve, hmax]
      rw [bind_run, hrun]
      exact ⟨q, rfl, h⟩
  · have hrun : reserve s b = .ok () b := by simp [reserve, hgrow]
    rw [bind_run, hrun]
    exact ⟨q, rfl, h⟩

theorem agrees_readBytes (h : Holds b q) (n : Nat) :
    Agrees (readBytes n b) q ((front n q).map fun v => (v, q)) := by
  by_cases hn : n ≤ q.length
  · rw [h.readBytes hn, front, if_pos hn]
    exact ⟨q, rfl, h⟩
  · rw [h.readBytes_overflow (Nat.lt_of_not_le hn), front, if_neg hn]
    exact ⟨Or.inl rfl, h⟩

theorem agrees_readSkip (h : Holds b q) (n : Nat) :
    Agrees ((do readSkip n; return [] : M Bytes) b) q ((front n q).map fun _ => ([], q.drop n)) := by
  by_cases hn : n ≤ q.length
  · rw [bind_run, h.readSkip hn, front, if_pos hn]
    exact ⟨_, rfl, h.skip hn⟩
  · rw [bind_run, h.readSkip_overflow (Nat.lt_of_not_le hn), front, if_neg hn]
    exact ⟨Or.inl rfl, h⟩

theorem read_run (h : Holds b q) (t : Arithmetic) :
    (∃ v, (front (t.sizeof p) q).bind (t.value p) = some v ∧ t.sizeof p ≤ q.length ∧ read p t b = .ok v b) ∨
      ((front (t.sizeof p) q).bind (t.value p) = none ∧ ∃ e, read p t b = .error e b) := by
  by_cases hn : t.sizeof p ≤ q.length
  · have hfront : front (t.sizeof p) q = some (q.take (t.sizeof p)) := if_pos hn
    rw [hfront, Option.bind_some]
    cases t with
    | integral size => exact Or.inl ⟨_, rfl, hn, h.readBytes hn⟩
    | bool => exact Or.inl ⟨_, rfl, hn, by
      have hone : readBytes 1 b = .ok (q.take 1) b := h.readBytes hn
      simp only [read, bind_run, hone, pure_run]
      rfl⟩
    | floating t =>
      by_cases hfin : p.isfinite t (q.take ((Arithmetic.floating t).sizeof p))
      · exact Or.inl ⟨_, if_pos hfin, hn, by simp [read, h.readBytes hn, hfin]⟩
      · exact Or.inr ⟨if_neg hfin, _, by simp [read, h.readBytes hn, hfin]; rfl⟩
  · have hfront : front (t.sizeof p) q = none := if_neg hn
    have hover := h.readBytes_overflow (Nat.lt_of_not_le hn)
    rw [hfront, Option.bind_none]
    refine Or.inr ⟨rfl, .overflow b.rpos (t.sizeof p) q.length, ?_⟩
    cases t with
    | integral size => exact hover
    | bool =>
      simp only [Arithmetic.sizeof] at hover ⊢
      simp [read, hover]
    | floating t => simp [read, hover]

theorem agrees_read (h : Holds b q) (t : Arithmetic) :
    Agrees (read p t b) q (((front (t.sizeof p) q).bind (t.value p)).map fun v => (v, q)) := by
  rcases read_run (p := p) h t with ⟨v, hv, -, hread⟩ | ⟨hv, e, hread⟩
  · rw [hread, hv]
    exact ⟨q, rfl, h⟩
  · rw [hread, hv]
    exact ⟨Or.inl rfl, h⟩

theorem agrees_take (h : Holds b q) (t : Arithmetic) :
    Agrees (take p t b) q (((front (t.sizeof p) q).bind (t.value p)).map fun v => (v, q.drop (t.sizeof p))) := by
  rcases read_run (p := p) h t with ⟨v, hv, hn, hread⟩ | ⟨hv, e, hread⟩
  · have htake : take p t b = .ok v { b with rpos := b.rpos + t.sizeof p } := by simp [take, hread, h.readSkip hn]
    rw [htake, hv]
    exact ⟨_, rfl, h.skip hn⟩
  · have htake : take p t b = .error e b := by simp [take, hread]
    rw [htake, hv]
    exact ⟨Or.inl rfl, h⟩

/-- A buffer that is not drained is compacted; so is a drained one that `drained` empties. -/
theorem shrinkToFitWith_run (h : Holds b q) (hs : b.rpos ≠ 0 → b.rpos = b.wpos → drained b.storage = []) :
    ∃ b', shrinkToFitWith drained b = .ok () b' ∧ Holds b' q ∧ b'.rpos = 0 := by
  by_cases hzero : b.rpos = 0
  · exact ⟨b, by simp [shrinkToFitWith, hzero], h, hzero⟩
  · by_cases hnil : q = []
    · subst hnil
      have hend : b.rpos = b.wpos := congrArg ByteBuffer.rpos h.at_end.symm
      refine ⟨{ storage := drained b.storage }, by simp [shrinkToFitWith, hzero, h.byteSize], ?_⟩
      rw [hs hzero hend]
      exact ⟨holds_empty, rfl⟩
    · have hlen : q.length = b.storage.length - b.rpos := by rw [← h.wpos_eq, h.size]
      have hmove : (memmoveFront b.storage b.rpos q.length).take q.length = q := by
        rw [hlen, take_memmoveFront, h.rest]
      refine ⟨{ rpos := 0, wpos := q.length, storage := q }, ?_, ⟨Nat.zero_le _, rfl, rfl⟩, rfl⟩
      simp [shrinkToFitWith, hzero, h.byteSize, hnil, hmove]

/-- Every call acts on the queue that the buffer holds as it is to act on a queue, but for a
    `shrinkToFit` that leaves bytes in the storage of a drained buffer. -/
theorem agrees_exec (h : Holds b q) (op : Op)
    (hs : op = .shrinkToFit → b.rpos ≠ 0 → b.rpos = b.wpos → drained b.storage = []) :
    Agrees (op.exec p drained b) q (op.onQueue p q) := by
  cases op with
  | append src => exact agrees_append h src
  | put value => exact agrees_append h (some value)
  | putBool value => exact agrees_append h (some [if value then 1 else 0])
  | putString value => exact agrees_putString h value
  | putCString str =>
    have hstr : ByteBuffer.putCString str = ByteBuffer.putString ((str.getD []).takeWhile (· ≠ 0)) := by
      cases str <;> rfl
    rw [Op.exec, hstr]
    exact agrees_putString h _
  | readBytes len => exact agrees_readBytes h len
  | read t => exact agrees_read h t
  | readSkip skip => exact agrees_readSkip h skip
  | take t => exact agrees_take h t
  | takeString =>
    rw [Op.exec, h.takeString]
    exact ⟨[], rfl, h.toEnd⟩
  | takeVector =>
    rw [Op.exec, h.takeVector]
    exact ⟨[], rfl, h.toEnd⟩
  | shrinkToFit =>
    obtain ⟨b', hrun, h', -⟩ := shrinkToFitWith_run h (hs rfl)
    simp only [Op.exec, bind_run, hrun]
    exact ⟨q, rfl, h'⟩
  | reserve s => exact agrees_reserve h s
  | clear => exact ⟨[], rfl, holds_empty⟩

end Zylib.ByteBuffer
