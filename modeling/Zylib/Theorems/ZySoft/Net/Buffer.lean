import Zylib.ZySoft.Net.Buffer
import Zylib.Lib.Run

/-! `Buffer` as a queue of bytes. The readable bytes lie between the two cursors, behind the bytes that are kept
    free at the front; only a construction whose size wraps around makes a buffer without them. -/

namespace Zylib.ZySoft.Net
open Run

/-! ### Sizes that do not wrap around -/

theorem toSizeT_sub {a b : Nat} (hle : a ≤ b) (hb : b < 2 ^ 64) : toSizeT (b - a) = b - a := by
  rw [toSizeT_of_nonneg (by omega) (by omega)]
  omega

theorem uint64_of_lt {n : Nat} (h : n < 2 ^ 64) : uint64 n = n := Nat.mod_eq_of_lt h

theorem vectorMaxSize_lt : 2 * vectorMaxSize + 1 < 2 ^ 64 := by
  decide

namespace Buffer

variable {b : Buffer} {q : Bytes}

/-! ### Buffers that hold a queue -/

/-- The cursors are in order, and `q` is the bytes between them. -/
structure Holds (b : Buffer) (q : Bytes) : Prop where
  prepend_le : prependBytes ≤ b.readPos
  read_le : b.readPos ≤ b.writePos
  write_le : b.writePos ≤ b.buffer.length
  max : b.buffer.length ≤ vectorMaxSize
  rest : (b.buffer.drop b.readPos).take (b.writePos - b.readPos) = q

/-- A vector of bytes before the queue, the queue, and bytes after it. -/
theorem holds_of_eq {v : Bytes} (pre post : Bytes) {r w : Nat} (hv : v = pre ++ (q ++ post)) (hr : pre.length = r)
    (hw : r + q.length = w) (hprepend : prependBytes ≤ r) (hmax : v.length ≤ vectorMaxSize) : Holds ⟨v, r, w⟩ q := by
  subst hv hr hw
  refine ⟨hprepend, Nat.le_add_right .., ?_, hmax, ?_⟩
  · simp only [List.length_append]
    omega
  · simp only [List.drop_left, Nat.add_sub_cancel_left, List.take_left]

namespace Holds

theorem length (h : Holds b q) : q.length = b.writePos - b.readPos := by
  have := h.write_le
  rw [← h.rest, List.length_take, List.length_drop]
  omega

/-- The numbers that the sizes are computed from. -/
theorem bounds (h : Holds b q) : q.length = b.writePos - b.readPos ∧ prependBytes ≤ b.readPos ∧ b.readPos ≤ b.writePos ∧
    b.writePos ≤ b.buffer.length ∧ b.buffer.length ≤ vectorMaxSize ∧ 2 * vectorMaxSize + 1 < 2 ^ 64 :=
  ⟨h.length, h.prepend_le, h.read_le, h.write_le, h.max, vectorMaxSize_lt⟩

theorem split (h : Holds b q) : b.buffer = b.buffer.take b.readPos ++ (q ++ b.buffer.drop b.writePos) := by
  have hdrop : b.buffer.drop b.writePos = (b.buffer.drop b.readPos).drop (b.writePos - b.readPos) := by
    rw [List.drop_drop, Nat.add_sub_cancel' h.read_le]
  rw [hdrop, ← h.rest, List.take_append_drop, List.take_append_drop]

theorem length_take_read (h : Holds b q) : (b.buffer.take b.readPos).length = b.readPos :=
  List.length_take_of_le (Nat.le_trans h.read_le h.write_le)

theorem readableBytes (h : Holds b q) : b.readableBytes = q.length := by
  have := h.write_le
  have := h.max
  have := vectorMaxSize_lt
  rw [h.length]
  exact toSizeT_sub h.read_le (by omega)

theorem readable (h : Holds b q) : b.readable = q := by
  rw [Buffer.readable, h.readableBytes, h.length, h.rest]

theorem writableBytes (h : Holds b q) : b.writableBytes = b.buffer.length - b.writePos := by
  have := h.max
  have := vectorMaxSize_lt
  exact toSizeT_sub h.write_le (by omega)

theorem clear (h : Holds b q) : Holds b.clear [] where
  prepend_le := Nat.le_refl _
  read_le := Nat.le_refl _
  write_le := Nat.le_trans h.prepend_le (Nat.le_trans h.read_le h.write_le)
  max := h.max
  rest := by simp [Buffer.clear]

theorem consume (h : Holds b q) {len : Nat} (hlen : len ≤ q.length) :
    ∃ b', b.consume len = .ok b' ∧ Holds b' (q.drop len) := by
  obtain ⟨hq, -, -, hwrite, hmax, hlt⟩ := h.bounds
  unfold Buffer.consume
  rw [h.readableBytes, if_pos hlen]
  split
  · rename_i hless
    rw [uint64_of_lt (by omega)]
    refine ⟨_, rfl, Nat.le_trans h.prepend_le (Nat.le_add_right ..), ?_, hwrite, hmax, ?_⟩
    · show b.readPos + len ≤ b.writePos
      omega
    · rw [← h.rest, List.drop_take, List.drop_drop, Nat.sub_sub]
  · rename_i hless
    have hall : q.drop len = [] := List.drop_eq_nil_of_le (Nat.le_of_not_lt hless)
    rw [hall]
    exact ⟨_, rfl, h.clear⟩

/-- Sliding keeps the size of the vector and leaves the bytes right behind those kept free. -/
theorem slide (h : Holds b q) :
    ∃ v, b.slide = .ok ⟨v, prependBytes, prependBytes + q.length⟩ ∧
      Holds ⟨v, prependBytes, prependBytes + q.length⟩ q ∧ v.length = b.buffer.length := by
  obtain ⟨hq, hprepend, hread, hwrite, hmax, hlt⟩ := h.bounds
  have hrange : range b.buffer b.readPos b.writePos = .ok q := by rw [range, if_pos ⟨hread, hwrite⟩, h.rest]
  have hfit : prependBytes + q.length ≤ b.buffer.length := by omega
  have hpos : uint64 (prependBytes + q.length) = prependBytes + q.length := uint64_of_lt (by omega)
  let v := b.buffer.take prependBytes ++ q ++ b.buffer.drop (prependBytes + q.length)
  have hcopy : copy b.buffer q prependBytes = .ok v := if_pos hfit
  have hlen : v.length = b.buffer.length := by
    simp only [v, List.length_append, List.length_take, List.length_drop]
    omega
  refine ⟨v, ?_, holds_of_eq _ _ (List.append_assoc ..) ?_ rfl (Nat.le_refl _) (by omega), hlen⟩
  · simp only [Buffer.slide, hrange, h.readableBytes, hpos, bind, Except.bind, hcopy]
    rfl
  · exact List.length_take_of_le (by omega)

/-- `MakeSpace` leaves room for `len` bytes and does not touch the readable ones. -/
theorem makeSpace (h : Holds b q) {len : Nat} (hlen : len ≤ vectorMaxSize) :
    b.makeSpace len = .error .lengthError ∨ ∃ b', b.makeSpace len = .ok b' ∧ Holds b' q ∧ len ≤ b'.writableBytes := by
  obtain ⟨hq, hprepend, hread, hwrite, hmax, hlt⟩ := h.bounds
  have hspace : uint64 (toSizeT (b.readPos - prependBytes) + b.writableBytes) =
      b.readPos - prependBytes + (b.buffer.length - b.writePos) := by
    rw [h.writableBytes, toSizeT_sub hprepend (by omega), uint64_of_lt (by omega)]
  have hsum : uint64 (b.writePos + len) = b.writePos + len := uint64_of_lt (by omega)
  unfold Buffer.makeSpace
  rw [hspace]
  split
  · rename_i hless
    by_cases hbig : b.writePos + len > vectorMaxSize
    · left
      simp only [resize, hsum, if_pos hbig]
      rfl
    · right
      let v := b.buffer ++ List.replicate (b.writePos + len - b.buffer.length) 0
      have hgrow : resize b.buffer (uint64 (b.writePos + len)) = .ok v := by
        rw [hsum, resize, if_neg hbig, List.take_of_length_le (by omega)]
      have hsize : v.length = b.writePos + len := by
        simp only [v, List.length_append, List.length_replicate]
        omega
      have hholds : Holds ⟨v, b.readPos, b.writePos⟩ q := by
        have hv : v = b.buffer.take b.readPos ++
            (q ++ (b.buffer.drop b.writePos ++ List.replicate (b.writePos + len - b.buffer.length) 0)) := by
          rw [← List.append_assoc q, ← List.append_assoc, ← h.split]
        exact holds_of_eq _ _ hv h.length_take_read (by omega) hprepend (by omega)
      rw [hgrow]
      refine ⟨_, rfl, hholds, ?_⟩
      rw [hholds.writableBytes]
      show len ≤ v.length - b.writePos
      omega
  · right
    obtain ⟨v, hslide, h', hsize⟩ := h.slide
    refine ⟨_, hslide, h', ?_⟩
    rw [h'.writableBytes]
    show len ≤ v.length - (prependBytes + q.length)
    omega

theorem prepareWritableBytes (h : Holds b q) {len : Nat} (hlen : len ≤ vectorMaxSize) :
    b.prepareWritableBytes len = .error .lengthError ∨
      ∃ b', b.prepareWritableBytes len = .ok b' ∧ Holds b' q ∧ len ≤ b'.writableBytes := by
  unfold Buffer.prepareWritableBytes
  by_cases hless : b.writableBytes < len
  · rw [if_pos hless]
    rcases h.makeSpace hlen with herror | ⟨b', hok, h', hspace⟩
    · left
      rw [herror]
      rfl
    · right
      rw [hok]
      exact ⟨b', if_pos hspace, h', hspace⟩
  · right
    rw [if_neg hless]
    exact ⟨b, if_pos (Nat.le_of_not_lt hless), h, Nat.le_of_not_lt hless⟩

theorem append (h : Holds b q) (data : Option Region) :
    b.append (data.map Subtype.val) = .error .lengthError ∨
      ∃ b', b.append (data.map Subtype.val) = .ok b' ∧ Holds b' (q ++ (data.map Subtype.val).getD []) := by
  cases data with
  | none => exact Or.inr ⟨b, rfl, by simpa using h⟩
  | some region =>
    obtain ⟨bytes, hbytes⟩ := region
    unfold Buffer.append
    simp only [Option.map_some, Option.getD_some]
    by_cases hnil : bytes.length = 0
    · right
      rw [if_pos hnil, List.length_eq_zero_iff.mp hnil, List.append_nil]
      exact ⟨b, rfl, h⟩
    · rw [if_neg hnil]
      rcases h.prepareWritableBytes hbytes with herror | ⟨b', hok, h', hspace⟩
      · left
        rw [herror]
        rfl
      · right
        have hq := h'.length
        have hread := h'.read_le
        have hwrite := h'.write_le
        have hmax := h'.max
        have hlt := vectorMaxSize_lt
        rw [h'.writableBytes] at hspace
        have hfit : b'.writePos + bytes.length ≤ b'.buffer.length := by omega
        have hpos : uint64 (b'.writePos + bytes.length) = b'.writePos + bytes.length := uint64_of_lt (by omega)
        let v := b'.buffer.take b'.writePos ++ bytes ++ b'.buffer.drop (b'.writePos + bytes.length)
        have hcopy : copy b'.buffer bytes b'.writePos = .ok v := if_pos hfit
        have hv : v = b'.buffer.take b'.readPos ++ ((q ++ bytes) ++ b'.buffer.drop (b'.writePos + bytes.length)) := by
          have htake : b'.buffer.take b'.writePos = b'.buffer.take b'.readPos ++ q := by
            nth_rewrite 1 [h'.split]
            rw [← List.append_assoc]
            exact List.take_left' (by rw [List.length_append, h'.length_take_read]; omega)
          simp only [v, htake, List.append_assoc]
        have hlen : v.length = b'.buffer.length := by
          simp only [v, List.length_append, List.length_take, List.length_drop]
          omega
        simp only [hok, bind, Except.bind, hcopy, hpos]
        refine ⟨_, rfl, holds_of_eq _ _ hv h'.length_take_read ?_ h'.prepend_le (by omega)⟩
        rw [List.length_append]
        omega

theorem shrink (h : Holds b q) : ∃ b', b.shrink = .ok b' ∧ Holds b' q := by
  obtain ⟨v, hslide, h', hsize⟩ := h.slide
  have hwrite : prependBytes + q.length ≤ v.length := h'.write_le
  have hmax : v.length ≤ vectorMaxSize := h'.max
  have hresize : resize v (prependBytes + q.length) = .ok (v.take (prependBytes + q.length)) := by
    rw [resize, if_neg (by omega), Nat.sub_eq_zero_of_le hwrite, List.replicate_zero, List.append_nil]
  refine ⟨⟨v.take (prependBytes + q.length), prependBytes, prependBytes + q.length⟩, ?_, ?_⟩
  · simp only [Buffer.shrink, hslide, bind, Except.bind, hresize]
    rfl
  · refine holds_of_eq (v.take prependBytes) [] ?_ h'.length_take_read rfl (Nat.le_refl _) ?_
    · have htake : v.take (prependBytes + q.length) = v.take prependBytes ++ (v.drop prependBytes).take q.length := List.take_add
      have hrest : (v.drop prependBytes).take q.length = q := by simpa using h'.rest
      rw [htake, hrest, List.append_nil]
    · exact Nat.le_trans (List.length_take_le ..) (Nat.le_trans hwrite hmax)

end Holds

/-! ### Construction -/

theorem resize_nil {n : Nat} (h : n ≤ vectorMaxSize) : resize [] n = .ok (List.replicate n 0) := by
  simp [resize, Nat.not_lt.mpr h]

/-- A size that does not wrap around gives an empty buffer, or is too large for a vector. -/
theorem construct_fits {n : Nat} (hn : prependBytes + n < 2 ^ 64) :
    construct n = .error .lengthError ∨ ∃ b, construct n = .ok b ∧ Holds b [] := by
  unfold construct
  rw [uint64_of_lt hn]
  by_cases hbig : prependBytes + n > vectorMaxSize
  · left
    rw [resize, if_pos hbig]
    rfl
  · right
    have hlt := vectorMaxSize_lt
    let v : Bytes := List.replicate (prependBytes + n) 0
    have hlen : v.length = prependBytes + n := List.length_replicate
    have hresize : resize [] (prependBytes + n) = .ok v := resize_nil (Nat.le_of_not_lt hbig)
    have hholds : Holds ⟨v, prependBytes, prependBytes⟩ [] :=
      ⟨Nat.le_refl _, Nat.le_refl _, by rw [hlen]; exact Nat.le_add_right .., by rw [hlen]; omega, by simp⟩
    have hassert : Buffer.readableBytes ⟨v, prependBytes, prependBytes⟩ = 0 ∧
        Buffer.writableBytes ⟨v, prependBytes, prependBytes⟩ = n := by
      refine ⟨hholds.readableBytes, ?_⟩
      rw [hholds.writableBytes, hlen, Nat.add_sub_cancel_left]
    rw [hresize]
    exact ⟨_, if_pos hassert, hholds⟩

/-- A size that wraps around gives a buffer that is shorter than the bytes kept free at its front. -/
theorem construct_wraps {n : Nat} (hn : n < 2 ^ 64) (hwrap : 2 ^ 64 ≤ prependBytes + n) :
    ∃ b, (construct n = .ok b ∨ construct n = .error .assertion) ∧ b.buffer.length < b.readPos := by
  have hsize : uint64 (prependBytes + n) < prependBytes := by
    unfold uint64 prependBytes at *
    omega
  have hresize : resize [] (uint64 (prependBytes + n)) = .ok (List.replicate (uint64 (prependBytes + n)) 0) :=
    resize_nil (Nat.le_trans (Nat.le_of_lt hsize) (by decide))
  refine ⟨⟨List.replicate (uint64 (prependBytes + n)) 0, prependBytes, prependBytes⟩, ?_, ?_⟩
  · unfold construct
    rw [hresize]
    simp only [bind, Except.bind]
    split
    · exact Or.inl rfl
    · exact Or.inr rfl
  · show List.length _ < _
    rw [List.length_replicate]
    exact hsize

end Buffer

/-! ### Runs -/

open Buffer

/-- The cursors are in order behind the bytes kept free, the readable bytes are those of the queue, and `MakeSpace`
    makes room without altering them, unless the vector would exceed its maximal size. -/
structure Represents (b : Buffer) (q : Bytes) : Prop where
  prepend_le : prependBytes ≤ b.readPos
  read_le : b.readPos ≤ b.writePos
  write_le : b.writePos ≤ b.buffer.length
  readableBytes : b.readableBytes = q.length
  readable : b.readable = q
  makeSpace : ∀ len ≤ vectorMaxSize, b.makeSpace len = .error .lengthError ∨
    ∃ b', b.makeSpace len = .ok b' ∧ len ≤ b'.writableBytes ∧ b'.readable = q

theorem Buffer.Holds.represents {b : Buffer} {q : Bytes} (h : Holds b q) : Represents b q := by
  refine ⟨h.prepend_le, h.read_le, h.write_le, h.readableBytes, h.readable, fun len hlen => ?_⟩
  rcases h.makeSpace hlen with herror | ⟨b', hok, h', hspace⟩
  · exact Or.inl herror
  · exact Or.inr ⟨b', hok, hspace, h'.readable⟩

/-- No more bytes are consumed than are readable. -/
def Allowed (s : Buffers) (op : BufferOp) : Prop :=
  ∀ i len b q, op = .consume i len → s[i]? = some (b, q) → len ≤ q.length

/-- The size of a vector that is constructed does not wrap around. -/
def Fits (_ : Buffers) (op : BufferOp) : Prop := ∀ n hn, op = .construct n hn → prependBytes + n < 2 ^ 64

section
variable {s t : Buffers} {op : BufferOp}

theorem update_holds (hs : ∀ x ∈ s, Holds x.1 x.2) (i : Nat) {f : Buffer → Except BufferFault Buffer} {g : Bytes → Bytes}
    (hf : ∀ b q, s[i]? = some (b, q) → Holds b q → f b = .error .lengthError ∨ ∃ b', f b = .ok b' ∧ Holds b' (g q)) :
    ∃ t, s.update i f g = .ok t ∧ ∀ x ∈ t, Holds x.1 x.2 := by
  unfold Buffers.update
  split
  · exact ⟨s, rfl, hs⟩
  · rename_i b q hget
    rcases hf b q hget (hs _ (List.mem_of_getElem? hget)) with herror | ⟨b', hok, h'⟩
    · rw [herror]
      exact ⟨s, rfl, hs⟩
    · rw [hok]
      refine ⟨_, rfl, fun x hx => ?_⟩
      rcases List.mem_or_eq_of_mem_set hx with hx | rfl
      · exact hs x hx
      · exact h'

theorem swap_holds (hs : ∀ x ∈ s, Holds x.1 x.2) (i j : Nat) : ∀ x ∈ s.swap i j, Holds x.1 x.2 := by
  intro x hx
  unfold Buffers.swap at hx
  split at hx
  · rename_i y z hy hz
    rcases List.mem_or_eq_of_mem_set hx with hx | rfl
    · rcases List.mem_or_eq_of_mem_set hx with hx | rfl
      · exact hs x hx
      · exact hs _ (List.mem_of_getElem? hz)
    · exact hs _ (List.mem_of_getElem? hy)
  · exact hs x hx

/-- A call that is allowed and fits acts on each queue as it is to act. -/
theorem step_holds (hs : ∀ x ∈ s, Holds x.1 x.2) (hallowed : Allowed s op) (hfits : Fits s op) :
    ∃ t, s.step op = .ok t ∧ ∀ x ∈ t, Holds x.1 x.2 := by
  cases op with
  | construct n hn =>
    rcases construct_fits (hfits n hn rfl) with herror | ⟨b, hok, hb⟩
    · exact ⟨s, by simp only [Buffers.step, herror], hs⟩
    · refine ⟨s ++ [(b, [])], by simp only [Buffers.step, hok], fun x hx => ?_⟩
      rcases List.mem_append.mp hx with hx | hx
      · exact hs x hx
      · rw [List.mem_singleton.mp hx]
        exact hb
  | append i data => exact update_holds hs i fun b q _ h => h.append data
  | consume i len => exact update_holds hs i fun b q hget h => Or.inr (h.consume (hallowed i len b q rfl hget))
  | clear i => exact update_holds hs i fun b q _ h => Or.inr ⟨b.clear, rfl, h.clear⟩
  | shrink i => exact update_holds hs i fun b q _ h => Or.inr h.shrink
  | swap i j => exact ⟨s.swap i j, rfl, swap_holds hs i j⟩

theorem step_fits (h : s.step op = .ok t) (ht : ∀ x ∈ t, Represents x.1 x.2) : Fits s op := by
  rintro n hn rfl
  by_contra hwrap
  obtain ⟨b, hconstruct, hshort⟩ := construct_wraps hn (Nat.le_of_not_lt hwrap)
  rcases hconstruct with hok | herror
  · simp only [Buffers.step, hok] at h
    cases h
    have hb := ht (b, []) (List.mem_append_right _ (List.mem_singleton_self _))
    exact absurd (Nat.le_trans hb.read_le hb.write_le) (Nat.not_le.mpr hshort)
  · simp only [Buffers.step, herror] at h
    cases h

end

end Zylib.ZySoft.Net
