import Zylib.ZySoft.Md5

/-! The digest that a context gives is that of the message, in whatever parts it came. -/

namespace Zylib.ZySoft.Md5
open LittleEndian BlockHash
open KNet.MessageDecoder (memcpyAt)

/-! ### The buffer -/

theorem take_memcpyAt {b : Bytes} {pos n : Nat} (src : Bytes) (hpos : pos ≤ b.length) (hn : n = pos + src.length) :
    (memcpyAt b pos src).take n = b.take pos ++ src := by
  have hlen : (b.take pos ++ src).length = n := by rw [List.length_append, List.length_take_of_le hpos, hn]
  rw [memcpyAt, List.take_left' hlen]

/-- Bytes that are copied up to the end. -/
theorem memcpyAt_end {b : Bytes} {pos : Nat} (src : Bytes) (h : pos + src.length = b.length) :
    memcpyAt b pos src = b.take pos ++ src := by
  rw [memcpyAt, h, List.drop_length, List.append_nil]

theorem toLE_mod (k n : Nat) : toLE k (n % 256 ^ k) = toLE k n := by
  have h := toLE_ofLE (toLE k n)
  rwa [length_toLE, ofLE_toLE] at h

theorem body_block (w : Words) {block : Bytes} (h : block.length = 64) : body w block = transform w block := by
  rw [body, h]
  show transform w (block.take 64) = _
  rw [List.take_of_length_le (Nat.le_of_eq h)]

/-! ### Update -/

/-- The state, and the bytes that are kept. -/
def held (ctx : Context) : Words × Bytes := (ctx.words, ctx.buffer.take ctx.used)

theorem updateBlocks_spec (ctx : Context) (data : Bytes) :
    (updateBlocks ctx data).bytes = ctx.bytes ∧
    ((updateBlocks ctx data).words, (updateBlocks ctx data).buffer.take (data.length % 64)) =
      absorb transform 64 ctx.words data := by
  have hsize : data.length - data.length % 64 = data.length / 64 * 64 := by omega
  unfold updateBlocks
  split
  · refine ⟨rfl, ?_⟩
    have hdiv : (data.take (data.length / 64 * 64)).length / 64 = data.length / 64 := by
      rw [List.length_take_of_le (by omega), Nat.mul_div_cancel _ (by decide)]
    have hrest : data.length % 64 = 0 + (data.drop (data.length / 64 * 64)).length := by
      rw [List.length_drop]
      omega
    simp only [Context.memcpy, hsize]
    rw [take_memcpyAt _ (Nat.zero_le _) hrest, body, hdiv, blocks_take]
    rfl
  · rename_i hlt
    rw [absorb_of_lt (Nat.not_le.mp hlt), Nat.mod_eq_of_lt (Nat.not_le.mp hlt)]
    refine ⟨rfl, ?_⟩
    rw [Context.memcpy, take_memcpyAt data (Nat.zero_le _) (Nat.zero_add _).symm]
    rfl

theorem bytes_update (ctx : Context) (data : Bytes) :
    (update ctx data).bytes = ctx.bytes + UInt64.ofNat data.length := by
  unfold update
  dsimp only
  split
  · split
    · rfl
    · exact (updateBlocks_spec ..).1
  · exact (updateBlocks_spec ..).1

/-- `MD5_Update` takes in the complete blocks of what is kept and what comes. -/
theorem held_update (ctx : Context) (data : Bytes) :
    held (update ctx data) = absorb transform 64 ctx.words (ctx.buffer.take ctx.used ++ data) := by
  have hused := ctx.used_lt
  have hsize := ctx.size_buffer
  have hkept : (ctx.buffer.take ctx.used).length = ctx.used := List.length_take_of_le (by omega)
  have hnext : (update ctx data).used = (ctx.used + data.length) % 64 := by
    rw [Context.used_eq, Context.used_eq, bytes_update, UInt64.toNat_add, UInt64.toNat_ofNat']
    omega
  unfold held
  rw [hnext]
  unfold update
  dsimp only
  split
  · split
    · -- The block is not complete yet.
      rename_i hlt
      have hlt : (ctx.buffer.take ctx.used ++ data).length < 64 := by rw [List.length_append, hkept]; omega
      rw [absorb_of_lt hlt, Nat.mod_eq_of_lt (by omega), Context.memcpy, take_memcpyAt data (show ctx.used ≤ ctx.buffer.length by omega) rfl]
    · -- The block that was begun, and those that follow.
      have hbuffer : memcpyAt ctx.buffer ctx.used (data.take (64 - ctx.used)) =
          ctx.buffer.take ctx.used ++ data.take (64 - ctx.used) :=
        memcpyAt_end _ (by rw [List.length_take_of_le (by omega)]; omega)
      have hblock : (ctx.buffer.take ctx.used ++ data.take (64 - ctx.used)).length = 64 := by
        rw [List.length_append, hkept, List.length_take_of_le (by omega)]
        omega
      have hmod : (ctx.used + data.length) % 64 = (data.drop (64 - ctx.used)).length % 64 := by
        rw [List.length_drop]
        omega
      rw [absorb_begun (by decide) (by omega) (by omega), hkept, ← body_block _ hblock, hmod, (updateBlocks_spec _ _).2]
      simp only [Context.memcpy, hbuffer]
  · rename_i hzero
    have hzero : ctx.used = 0 := Classical.not_not.mp hzero
    rw [hzero, Nat.zero_add, List.take_zero, List.nil_append]
    exact (updateBlocks_spec _ _).2

/-! ### Final -/

/-- The bytes of the last block, or of the last two. -/
theorem absorb_padding (w : Words) {kept : Bytes} (length : Bytes) (hkept : kept.length < 64) (hlength : length.length = 8) :
    (absorb transform 64 w (kept ++ (0x80 :: List.replicate ((119 - kept.length) % 64) 0 ++ length))).1 =
      if 64 - (kept.length + 1) < 8 then
        transform (transform w (kept ++ [0x80] ++ List.replicate (64 - (kept.length + 1)) 0)) (List.replicate 56 0 ++ length)
      else transform w (kept ++ [0x80] ++ List.replicate (64 - (kept.length + 1) - 8) 0 ++ length) := by
  have hlast : ∀ (w : Words) (b : Bytes), b.length = 64 → (absorb transform 64 w b).1 = transform w b := by
    intro w b hb
    rw [← List.append_nil b, absorb_block (by decide) hb, absorb_of_lt (by decide), List.append_nil]
  split
  · rename_i hfree
    have hzeros : (119 - kept.length) % 64 = 64 - (kept.length + 1) + 56 := by omega
    have hfirst : (kept ++ [0x80] ++ List.replicate (64 - (kept.length + 1)) 0).length = 64 := by
      simp only [List.length_append, List.length_singleton, List.length_replicate]
      omega
    have hsplit : kept ++ (0x80 :: List.replicate ((119 - kept.length) % 64) 0 ++ length) =
        kept ++ [0x80] ++ List.replicate (64 - (kept.length + 1)) 0 ++ (List.replicate 56 0 ++ length) := by
      rw [hzeros, List.replicate_add]
      simp
    rw [hsplit, absorb_block (by decide) hfirst, hlast _ _ (by simp [hlength])]
  · rename_i hfree
    have hzeros : (119 - kept.length) % 64 = 64 - (kept.length + 1) - 8 := by omega
    rw [hzeros, hlast]
    · simp
    · simp only [List.length_append, List.length_cons, List.length_replicate, hlength]
      omega

section
variable {buffer kept : Bytes} {used : Nat}

theorem take_one (hsize : buffer.length = 64) (hkept : buffer.take used = kept) (hused : used < 64) :
    (memcpyAt buffer used [0x80]).length = 64 ∧ (memcpyAt buffer used [0x80]).take (used + 1) = kept ++ [0x80] := by
  constructor
  · simp only [memcpyAt, List.length_append, List.length_take, List.length_drop, List.length_singleton, hsize]
    omega
  · rw [← hkept]
    exact take_memcpyAt _ (by omega) rfl

/-- The buffer of the last block but one, and that of the last. -/
theorem pad_two (hsize : buffer.length = 64) (hkept : buffer.take used = kept) (hused : used < 64) {length : Bytes}
    (hlength : length.length = 8) :
    memcpyAt (memcpyAt buffer used [0x80]) (used + 1) (List.replicate (64 - (used + 1)) 0) =
      kept ++ [0x80] ++ List.replicate (64 - (used + 1)) 0 ∧
    memcpyAt (memcpyAt (kept ++ [0x80] ++ List.replicate (64 - (used + 1)) 0) 0 (List.replicate 56 0)) 56 length =
      List.replicate 56 0 ++ length := by
  obtain ⟨hone_length, hone⟩ := take_one hsize hkept hused
  have hkept_length : kept.length = used := by rw [← hkept, List.length_take_of_le (by omega)]
  constructor
  · rw [memcpyAt_end _ (by rw [List.length_replicate, hone_length]; omega), hone]
  · rw [memcpyAt_end, take_memcpyAt _ (Nat.zero_le _) (by simp), List.take_zero, List.nil_append]
    simp only [memcpyAt, List.length_append, List.length_take, List.length_drop, List.length_singleton, List.length_replicate]
    omega

/-- The buffer of the last block, where it has room for the number of bits. -/
theorem pad_one (hsize : buffer.length = 64) (hkept : buffer.take used = kept) (hused : used < 64) {length : Bytes}
    (hlength : length.length = 8) (hfree : ¬64 - (used + 1) < 8) :
    memcpyAt (memcpyAt (memcpyAt buffer used [0x80]) (used + 1) (List.replicate (64 - (used + 1) - 8) 0)) 56 length =
      kept ++ [0x80] ++ List.replicate (64 - (used + 1) - 8) 0 ++ length := by
  obtain ⟨hone_length, hone⟩ := take_one hsize hkept hused
  rw [memcpyAt_end, take_memcpyAt _ (by omega) (by rw [List.length_replicate]; omega), hone]
  simp only [memcpyAt, List.length_append, List.length_take, List.length_drop, List.length_singleton, List.length_replicate]
  omega

end

/-- The last block takes in what is kept and the padding. -/
theorem final_spec (ctx : Context) {len : Nat} (hlen : ctx.bytes = UInt64.ofNat len) :
    (final ctx).1 = digestOf (absorb transform 64 ctx.words (ctx.buffer.take ctx.used ++
      (0x80 :: List.replicate ((119 - len % 64) % 64) 0 ++ toLE 8 (8 * len)))).1 := by
  have hused := ctx.used_lt
  have hsize := ctx.size_buffer
  obtain ⟨kept, hkept⟩ : ∃ kept, ctx.buffer.take ctx.used = kept := ⟨_, rfl⟩
  have hkept_length : kept.length = ctx.used := by rw [← hkept, List.length_take_of_le (by omega)]
  have hmod : len % 64 = kept.length := by
    rw [hkept_length, Context.used_eq, hlen, UInt64.toNat_ofNat']
    omega
  have hbits : toLE 8 (ctx.bytes <<< 3).toNat = toLE 8 (8 * len) := by
    rw [← toLE_mod 8 (8 * len), hlen, UInt64.toNat_shiftLeft, UInt64.toNat_ofNat', Nat.shiftLeft_eq]
    congr 1
    show len % 2 ^ 64 * 2 ^ 3 % 2 ^ 64 = 8 * len % 2 ^ 64
    omega
  unfold final
  refine congrArg digestOf ?_
  rw [body_block _ (pad ctx).size_buffer, hkept, hmod, absorb_padding _ _ (hkept_length ▸ hused) (length_toLE ..), hkept_length]
  unfold pad
  by_cases hfree : 64 - (ctx.used + 1) < 8
  · obtain ⟨hfirst, hlast⟩ := pad_two hsize hkept hused (length_toLE 8 (8 * len))
    have hblock : (kept ++ [0x80] ++ List.replicate (64 - (ctx.used + 1)) 0 : Bytes).length = 64 := by
      simp only [List.length_append, List.length_singleton, List.length_replicate]
      omega
    simp only [if_pos hfree, Context.memzero, Context.memcpy, hfirst, body_block _ hblock, hbits, hlast]
  · have hlast := pad_one hsize hkept hused (length_toLE 8 (8 * len)) hfree
    simp only [if_neg hfree, Context.memzero, Context.memcpy, hbits, hlast]

/-! ### The digest -/

theorem bytes_foldl (ctx : Context) (parts : List Bytes) :
    (parts.foldl update ctx).bytes = ctx.bytes + UInt64.ofNat parts.flatten.length := by
  induction parts generalizing ctx with
  | nil => simp
  | cons part parts ih =>
    rw [List.foldl_cons, ih, bytes_update, List.flatten_cons, List.length_append, UInt64.ofNat_add, UInt64.add_assoc]

/-- The digest of a message does not depend on the parts in which it comes. -/
theorem final_foldl_update (ctx : Context) (parts : List Bytes) :
    (final (parts.foldl update (init ctx))).1 = digest parts.flatten := by
  have hheld : Holds transform 64 ⟨0x67452301, 0xefcdab89, 0x98badcfe, 0x10325476⟩ held (init ctx) [] := by
    have hused : (init ctx).used = 0 := by rw [Context.used_eq]; rfl
    rw [Holds, absorb_of_lt (by decide), held, hused, List.take_zero]
    rfl
  have h := hheld.foldl (by decide) id (fun c part _ => held_update c part) parts
  rw [List.nil_append, List.map_id] at h
  have hbytes : (parts.foldl update (init ctx)).bytes = UInt64.ofNat parts.flatten.length := by
    rw [bytes_foldl]
    exact UInt64.zero_add _
  rw [final_spec _ hbytes, digest, padded, absorb_append (by decide) _ parts.flatten, ← show held _ = _ from h]
  rfl

@[simp] theorem length_digestOf (w : Words) : (digestOf w).length = 16 := by
  simp [digestOf, wordBytes]

/-- However a message is cut, the digest is that of the whole: sixteen bytes, and nothing of the message stays. -/
theorem digest_of_parts (ctx : Context) (parts : List Bytes) :
    let (result, left) := final (parts.foldl update (init ctx))
    result = digest parts.flatten ∧ result.length = 16 ∧
      left.bytes = 0 ∧ left.words = ⟨0, 0, 0, 0⟩ ∧ left.buffer = List.replicate 64 0 :=
  ⟨final_foldl_update ctx parts, length_digestOf _, rfl, rfl, rfl⟩

end Zylib.ZySoft.Md5
