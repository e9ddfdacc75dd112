import Zylib.Theorems.ZySoft.Md5
import Zylib.Hashing.IdMD5

/-! Both MD5s give the same digest. -/

namespace Zylib.Hashing.IdMD5
open LittleEndian BlockHash
open KNet.MessageDecoder (memcpyAt)
open ZySoft.Md5 (Words digestOf digest padded take_memcpyAt memcpyAt_end absorb_padding pad_two pad_one toLE_mod)

/-! ### The transformation -/

/-- The names that the functions have here. -/
def Core.basic : Core → ZySoft.Md5.Basic
  | F1 => .F
  | F2 => .G
  | F3 => .H
  | F4 => .I

theorem apply_eq (f : Core) (x y z : UInt32) : f.apply x y z = f.basic.apply x y z := by
  cases f <;> rfl

theorem steps_eq : ZySoft.Md5.steps = steps.map fun (f, n, t, s) => (f.basic, n, t, s) := rfl

theorem md5step_eq (f : Core) (w : Words) (x t s : UInt32) : md5step f w (x + t) s = ZySoft.Md5.step f.basic w x t s := by
  have hand : ∀ a : UInt32, a &&& 0xffffffff = a := by
    intro a
    apply UInt32.toNat_inj.mp
    rw [UInt32.toNat_and]
    exact (Nat.and_two_pow_sub_one_eq_mod _ 32).trans (Nat.mod_eq_of_lt a.toNat_lt)
  unfold md5step ZySoft.Md5.step
  simp only [apply_eq, hand, UInt32.add_assoc]

theorem transform_eq (state : Words) (block : Bytes) : transform state block = ZySoft.Md5.transform state block := by
  unfold transform ZySoft.Md5.transform
  rw [steps_eq, List.foldl_map]
  simp only [md5step_eq]
  simp only [UInt32.add_comm]
  rfl

/-! ### The count of bits -/

def bitCount (ctx : Context) : Nat := ctx.bits0.toNat + 2 ^ 32 * ctx.bits1.toNat

theorem bitCount_addBits (ctx : Context) {len : Nat} (h : len < 2 ^ 32) :
    bitCount (ctx.addBits (UInt32.ofNat len)) = (bitCount ctx + 8 * len) % 2 ^ 64 := by
  have hlen : (UInt32.ofNat len).toNat = len := UInt32.toNat_ofNat_of_lt' h
  have hlow : (UInt32.ofNat len <<< 3).toNat = 8 * len % 2 ^ 32 := by
    rw [UInt32.toNat_shiftLeft, hlen, Nat.shiftLeft_eq, Nat.mul_comm]
    rfl
  have hhigh : (UInt32.ofNat len >>> 29).toNat = len / 2 ^ 29 := by
    rw [UInt32.toNat_shiftRight, hlen, Nat.shiftRight_eq_div_pow]
    rfl
  have h0 := ctx.bits0.toNat_lt
  have h1 := ctx.bits1.toNat_lt
  unfold bitCount Context.addBits
  dsimp only
  split
  · rename_i hcarry
    rw [UInt32.lt_iff_toNat_lt, UInt32.toNat_add, hlow] at hcarry
    simp only [UInt32.toNat_add, hlow, hhigh, UInt32.toNat_one]
    omega
  · rename_i hcarry
    rw [UInt32.lt_iff_toNat_lt, UInt32.toNat_add, hlow] at hcarry
    simp only [UInt32.toNat_add, hlow, hhigh]
    omega

theorem count_addBits (ctx : Context) {len : Nat} (h : len < 2 ^ 32) :
    (ctx.addBits (UInt32.ofNat len)).count = (ctx.count + len) % 64 := by
  have hlow : (UInt32.ofNat len <<< 3).toNat = 8 * len % 2 ^ 32 := by
    rw [UInt32.toNat_shiftLeft, UInt32.toNat_ofNat_of_lt' h, Nat.shiftLeft_eq, Nat.mul_comm]
    rfl
  have hbits0 : (ctx.addBits (UInt32.ofNat len)).bits0 = ctx.bits0 + (UInt32.ofNat len <<< 3) := by
    unfold Context.addBits
    dsimp only
    split <;> rfl
  rw [Context.count_eq, Context.count_eq, hbits0, UInt32.toNat_add, hlow]
  omega

/-! ### Update -/

/-- The state, and the bytes that are kept. -/
def held (ctx : Context) : Words × Bytes := (ctx.state, ctx.input.take ctx.count)

theorem updateBlocks_spec (ctx : Context) (buf : Bytes) :
    (updateBlocks ctx buf).bits0 = ctx.bits0 ∧ (updateBlocks ctx buf).bits1 = ctx.bits1 ∧
    ((updateBlocks ctx buf).state, (updateBlocks ctx buf).input.take (buf.length % 64)) = absorb transform 64 ctx.state buf := by
  fun_induction updateBlocks ctx buf with
  | case1 ctx buf h ctx' ih =>
    have hblock : (buf.take 64).length = 64 := List.length_take_of_le h
    have hinput : ctx'.input = buf.take 64 := (memcpyAt_end _ (by rw [hblock, ctx.size_input])).trans (List.nil_append _)
    have hmod : buf.length % 64 = (buf.drop 64).length % 64 := by
      rw [List.length_drop]
      omega
    obtain ⟨h0, h1, hheld⟩ := ih
    refine ⟨h0, h1, ?_⟩
    rw [hmod, hheld]
    conv_rhs => rw [← List.take_append_drop 64 buf]
    rw [absorb_block (by decide) hblock]
    dsimp only
    rw [hinput]
    rfl
  | case2 ctx buf h =>
    have hlt : buf.length < 64 := Nat.not_le.mp h
    refine ⟨rfl, rfl, ?_⟩
    rw [absorb_of_lt hlt, Nat.mod_eq_of_lt hlt, Context.memcpy, take_memcpyAt buf (Nat.zero_le _) (Nat.zero_add _).symm]
    rfl

theorem addBits_kept (ctx : Context) (len : UInt32) :
    (ctx.addBits len).state = ctx.state ∧ (ctx.addBits len).input = ctx.input := by
  unfold Context.addBits
  dsimp only
  split <;> exact ⟨rfl, rfl⟩

theorem bits_update (ctx : Context) (part : Part) :
    (update ctx part).bits0 = (ctx.addBits (UInt32.ofNat part.val.length)).bits0 ∧
    (update ctx part).bits1 = (ctx.addBits (UInt32.ofNat part.val.length)).bits1 := by
  have hblocks : ∀ (ctx : Context) (buf : Bytes),
      (updateBlocks ctx buf).bits0 = ctx.bits0 ∧ (updateBlocks ctx buf).bits1 = ctx.bits1 := fun ctx buf =>
    ⟨(updateBlocks_spec ctx buf).1, (updateBlocks_spec ctx buf).2.1⟩
  unfold update
  dsimp only
  split
  · split
    · exact ⟨rfl, rfl⟩
    · exact hblocks _ _
  · exact hblocks _ _

theorem count_update (ctx : Context) (part : Part) : (update ctx part).count = (ctx.count + part.val.length) % 64 := by
  rw [← count_addBits ctx part.property, Context.count, (bits_update ctx part).1, Context.count]

theorem bitCount_update (ctx : Context) (part : Part) :
    bitCount (update ctx part) = (bitCount ctx + 8 * part.val.length) % 2 ^ 64 := by
  rw [← bitCount_addBits ctx part.property, bitCount, (bits_update ctx part).1, (bits_update ctx part).2, bitCount]

/-- `MD5_Update` takes in the complete blocks of what is kept and what comes. -/
theorem held_update (ctx : Context) (part : Part) :
    held (update ctx part) = absorb transform 64 ctx.state (ctx.input.take ctx.count ++ part.val) := by
  have hcount := ctx.count_lt
  have hsize := ctx.size_input
  have hkept : (ctx.input.take ctx.count).length = ctx.count := List.length_take_of_le (by omega)
  obtain ⟨hstate, hinput⟩ := addBits_kept ctx (UInt32.ofNat part.val.length)
  unfold held
  rw [count_update]
  unfold update
  dsimp only
  split
  · split
    · rename_i hlt
      have hlt : (ctx.input.take ctx.count ++ part.val).length < 64 := by rw [List.length_append, hkept]; omega
      rw [absorb_of_lt hlt, Nat.mod_eq_of_lt (by omega)]
      simp only [Context.memcpy, hstate, hinput]
      rw [take_memcpyAt _ (by omega) rfl]
    · have hbuffer : memcpyAt ctx.input ctx.count (part.val.take (64 - ctx.count)) =
          ctx.input.take ctx.count ++ part.val.take (64 - ctx.count) :=
        memcpyAt_end _ (by rw [List.length_take_of_le (by omega)]; omega)
      have hmod : (ctx.count + part.val.length) % 64 = (part.val.drop (64 - ctx.count)).length % 64 := by
        rw [List.length_drop]
        omega
      rw [absorb_begun (by decide) (by omega) (by omega), hkept, hmod, (updateBlocks_spec _ _).2.2]
      simp only [Context.memcpy, hstate, hinput, hbuffer]
  · rename_i hzero
    have hzero : ctx.count = 0 := Classical.not_not.mp hzero
    rw [hzero, Nat.zero_add, List.take_zero, List.nil_append, (updateBlocks_spec _ _).2.2, hstate]

/-! ### Final -/

theorem final_spec (ctx : Context) {len : Nat} (hbits : bitCount ctx = 8 * len % 2 ^ 64) :
    (final ctx).1 = digestOf (absorb transform 64 ctx.state (ctx.input.take ctx.count ++
      (0x80 :: List.replicate ((119 - len % 64) % 64) 0 ++ toLE 8 (8 * len)))).1 := by
  have hcount := ctx.count_lt
  have hsize := ctx.size_input
  have h0 := ctx.bits0.toNat_lt
  obtain ⟨kept, hkept⟩ : ∃ kept, ctx.input.take ctx.count = kept := ⟨_, rfl⟩
  have hkept_length : kept.length = ctx.count := by rw [← hkept, List.length_take_of_le (by omega)]
  have hmod : len % 64 = kept.length := by
    unfold bitCount at hbits
    rw [hkept_length, Context.count_eq]
    omega
  have hlength : toLE 4 ctx.bits0.toNat ++ toLE 4 ctx.bits1.toNat = toLE 8 (8 * len) := by
    have hof : ofLE (toLE 4 ctx.bits0.toNat ++ toLE 4 ctx.bits1.toNat) = 8 * len % 256 ^ 8 := by
      have h1 := ctx.bits1.toNat_lt
      rw [ofLE_append, length_toLE, ofLE_toLE, ofLE_toLE, show 256 ^ 4 = 2 ^ 32 from rfl, Nat.mod_eq_of_lt h0,
        Nat.mod_eq_of_lt h1]
      exact hbits
    have h := toLE_ofLE (toLE 4 ctx.bits0.toNat ++ toLE 4 ctx.bits1.toNat)
    rw [hof, List.length_append, length_toLE, length_toLE] at h
    rw [← h, toLE_mod]
  have htransform : transform = ZySoft.Md5.transform := funext fun w => funext fun b => transform_eq w b
  unfold final
  refine congrArg digestOf ?_
  rw [hkept, hmod, htransform, absorb_padding _ _ (hkept_length ▸ hcount) (length_toLE ..), hkept_length]
  unfold pad
  have hsub : 64 - 1 - ctx.count = 64 - (ctx.count + 1) := by omega
  by_cases hfree : 64 - (ctx.count + 1) < 8
  · obtain ⟨hfirst, hlast⟩ := pad_two hsize hkept hcount (length_toLE 8 (8 * len))
    simp only [hsub, if_pos hfree, Context.memset, Context.memcpy, hfirst, hlength, hlast, htransform]
  · have hlast := pad_one hsize hkept hcount (length_toLE 8 (8 * len)) hfree
    simp only [hsub, if_neg hfree, Context.memset, Context.memcpy, hlength, hlast]

/-! ### The digest -/

theorem bitCount_foldl (ctx : Context) (parts : List Part) {len : Nat} (h : bitCount ctx = 8 * len % 2 ^ 64) :
    bitCount (parts.foldl update ctx) = 8 * (len + (parts.map Subtype.val).flatten.length) % 2 ^ 64 := by
  induction parts generalizing ctx len with
  | nil => simpa using h
  | cons part parts ih =>
    have hnext : bitCount (update ctx part) = 8 * (len + part.val.length) % 2 ^ 64 := by
      rw [bitCount_update, h]
      omega
    rw [List.foldl_cons, ih _ hnext, List.map_cons, List.flatten_cons, List.length_append, Nat.add_assoc]

theorem final_foldl_update (ctx : Context) (parts : List Part) :
    (final (parts.foldl update (init ctx))).1 = digest (parts.map Subtype.val).flatten := by
  have hheld : Holds transform 64 ⟨0x67452301, 0xefcdab89, 0x98badcfe, 0x10325476⟩ held (init ctx) [] := by
    have hcount : (init ctx).count = 0 := by rw [Context.count_eq]; simp [init]
    rw [Holds, absorb_of_lt (by decide), held, hcount, List.take_zero]
    rfl
  have h := hheld.foldl (by decide) Subtype.val (fun c part _ => held_update c part) parts
  rw [List.nil_append] at h
  have hbits := @bitCount_foldl (init ctx) parts 0 rfl
  rw [Nat.zero_add] at hbits
  have htransform : transform = ZySoft.Md5.transform := funext fun w => funext fun b => transform_eq w b
  rw [final_spec _ hbits, digest, padded, ← htransform, absorb_append (by decide) _ (parts.map Subtype.val).flatten,
    ← show held _ = _ from h]
  rfl

/-- Both contexts give one digest for a message, however it is cut for each of them. -/
theorem digests_agree (ctx : Context) (ctx' : ZySoft.Md5.Context) (parts : List Part) (parts' : List Bytes)
    (h : (parts.map Subtype.val).flatten = parts'.flatten) :
    (final (parts.foldl update (init ctx))).1 =
      (ZySoft.Md5.final (parts'.foldl ZySoft.Md5.update (ZySoft.Md5.init ctx'))).1 := by
  rw [final_foldl_update, ZySoft.Md5.final_foldl_update, h]

/-- `abc`, in two ways. -/
theorem digests_agree_abc :
    (final ([⟨[97], by decide⟩, ⟨[98, 99], by decide⟩].foldl update
      (init ⟨⟨0, 0, 0, 0⟩, 0, 0, List.replicate 64 0, List.length_replicate⟩))).1 =
    (ZySoft.Md5.final ([[97, 98], [99]].foldl ZySoft.Md5.update
      (ZySoft.Md5.init ⟨0, ⟨0, 0, 0, 0⟩, List.replicate 64 0, List.length_replicate⟩))).1 :=
  digests_agree _ _ _ _ rfl

end Zylib.Hashing.IdMD5
