import Mathlib
import Zylib.ZySoft.Md5

/-! The other MD5, `zylib_experimental/detail/idMD5.cpp`, on a little-endian machine: there `LittleRevBytes` and
    `LittleInt32` leave everything as it is. -/

namespace Zylib.Hashing.IdMD5
open LittleEndian
open KNet.MessageDecoder (memcpyAt)
open ZySoft.Md5 (Words digestOf length_memcpyAt zeros_fit rest_fits)

/-! ### The core -/

/-- The four core functions. -/
inductive Core where
  | F1
  | F2
  | F3
  | F4
deriving DecidableEq

def f1 (x y z : UInt32) : UInt32 := z ^^^ (x &&& (y ^^^ z))

def Core.apply : Core → UInt32 → UInt32 → UInt32 → UInt32
  | F1, x, y, z => f1 x y z
  | F2, x, y, z => f1 z x y
  | F3, x, y, z => x ^^^ y ^^^ z
  | F4, x, y, z => y ^^^ (x ||| ~~~z)

/-- The word `in[n]`. -/
def word (block : Bytes) (n : Nat) : UInt32 := UInt32.ofNat (ofLE ((block.drop (n * 4)).take 4))

/-- `MD5STEP(f, a, b, c, d, data, s)`; the next one is about `d, a, b, c`. -/
def md5step (f : Core) (w : Words) (data s : UInt32) : Words :=
  let a := w.a + (f.apply w.b w.c w.d + data)
  let a := (a <<< s) ||| (a >>> (32 - s))
  let a := a + w.b
  ⟨w.d, a, w.b, w.c⟩

/-- The steps: the function, the word, what is added to it, and the shift. -/
def steps : List (Core × Nat × UInt32 × UInt32) := [
  (.F1, 0, 0xd76aa478, 7), (.F1, 1, 0xe8c7b756, 12), (.F1, 2, 0x242070db, 17), (.F1, 3, 0xc1bdceee, 22),
  (.F1, 4, 0xf57c0faf, 7), (.F1, 5, 0x4787c62a, 12), (.F1, 6, 0xa8304613, 17), (.F1, 7, 0xfd469501, 22),
  (.F1, 8, 0x698098d8, 7), (.F1, 9, 0x8b44f7af, 12), (.F1, 10, 0xffff5bb1, 17), (.F1, 11, 0x895cd7be, 22),
  (.F1, 12, 0x6b901122, 7), (.F1, 13, 0xfd987193, 12), (.F1, 14, 0xa679438e, 17), (.F1, 15, 0x49b40821, 22),
  (.F2, 1, 0xf61e2562, 5), (.F2, 6, 0xc040b340, 9), (.F2, 11, 0x265e5a51, 14), (.F2, 0, 0xe9b6c7aa, 20),
  (.F2, 5, 0xd62f105d, 5), (.F2, 10, 0x02441453, 9), (.F2, 15, 0xd8a1e681, 14), (.F2, 4, 0xe7d3fbc8, 20),
  (.F2, 9, 0x21e1cde6, 5), (.F2, 14, 0xc33707d6, 9), (.F2, 3, 0xf4d50d87, 14), (.F2, 8, 0x455a14ed, 20),
  (.F2, 13, 0xa9e3e905, 5), (.F2, 2, 0xfcefa3f8, 9), (.F2, 7, 0x676f02d9, 14), (.F2, 12, 0x8d2a4c8a, 20),
  (.F3, 5, 0xfffa3942, 4), (.F3, 8, 0x8771f681, 11), (.F3, 11, 0x6d9d6122, 16), (.F3, 14, 0xfde5380c, 23),
  (.F3, 1, 0xa4beea44, 4), (.F3, 4, 0x4bdecfa9, 11), (.F3, 7, 0xf6bb4b60, 16), (.F3, 10, 0xbebfbc70, 23),
  (.F3, 13, 0x289b7ec6, 4), (.F3, 0, 0xeaa127fa, 11), (.F3, 3, 0xd4ef3085, 16), (.F3, 6, 0x04881d05, 23),
  (.F3, 9, 0xd9d4d039, 4), (.F3, 12, 0xe6db99e5, 11), (.F3, 15, 0x1fa27cf8, 16), (.F3, 2, 0xc4ac5665, 23),
  (.F4, 0, 0xf4292244, 6), (.F4, 7, 0x432aff97, 10), (.F4, 14, 0xab9423a7, 15), (.F4, 5, 0xfc93a039, 21),
  (.F4, 12, 0x655b59c3, 6), (.F4, 3, 0x8f0ccc92, 10), (.F4, 10, 0xffeff47d, 15), (.F4, 1, 0x85845dd1, 21),
  (.F4, 8, 0x6fa87e4f, 6), (.F4, 15, 0xfe2ce6e0, 10), (.F4, 6, 0xa3014314, 15), (.F4, 13, 0x4e0811a1, 21),
  (.F4, 4, 0xf7537e82, 6), (.F4, 11, 0xbd3af235, 10), (.F4, 2, 0x2ad7d2bb, 15), (.F4, 9, 0xeb86d391, 21)]

/-- `MD5_Transform`. -/
def transform (state : Words) (block : Bytes) : Words :=
  let w := steps.foldl (fun w (f, n, t, s) => md5step f w (word block n + t) s) state
  ⟨state.a + w.a, state.b + w.b, state.c + w.c, state.d + w.d⟩

/-! ### The context -/

/-- `MD5_CTX`; `in` is here `input`. -/
structure Context where
  state : Words
  bits0 : UInt32
  bits1 : UInt32
  input : Bytes
  size_input : input.length = 64

namespace Context

/-- `memcpy(in + pos, buf, len)`. -/
def memcpy (ctx : Context) (pos : Nat) (buf : Bytes) (h : pos + buf.length ≤ 64) : Context :=
  { ctx with
    input := memcpyAt ctx.input pos buf
    size_input := length_memcpyAt ctx.size_input h }

/-- `memset(in + pos, 0, n)`. -/
def memset (ctx : Context) (pos n : Nat) (h : pos + n ≤ 64) : Context :=
  ctx.memcpy pos (List.replicate n 0) (zeros_fit h)

/-- The number of bytes in `in`. -/
def count (ctx : Context) : Nat := ((ctx.bits0 >>> 3) &&& 0x3f).toNat

theorem count_eq (ctx : Context) : ctx.count = ctx.bits0.toNat / 8 % 64 := by
  rw [count, UInt32.toNat_and, UInt32.toNat_shiftRight]
  exact (Nat.and_two_pow_sub_one_eq_mod _ 6).trans (congrArg (· % 64) (Nat.shiftRight_eq_div_pow _ 3))

theorem count_lt (ctx : Context) : ctx.count < 64 := by
  rw [count_eq]
  exact Nat.mod_lt _ (by decide)

/-- The count of bits in `MD5_Update`. -/
def addBits (ctx : Context) (len : UInt32) : Context :=
  let t := ctx.bits0
  let ctx := { ctx with bits0 := t + (len <<< 3) }
  let ctx := if ctx.bits0 < t then { ctx with bits1 := ctx.bits1 + 1 } else ctx
  { ctx with bits1 := ctx.bits1 + (len >>> 29) }

end Context

def init (ctx : Context) : Context :=
  { ctx with state := ⟨0x67452301, 0xefcdab89, 0x98badcfe, 0x10325476⟩, bits0 := 0, bits1 := 0 }

/-- What `MD5_Update` is given: the length is an `unsigned int`. -/
abbrev Part := { buf : Bytes // buf.length < 2 ^ 32 }

/-- The loop over the blocks of 64 bytes, and the bytes that remain. -/
def updateBlocks (ctx : Context) (buf : Bytes) : Context :=
  if h : 64 ≤ buf.length then
    let ctx := ctx.memcpy 0 (buf.take 64) (by rw [List.length_take]; omega)
    updateBlocks { ctx with state := transform ctx.state ctx.input } (buf.drop 64)
  else ctx.memcpy 0 buf (rest_fits h)
termination_by buf.length

def update (ctx : Context) (part : Part) : Context :=
  let buf := part.val
  let t := ctx.count
  let ctx' := ctx.addBits (UInt32.ofNat buf.length)
  if t ≠ 0 then
    let rest := 64 - t
    if h : buf.length < rest then ctx'.memcpy t buf (by omega)
    else
      let ctx' := ctx'.memcpy t (buf.take rest) (by have := ctx.count_lt; rw [List.length_take]; omega)
      updateBlocks { ctx' with state := transform ctx'.state ctx'.input } (buf.drop rest)
  else updateBlocks ctx' buf

/-- What `MD5_Final` does before its last block. -/
def pad (ctx : Context) : Context :=
  let count := ctx.count
  have hcount := ctx.count_lt
  let ctx := ctx.memcpy count [0x80] (by rw [List.length_singleton]; omega)
  let p := count + 1
  let count := 64 - 1 - count
  let ctx :=
    if count < 8 then
      let ctx := ctx.memset p count (by omega)
      let ctx := { ctx with state := transform ctx.state ctx.input }
      ctx.memset 0 56 (by omega)
    else ctx.memset p (count - 8) (by omega)
  ctx.memcpy 56 (toLE 4 ctx.bits0.toNat ++ toLE 4 ctx.bits1.toNat) (by simp)

/-- `MD5_Final`: the digest, and the context that is left. The last `memset` is over the size of a pointer. -/
def final (ctx : Context) : Bytes × Context :=
  let ctx := pad ctx
  let state := transform ctx.state ctx.input
  (digestOf state, { ctx with state := { state with a := 0, b := 0 } })

end Zylib.Hashing.IdMD5
