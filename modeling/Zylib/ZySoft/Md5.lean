import Zylib.Cpp
import Zylib.KNet.Message
import Zylib.Lib.BlockHash

/-! MD5 of `zysoft/string/md5.h` (detail/ngx_md5.h): a context takes a message in parts, keeps in `buffer` what is not yet a
    block of 64 bytes, and pads the message at the end. -/

namespace Zylib.ZySoft.Md5
open LittleEndian
open KNet.MessageDecoder (memcpyAt)

/-- The members `a`, `b`, `c` and `d`. -/
structure Words where
  a : UInt32
  b : UInt32
  c : UInt32
  d : UInt32
deriving DecidableEq

/-! ### The transformation of a block -/

/-- The basic functions. -/
inductive Basic where
  | F
  | G
  | H
  | I
deriving DecidableEq

def Basic.apply : Basic → UInt32 → UInt32 → UInt32 → UInt32
  | F, x, y, z => z ^^^ (x &&& (y ^^^ z))
  | G, x, y, z => y ^^^ (z &&& (x ^^^ y))
  | H, x, y, z => x ^^^ y ^^^ z
  | I, x, y, z => y ^^^ (x ||| ~~~z)

/-- `SET(n)` and `GET(n)`: the `n`-th word of the block. -/
def get (p : Bytes) (n : Nat) : UInt32 := UInt32.ofNat (ofLE ((p.drop (n * 4)).take 4))

/-- `STEP(f, a, b, c, d, x, t, s)`. The next one has the registers one place on, `d, a, b, c`: they are renamed here. -/
def step (f : Basic) (w : Words) (x t s : UInt32) : Words :=
  let a := w.a + (f.apply w.b w.c w.d + x + t)
  let a := (a <<< s) ||| ((a &&& 0xffffffff) >>> (32 - s))
  let a := a + w.b
  ⟨w.d, a, w.b, w.c⟩

/-- The steps of the four rounds: the function, the word, the constant and the shift. -/
def steps : List (Basic × Nat × UInt32 × UInt32) := [
  -- Round 1
  (.F, 0, 0xd76aa478, 7), (.F, 1, 0xe8c7b756, 12), (.F, 2, 0x242070db, 17), (.F, 3, 0xc1bdceee, 22),
  (.F, 4, 0xf57c0faf, 7), (.F, 5, 0x4787c62a, 12), (.F, 6, 0xa8304613, 17), (.F, 7, 0xfd469501, 22),
  (.F, 8, 0x698098d8, 7), (.F, 9, 0x8b44f7af, 12), (.F, 10, 0xffff5bb1, 17), (.F, 11, 0x895cd7be, 22),
  (.F, 12, 0x6b901122, 7), (.F, 13, 0xfd987193, 12), (.F, 14, 0xa679438e, 17), (.F, 15, 0x49b40821, 22),
  -- Round 2
  (.G, 1, 0xf61e2562, 5), (.G, 6, 0xc040b340, 9), (.G, 11, 0x265e5a51, 14), (.G, 0, 0xe9b6c7aa, 20),
  (.G, 5, 0xd62f105d, 5), (.G, 10, 0x02441453, 9), (.G, 15, 0xd8a1e681, 14), (.G, 4, 0xe7d3fbc8, 20),
  (.G, 9, 0x21e1cde6, 5), (.G, 14, 0xc33707d6, 9), (.G, 3, 0xf4d50d87, 14), (.G, 8, 0x455a14ed, 20),
  (.G, 13, 0xa9e3e905, 5), (.G, 2, 0xfcefa3f8, 9), (.G, 7, 0x676f02d9, 14), (.G, 12, 0x8d2a4c8a, 20),
  -- Round 3
  (.H, 5, 0xfffa3942, 4), (.H, 8, 0x8771f681, 11), (.H, 11, 0x6d9d6122, 16), (.H, 14, 0xfde5380c, 23),
  (.H, 1, 0xa4beea44, 4), (.H, 4, 0x4bdecfa9, 11), (.H, 7, 0xf6bb4b60, 16), (.H, 10, 0xbebfbc70, 23),
  (.H, 13, 0x289b7ec6, 4), (.H, 0, 0xeaa127fa, 11), (.H, 3, 0xd4ef3085, 16), (.H, 6, 0x04881d05, 23),
  (.H, 9, 0xd9d4d039, 4), (.H, 12, 0xe6db99e5, 11), (.H, 15, 0x1fa27cf8, 16), (.H, 2, 0xc4ac5665, 23),
  -- Round 4
  (.I, 0, 0xf4292244, 6), (.I, 7, 0x432aff97, 10), (.I, 14, 0xab9423a7, 15), (.I, 5, 0xfc93a039, 21),
  (.I, 12, 0x655b59c3, 6), (.I, 3, 0x8f0ccc92, 10), (.I, 10, 0xffeff47d, 15), (.I, 1, 0x85845dd1, 21),
  (.I, 8, 0x6fa87e4f, 6), (.I, 15, 0xfe2ce6e0, 10), (.I, 6, 0xa3014314, 15), (.I, 13, 0x4e0811a1, 21),
  (.I, 4, 0xf7537e82, 6), (.I, 11, 0xbd3af235, 10), (.I, 2, 0x2ad7d2bb, 15), (.I, 9, 0xeb86d391, 21)]

/-- One turn of the loop of `ngx_md5_body`. After 64 steps the registers have their own names again. -/
def transform (saved : Words) (p : Bytes) : Words :=
  let w := steps.foldl (fun w (f, n, t, s) => step f w (get p n) t s) saved
  ⟨w.a + saved.a, w.b + saved.b, w.c + saved.c, w.d + saved.d⟩

/-- `ngx_md5_body`, for a size that is a multiple of 64 and not 0. -/
def body (w : Words) (data : Bytes) : Words := BlockHash.blocks transform 64 (data.length / 64) w data

/-! ### The context -/

structure Context where
  bytes : UInt64
  words : Words
  buffer : Bytes
  size_buffer : buffer.length = 64

theorem length_memcpyAt {b data : Bytes} {pos : Nat} (hb : b.length = 64) (h : pos + data.length ≤ 64) :
    (memcpyAt b pos data).length = 64 := by
  simp only [memcpyAt, List.length_append, List.length_take, List.length_drop, hb]
  omega

theorem zeros_fit {pos n : Nat} (h : pos + n ≤ 64) : pos + (List.replicate n (0 : UInt8)).length ≤ 64 := by
  rwa [List.length_replicate]

theorem rest_fits {data : Bytes} (h : ¬64 ≤ data.length) : 0 + data.length ≤ 64 := by omega

namespace Context

/-- `memcpy(&ctx->buffer[pos], data, size)`, which stays inside of the buffer. -/
def memcpy (ctx : Context) (pos : Nat) (data : Bytes) (h : pos + data.length ≤ 64) : Context :=
  { ctx with
    buffer := memcpyAt ctx.buffer pos data
    size_buffer := length_memcpyAt ctx.size_buffer h }

/-- `memset(&ctx->buffer[pos], 0, n)`. -/
def memzero (ctx : Context) (pos n : Nat) (h : pos + n ≤ 64) : Context :=
  ctx.memcpy pos (List.replicate n 0) (zeros_fit h)

/-- `bytes & 0x3f`. -/
def used (ctx : Context) : Nat := (ctx.bytes &&& 0x3f).toNat

theorem used_eq (ctx : Context) : ctx.used = ctx.bytes.toNat % 64 := by
  rw [used, UInt64.toNat_and]
  exact Nat.and_two_pow_sub_one_eq_mod _ 6

theorem used_lt (ctx : Context) : ctx.used < 64 := by
  rw [used_eq]
  exact Nat.mod_lt _ (by decide)

end Context

/-- `MD5_Init`; the buffer stays as it is. -/
def init (ctx : Context) : Context :=
  { ctx with words := ⟨0x67452301, 0xefcdab89, 0x98badcfe, 0x10325476⟩, bytes := 0 }

/-- What `ngx_md5_update` does when no bytes are kept. -/
def updateBlocks (ctx : Context) (data : Bytes) : Context :=
  if h : 64 ≤ data.length then
    let size := data.length - data.length % 64
    let ctx := { ctx with words := body ctx.words (data.take size) }
    ctx.memcpy 0 (data.drop size) (by rw [List.length_drop]; omega)
  else ctx.memcpy 0 data (rest_fits h)

/-- `MD5_Update`. -/
def update (ctx : Context) (data : Bytes) : Context :=
  let used := ctx.used
  let ctx' := { ctx with bytes := ctx.bytes + UInt64.ofNat data.length }
  if used ≠ 0 then
    let free := 64 - used
    if h : data.length < free then ctx'.memcpy used data (by omega)
    else
      let ctx' := ctx'.memcpy used (data.take free) (by have := ctx.used_lt; rw [List.length_take]; omega)
      updateBlocks { ctx' with words := body ctx'.words ctx'.buffer } (data.drop free)
  else updateBlocks ctx' data

/-- The bytes of a word, low byte first. -/
def wordBytes (w : UInt32) : Bytes := toLE 4 w.toNat

/-- What `ngx_md5_final` does before its last block. -/
def pad (ctx : Context) : Context :=
  let used := ctx.used
  have hused := ctx.used_lt
  let ctx := ctx.memcpy used [0x80] (by rw [List.length_singleton]; omega)
  let used := used + 1
  let free := 64 - used
  let ctx :=
    if free < 8 then
      let ctx := ctx.memzero used free (by omega)
      let ctx := { ctx with words := body ctx.words ctx.buffer }
      ctx.memzero 0 56 (by omega)
    else ctx.memzero used (free - 8) (by omega)
  let ctx := { ctx with bytes := ctx.bytes <<< 3 }
  ctx.memcpy 56 (toLE 8 ctx.bytes.toNat) (by simp)

def digestOf (w : Words) : Bytes := wordBytes w.a ++ wordBytes w.b ++ wordBytes w.c ++ wordBytes w.d

/-- `MD5_Final`: the digest, and the context that is left. -/
def final (ctx : Context) : Bytes × Context :=
  let ctx := pad ctx
  (digestOf (body ctx.words ctx.buffer),
    { bytes := 0, words := ⟨0, 0, 0, 0⟩, buffer := List.replicate 64 0, size_buffer := List.length_replicate })

/-! ### The digest of a whole message -/

/-- A message, the bit that ends it, zeros, and at the end of a block the number of its bits. -/
def padded (msg : Bytes) : Bytes :=
  msg ++ (0x80 :: List.replicate ((119 - msg.length % 64) % 64) 0 ++ toLE 8 (8 * msg.length))

def digest (msg : Bytes) : Bytes :=
  digestOf (BlockHash.absorb transform 64 ⟨0x67452301, 0xefcdab89, 0x98badcfe, 0x10325476⟩ (padded msg)).1

end Zylib.ZySoft.Md5
