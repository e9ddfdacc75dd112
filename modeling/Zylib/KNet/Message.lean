import Zylib.Cpp

/-! Messages of `knet` and their codec (KNetTypes.h, Message.h, detail/MessageDetail.cpp): the two
    service ids, each ended by a NUL, the message id and the payload. The key of a message is carried
    beside this buffer. -/

namespace Zylib.KNet
open LittleEndian

abbrev ServiceId := Bytes
abbrev MsgId := Int32
abbrev MsgType := Bytes
abbrev Key := Bytes

/-- `detail::SendMsg`. -/
structure SendMsg where
  fromSid : ServiceId
  toSid : ServiceId
  msgId : MsgId
  payload : MsgType
  key : Key
  buffer : Bytes := []
deriving DecidableEq

def SendMsg.invalid (m : SendMsg) : Bool := m.fromSid.isEmpty || m.toSid.isEmpty

structure ReceivedMsg where
  fromSid : ServiceId
  toSid : ServiceId
  msgId : MsgId
  payload : MsgType
  key : Key
deriving DecidableEq

namespace MessageDecoder

/-- A read outside the memory that a pointer refers to. -/
inductive Fault where
  | outOfBounds
deriving DecidableEq

/-! ### Encode -/

/-- `resize(n)` of a vector: cut, or filled with zeros. -/
def resize (b : Bytes) (n : Nat) : Bytes := b.take n ++ List.replicate (n - b.length) 0

/-- `memcpy` of `src` to the offset `pos` of `b`. -/
def memcpyAt (b : Bytes) (pos : Nat) (src : Bytes) : Bytes := b.take pos ++ src ++ b.drop (pos + src.length)

def encode (m : SendMsg) : SendMsg :=
  if m.fromSid.isEmpty || m.toSid.isEmpty then m
  else
    let buffer := resize m.buffer (m.fromSid.length + 1 + m.toSid.length + 1 + 4 + m.payload.length)
    let pos := 0
    let buffer := memcpyAt buffer pos m.fromSid
    let pos := pos + (m.fromSid.length + 1)
    let buffer := memcpyAt buffer pos m.toSid
    let pos := pos + (m.toSid.length + 1)
    let buffer := memcpyAt buffer pos (int32Bytes m.msgId)
    let pos := pos + 4
    let buffer := memcpyAt buffer pos m.payload
    { m with buffer }

/-! ### Decode -/

/-- The byte at `p + i`. -/
def load (p : Bytes) (i : Nat) : Except Fault UInt8 :=
  match p[i]? with
  | some c => .ok c
  | none => .error .outOfBounds

/-- The bytes from `p + a` up to `p + b`. -/
def range (p : Bytes) (a b : Nat) : Except Fault Bytes :=
  if a ≤ b ∧ b ≤ p.length then .ok ((p.take b).drop a) else .error .outOfBounds

/-- The loop that looks for the two NULs, with `n` bytes to go from `p + i`; `pFrom` is the first one. -/
def findNuls (p : Bytes) : Nat → Nat → Option Nat → Except Fault (Option Nat × Option Nat)
  | 0, _, pFrom => .ok (pFrom, none)
  | n + 1, i, pFrom => do
    let c ← load p i
    if c = 0 then
      match pFrom with
      | none => findNuls p n (i + 1) (some i)
      | some pFrom => .ok (some pFrom, some i)
    else findNuls p n (i + 1) pFrom

/-- What follows once both NULs are found, at `pFrom` and `pTo`. -/
def decodeFields (p : Bytes) (len : Nat) (key : Bytes) (keyLen pFrom pTo : Nat) :
    Except Fault (Option ReceivedMsg) := do
  let fromSid ← range p 0 pFrom
  if fromSid.isEmpty then return none
  let toSid ← range p (pFrom + 1) pTo
  if toSid.isEmpty then return none
  let pos := pTo + 1
  if pos + 4 > len then return none
  let msgId := int32OfBytes (← range p pos (pos + 4))
  let pos := pos + 4
  let rpcKey ← range key 0 keyLen
  let payload ← range p pos len
  return some { fromSid, toSid, msgId, payload, key := rpcKey }

/-- `MessageDecoder::Decode(p, len, key, key_len)`: `key` is `none` for a null pointer, and the result
    is `none` for a null one. -/
def decode (p : Bytes) (len : Nat) (key : Option Bytes) (keyLen : Nat) : Except Fault (Option ReceivedMsg) :=
  if len ≤ 4 then .ok none
  else
    match key with
    | none => .ok none
    | some key =>
      if keyLen = 0 then .ok none
      else
        match findNuls p len 0 none with
        | .error e => .error e
        | .ok (some pFrom, some pTo) => decodeFields p len key keyLen pFrom pTo
        | .ok _ => .ok none

end MessageDecoder

end Zylib.KNet
