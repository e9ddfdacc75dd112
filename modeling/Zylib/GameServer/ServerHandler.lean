import Zylib.KNet.Message

/-! The frames of `game_server`: what `NetworkService::sendMessage` writes, and `ServerHandler`, which reads the head and
    the body of one frame after the other and hands the message to the world. -/

namespace Zylib.GameServer
open LittleEndian
open KNet.MessageDecoder (resize memcpyAt)

structure NetworkMsg where
  msgId : Int32
  data : Bytes
deriving DecidableEq

/-! ### Writing -/

inductive SendFault where
  | lengthError
  | outOfBounds
deriving DecidableEq

/-- The buffer that `NetworkService::sendMessage` hands to the connection, if it hands it one. -/
def sendMessage (msg : NetworkMsg) : Except SendFault (Option Bytes) :=
  if msg.data.isEmpty then .ok none
  else
    let total_len := Int32.ofNat (4 + 4 + msg.data.length)
    let size := toSizeT total_len.toInt
    if vectorMaxSize < size then .error .lengthError
    else
      let buffer := List.replicate size 0
      -- a length that does not fit in an `int32_t` makes a buffer that is too small
      if size < 8 + msg.data.length then .error .outOfBounds
      else
        let buffer := memcpyAt buffer 0 (int32Bytes total_len)
        let buffer := memcpyAt buffer 4 (int32Bytes msg.msgId)
        .ok (some (memcpyAt buffer 8 msg.data))

/-- The stream of the buffers that are handed to the connection for the messages. -/
def sent (msgs : List NetworkMsg) : Bytes :=
  msgs.flatMap fun msg =>
    match sendMessage msg with
    | .ok (some buffer) => buffer
    | _ => []

/-! ### Reading -/

/-- The text at the front of a buffer, up to the first byte 0. -/
def cString (b : Bytes) : Bytes := b.takeWhile (· ≠ 0)

/-- `received` are the calls of `World::networkReceviedMsg`. -/
structure ServerHandler where
  headBuffer : Bytes := List.replicate 8 0
  bodyBuffer : Bytes := []
  totalLen : Int32 := 0
  msgId : Int32 := 0
  isClosed : Bool := false
  received : List NetworkMsg := []
deriving DecidableEq

/-- `async_read` of exactly `n` bytes: these and the rest of the stream, or the end of the stream. -/
def asyncRead (n : Nat) (stream : Bytes) : Option (Bytes × Bytes) :=
  if n ≤ stream.length then some (stream.take n, stream.drop n) else none

theorem length_of_asyncRead {n : Nat} {stream bytes rest : Bytes} (h : asyncRead n stream = some (bytes, rest)) :
    bytes.length = n ∧ rest.length + n = stream.length := by
  unfold asyncRead at h
  split at h
  · cases h
    rw [List.length_take, List.length_drop]
    omega
  · cases h

namespace ServerHandler

def onClosed (h : ServerHandler) : ServerHandler := { h with isClosed := true }

/-- What is done when the read that `readHead` starts is done. -/
def readHead (h : ServerHandler) (head : Bytes) : ServerHandler :=
  let h := { h with
    headBuffer := head
    totalLen := int32OfBytes (head.take 4)
    msgId := int32OfBytes ((head.drop 4).take 4) }
  if h.totalLen.toInt ≤ 8 ∨ 1024 < h.totalLen.toInt then h.onClosed
  else { h with bodyBuffer := resize h.bodyBuffer (toSizeT (h.totalLen.toInt - 8 + 1)) }

/-- What is done when the read that `readBody` starts is done. -/
def readBody (h : ServerHandler) (body : Bytes) : ServerHandler :=
  let msg := { msgId := h.msgId, data := cString (memcpyAt h.bodyBuffer 0 body) }
  { h with received := h.received ++ [msg], headBuffer := List.replicate 8 0, bodyBuffer := [] }

/-- The handler after it has read the stream, up to its end or until it has closed the connection. -/
def readStream (h : ServerHandler) (stream : Bytes) : ServerHandler :=
  match _hhead : asyncRead (4 + 4) stream with
  | none => h.onClosed
  | some (head, rest) =>
    let h := h.readHead head
    if h.isClosed then h
    else
      match _hbody : asyncRead (h.bodyBuffer.length - 1) rest with
      | none => h.onClosed
      | some (body, rest) => (h.readBody body).readStream rest
termination_by stream.length
decreasing_by
  have := (length_of_asyncRead _hhead).2
  have := (length_of_asyncRead _hbody).2
  omega

end ServerHandler

end Zylib.GameServer
