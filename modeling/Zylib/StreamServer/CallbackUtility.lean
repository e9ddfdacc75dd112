import Zylib.Lib.Drain
import Zylib.ByteBuffer

/-! The messages of `stream_server`: a length, which counts the eight bytes of the head, a message id
    and the data. -/

namespace Zylib.StreamServer
open Drain

/-- `m_msg_id` and `m_data` of a `CallbackMessage`. -/
structure CallbackMessage where
  msgId : Int32 := 0
  data : Bytes := []
deriving DecidableEq

/-- The message whose data is the head and the data of the frame; its id is not set. -/
def callbackMessageEncoder (msgId : Int32) (data : Bytes) : CallbackMessage :=
  let len := Int32.ofNat (8 + data.length)
  { data := LittleEndian.int32Bytes len ++ LittleEndian.int32Bytes msgId ++ data }

/-- One turn of the loop of `callbackMessageDecoder`; `none` is its `break`. -/
def decodeTurn : ByteBuffer.M (Option CallbackMessage) := do
  let bufferSize := Int32.ofNat (← ByteBuffer.byteSize)
  if bufferSize < 8 then return none
  let len := LittleEndian.int32OfBytes (← ByteBuffer.readBytes 4)
  if len < 8 then throw (.runtimeError ("read head len error. " ++ toString len))
  if len ≤ bufferSize then
    ByteBuffer.readSkip 4
    let msgId := LittleEndian.int32OfBytes (← ByteBuffer.readBytes 4)
    ByteBuffer.readSkip 4
    if len - 8 > 0 then
      -- The data is read as a vector: everything that is unread.
      let data ← ByteBuffer.takeVector
      return some { msgId, data }
    else
      return some { msgId }
  else
    return none

/-- A turn that breaks has only looked at the buffer. -/
def decodeOnce (b : ByteBuffer) : Except ByteBuffer.Exception (Option (CallbackMessage × ByteBuffer)) :=
  match decodeTurn b with
  | .ok (some m) b' => .ok (some (m, b'))
  | .ok none _ => .ok none
  | .error e _ => .error e

/-- `callbackMessageDecoder`, with at most `turns` turns of its loop. -/
def callbackMessageDecoder (turns : Nat) (b : ByteBuffer) :
    Except (Stop ByteBuffer.Exception) (List CallbackMessage × ByteBuffer) :=
  drain decodeOnce turns b []

/-- `RWHandler::doReadCallback` on the read buffer and the bytes of a successful read: the messages it
    hands on. An exception of the decoder closes the connection. -/
def RWHandler.doReadCallback (turns : Nat) (b : ByteBuffer) (bytes : Bytes) :
    Except (Stop ByteBuffer.Exception) (List CallbackMessage × ByteBuffer) :=
  if bytes.length > 0 then
    match ByteBuffer.append (some bytes) b with
    | .error e _ => .error (.threw e)
    | .ok _ b =>
      match callbackMessageDecoder turns b with
      | .error e => .error e
      | .ok (msgs, b) =>
        match shrinkToFit b with
        | .error e _ => .error (.threw e)
        | .ok _ b => .ok (msgs, b)
  else
    .ok ([], b)

end Zylib.StreamServer
