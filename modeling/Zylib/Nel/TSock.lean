import Zylib.ByteBuffer

/-! The reading side of a `nel` socket. -/

namespace Zylib.Nel

/-- A decoder of messages `β`: the messages it puts out for a buffer, and what it makes of the buffer
    it was given. `ByteToMessage_Callback` takes the buffer by value. -/
abbrev ByteToMessageCallback (β : Type) := ByteBuf → List β × ByteBuf

/-- `m_sock_hdl` and `m_msg`. -/
structure NetworkMessage (β : Type) where
  sockHdl : Nat
  msg : β
deriving DecidableEq

/-- The handle of a socket and its `m_byte_buf`. -/
structure TSock where
  sockHdl : Nat
  byteBuf : ByteBuf := {}
deriving DecidableEq

/-- A successful read of `TSock::doRead`: the messages it passes to `m_received_msg_cb`. -/
def TSock.doRead {β : Type} (decoder : ByteToMessageCallback β) (sock : TSock) (bytes : Bytes) :
    Except ByteBuffer.Exception (List (NetworkMessage β) × TSock) :=
  if bytes.length > 0 then
    match ByteBuffer.append (some bytes) sock.byteBuf with
    | .error e _ => .error e
    | .ok _ byteBuf =>
      -- The decoder works on a copy of the buffer, which is dropped.
      let (out, _) := decoder byteBuf
      .ok (out.map fun msg => { sockHdl := sock.sockHdl, msg }, { sock with byteBuf })
  else
    .ok ([], sock)

end Zylib.Nel
