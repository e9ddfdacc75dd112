import Zylib.ZySoft.Channel
import Zylib.ZySoft.MessageDecoder
import Zylib.Lib.Run

/-! Two channels of `zysoft/src/network` at the ends of a connection, and the bytes that go from one to the other. What the receiver
    itself writes, and what the sender reads, is left open. -/

namespace Zylib.ZySoft

/-- What `Decode` gives, when it returns. -/
def decodeAll (buffer : FlatBuffer) : List Message × FlatBuffer :=
  match decode (buffer.length + 1) buffer [] with
  | .ok r => r
  | .error _ => ([], buffer)

/-- `READ_BUFFER`. -/
def readBufferSize : Nat := 1024 * 16

/-- The sender, of whose write under way the stack has taken `progress` bytes, all the bytes that it has taken, and the receiver, to which
    `arrived` of these have been handed. -/
structure Link where
  sender : ChannelState
  receiver : ChannelState
  progress : Nat := 0
  wire : Bytes := []
  arrived : Nat := 0

namespace Link

inductive Action where
  /-- `SendMsg(data, length)` of the sender. -/
  | sendData (data : Bytes)
  | sender (a : ChannelState.Action)
  | receiver (a : ChannelState.Action)
  /-- The stack takes up to `n` bytes more of the write under way. -/
  | takes (n : Nat)

/-- `Init` is called once, messages are sent by `SendMsg(data, length)`, and an `async_write` succeeds when all its bytes have been
    taken. -/
def senderStep (l : Link) : ChannelState.Action → Except ChannelState.Fault Link
  | .init =>
    if l.sender.socket = none then (l.sender.step decodeAll .init).map fun sender => { l with sender } else .error .disabled
  | .sendMsg _ => .error .disabled
  | .writeEnds number ec length =>
    if ec = 0 → ∀ w ∈ l.sender.writes, l.progress = w.msg.length then
      (l.sender.step decodeAll (.writeEnds number ec length)).map fun sender => { l with sender }
    else .error .disabled
  | .runWrite number => (l.sender.step decodeAll (.runWrite number)).map fun sender => { l with sender, progress := 0 }
  | a => (l.sender.step decodeAll a).map fun sender => { l with sender }

/-- An `async_read_some` succeeds with the next of the bytes that are on the way. -/
def receiverStep (l : Link) : ChannelState.Action → Except ChannelState.Fault Link
  | .init =>
    if l.receiver.socket = none then (l.receiver.step decodeAll .init).map fun receiver => { l with receiver }
    else .error .disabled
  | .readEnds number ec bytes =>
    if ec = 0 then
      if bytes ≠ [] ∧ bytes.length ≤ readBufferSize ∧ bytes <+: l.wire.drop l.arrived then
        (l.receiver.step decodeAll (.readEnds number ec bytes)).map fun receiver =>
          { l with receiver, arrived := l.arrived + bytes.length }
      else .error .disabled
    else if bytes = [] then
      (l.receiver.step decodeAll (.readEnds number ec bytes)).map fun receiver => { l with receiver }
    else .error .disabled
  | a => (l.receiver.step decodeAll a).map fun receiver => { l with receiver }

/-- The stack of the sender takes bytes of a write while the socket is open. -/
def takes (l : Link) (n : Nat) : Except ChannelState.Fault Link :=
  match l.sender.writes with
  | [w] =>
    if w.outcome = none ∧ w.connection ∉ l.sender.closed then
      let bytes := (w.msg.bytes.drop l.progress).take n
      .ok { l with wire := l.wire ++ bytes, progress := l.progress + bytes.length }
    else .error .disabled
  | _ => .error .disabled

def step (l : Link) : Action → Except ChannelState.Fault Link
  | .sendData data => .ok { l with sender := l.sender.sendMsg (encode (some data) data.length .empty) }
  | .sender a => l.senderStep a
  | .receiver a => l.receiverStep a
  | .takes n => l.takes n

/-- The messages of the calls of `OnReceivedMessage`. -/
def received (log : List ChannelEvent) : List Message :=
  log.flatMap fun
    | .onReceivedMessage msgs => msgs
    | _ => []

end Link

end Zylib.ZySoft
