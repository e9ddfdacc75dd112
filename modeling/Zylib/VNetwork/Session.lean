import Zylib.Lib.Run
import Zylib.VNetwork.ChatMessage

/-! How `vnetwork` reads: `ServerSession` and `TcpClient` read each frame into the one message that they have, and pass it to
    the event handler by a shared pointer. -/

namespace Zylib.VNetwork
open LittleEndian

/-- Who reads; both have a loop of their own. -/
inductive Reader where
  | serverSession
  | tcpClient
deriving DecidableEq

/-- The read that is outstanding, with the bytes that have arrived for it. -/
inductive Reading where
  | header (arrived : Bytes)
  | body (arrived : Bytes)
  | closed

/-- `received` has the bodies of the frames of which `OnReceived` was told, each time by a pointer to `readMsg`. -/
structure Session where
  readMsg : ChatMessage
  reading : Reading
  received : List Bytes

namespace Session

def doReadHeader (reader : Reader) (s : Session) : Session :=
  match reader with
  | .serverSession => { s with readMsg := s.readMsg.reset, reading := .header [] }
  | .tcpClient => { s with reading := .header [] }

def doReadBody (s : Session) : Session := { s with reading := .body [] }

def onReceived (s : Session) (body : Bytes) : Session := { s with received := s.received ++ [body] }

def shutdown (s : Session) : Session := { s with reading := .closed }

/-- `ServerSession::Start`, or a client that is connected. -/
def start (reader : Reader) : Session :=
  doReadHeader reader { readMsg := .new, reading := .header [], received := [] }

/-- The handler of `DoReadHeader`. -/
def onHeader (reader : Reader) (s : Session) : Session :=
  match s.readMsg.decodeHeader with
  | (true, readMsg) =>
    let s := { s with readMsg }
    if readMsg.getBodyLength = 0 then doReadHeader reader (s.onReceived []) else s.doReadBody
  | (false, readMsg) => shutdown { s with readMsg }

/-- The socket: a byte of what the peer has sent, or an error. -/
inductive Input where
  | byte (b : UInt8)
  | error

/-- A byte is put into the message as it arrives, and the last of a read calls the handler. -/
def onByte (reader : Reader) (s : Session) (b : UInt8) : Session :=
  match s.reading with
  | .header arrived =>
    let s := { s with readMsg := s.readMsg.write arrived.length [b], reading := .header (arrived ++ [b]) }
    if arrived.length + 1 < HEADER_LENGTH then s else onHeader reader s
  | .body arrived =>
    let s := { s with readMsg := s.readMsg.write (HEADER_LENGTH + arrived.length) [b], reading := .body (arrived ++ [b]) }
    if arrived.length + 1 < s.readMsg.getBodyLength then s else doReadHeader reader (s.onReceived (arrived ++ [b]))
  | .closed => s

def step (reader : Reader) (s : Session) : Input → Except Empty Session
  | .byte b => .ok (onByte reader s b)
  | .error => .ok s.shutdown

/-! ### Kept pointers -/

/-- The message holds a body: it has its length and its bytes. -/
def Holds (m : ChatMessage) (body : Bytes) : Prop :=
  m.getBodyLength = body.length ∧ m.body.take m.getBodyLength = body

/-- Each pointer that was passed to `OnReceived` still holds the body of its frame. -/
def Stable (s : Session) : Prop := ∀ body ∈ s.received, Holds s.readMsg body

/-- The length of the body that a header announces, if it is one that is taken. -/
def announced (header : Bytes) : Option Nat :=
  let bodyLen := int32OfBytes (header.take 4)
  if bodyLen < 0 ∨ (MAX_BODY_LENGTH : Int) < bodyLen.toInt then none else some bodyLen.toInt.toNat

/-- The input leaves what the pointers hold: a header that is taken announces a body of which all the frames so far had the
    zeros, a byte of a body behind the first frame is zero, and a server does not come to the end of a body. -/
def Input.Leaves (reader : Reader) (s : Session) : Input → Prop
  | .error => True
  | .byte b =>
    match s.reading with
    | .header arrived => arrived.length + 1 = HEADER_LENGTH → ∀ n, announced (arrived ++ [b]) = some n →
        ∀ body ∈ s.received, body = List.replicate n 0
    | .body arrived => (s.received ≠ [] → b = 0) ∧
        (reader = .serverSession → arrived.length + 1 ≠ s.readMsg.getBodyLength)
    | .closed => True

end Session

end Zylib.VNetwork
