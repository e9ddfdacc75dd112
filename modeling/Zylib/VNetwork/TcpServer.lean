import Zylib.Lib.Run
import Zylib.VNetwork.ChatMessage

/-! `TcpServer` of `vnetwork` with its sessions. One thread runs the `io_service`: it takes the posted functions in the order in
    which they were posted, and the handlers of the sockets at any time between them. `AsyncSend` and `AsyncClose` post, from any
    thread. -/

namespace Zylib.VNetwork
open Run

/-- What `ServerEvent` is told of a session. -/
inductive ServerEvent where
  | accepted
  | received (body : Bytes)
  | closed
deriving DecidableEq

/-- `disabled` is a step that is not possible in the state, `overlap` a second operation of its kind on one socket. -/
inductive TcpServer.Fault where
  | disabled
  | overlap
  | emptyQueue
  | bodyTooLong
deriving DecidableEq

/-- Whose bytes an `async_read` waits for. -/
inductive Part where
  | header
  | body
deriving DecidableEq

/-- How an operation has ended; a read that fails may have got some of its bytes. -/
inductive Outcome where
  | ok (bytes : Bytes)
  | error (bytes : Bytes)

/-- `reading` and `writing` are the operations under way, with their outcome while the handler waits; of a write they have the
    bytes that the socket has not taken. `wire` has the bytes that it took, `sent` the messages that were put into
    `write_msgs_`, `input` the bytes of the reads that have succeeded, `events` what the event handler was told. -/
structure ServerSession where
  index : Int64
  readMsg : ChatMessage := .new
  writeMsgs : List ChatMessage := []
  closed : Bool := false
  reading : Option (Part × Option Outcome) := none
  writing : Option (Bytes × Option Bool) := none
  wire : Bytes := []
  sent : List ChatMessage := []
  input : Bytes := []
  events : List ServerEvent := []

namespace ServerSession
open TcpServer (Fault)

/-- The bytes of a message, as `async_write` takes them. -/
def frame (m : ChatMessage) : Bytes := m.data.take m.length

/-- `async_read`, which fails at once on a socket that is closed. -/
def asyncRead (s : ServerSession) (part : Part) : Except Fault ServerSession :=
  match s.reading with
  | some _ => .error .overlap
  | none => .ok { s with reading := some (part, if s.closed then some (.error []) else none) }

def asyncWrite (s : ServerSession) (bytes : Bytes) : Except Fault ServerSession :=
  match s.writing with
  | some _ => .error .overlap
  | none => .ok { s with writing := some (bytes, if s.closed then some false else none) }

def doReadHeader (s : ServerSession) : Except Fault ServerSession :=
  { s with readMsg := s.readMsg.reset }.asyncRead .header

def doReadBody (s : ServerSession) : Except Fault ServerSession := s.asyncRead .body

def doWrite (s : ServerSession) : Except Fault ServerSession :=
  match s.writeMsgs with
  | [] => .error .emptyQueue
  | front :: _ => s.asyncWrite (frame front)

/-- `Shutdown`, and whether it calls `SessionLeave`. -/
def shutdown (s : ServerSession) : ServerSession × Bool :=
  if s.closed then (s, false)
  else ({ s with closed := true, events := s.events ++ [.closed] }, true)

def onReceived (s : ServerSession) : ServerSession :=
  { s with events := s.events ++ [.received (s.readMsg.body.take s.readMsg.getBodyLength)] }

/-- A function that does not call `SessionLeave`. -/
def stays (r : Except Fault ServerSession) : Except Fault (ServerSession × Bool) := r.map (·, false)

/-- The handler of `DoReadHeader`. -/
def onHeader (s : ServerSession) : Outcome → Except Fault (ServerSession × Bool)
  | .error bytes => .ok { s with readMsg := s.readMsg.write 0 bytes }.shutdown
  | .ok bytes =>
    let s := { s with input := s.input ++ bytes }
    match (s.readMsg.write 0 bytes).decodeHeader with
    | (true, readMsg) =>
      let s := { s with readMsg }
      if readMsg.getBodyLength = 0 then stays s.onReceived.doReadHeader else stays s.doReadBody
    | (false, readMsg) => .ok { s with readMsg }.shutdown

/-- The handler of `DoReadBody`. -/
def onBody (s : ServerSession) : Outcome → Except Fault (ServerSession × Bool)
  | .error bytes => .ok { s with readMsg := s.readMsg.write HEADER_LENGTH bytes }.shutdown
  | .ok bytes =>
    let s := { s with readMsg := s.readMsg.write HEADER_LENGTH bytes, input := s.input ++ bytes }
    stays s.onReceived.doReadHeader

/-- How many bytes the read waits for. -/
def needed (s : ServerSession) : Part → Nat
  | .header => HEADER_LENGTH
  | .body => s.readMsg.getBodyLength

/-- The outcome has all the bytes of the read, or is an error. -/
def Ends (s : ServerSession) (part : Part) : Outcome → Prop
  | .ok bytes => bytes.length = s.needed part
  | .error bytes => bytes.length ≤ s.needed part

instance (s : ServerSession) (part : Part) : (outcome : Outcome) → Decidable (s.Ends part outcome)
  | .ok _ => inferInstanceAs (Decidable (_ = _))
  | .error _ => inferInstanceAs (Decidable (_ ≤ _))

def readEnds (s : ServerSession) (outcome : Outcome) : Except Fault ServerSession :=
  match s.reading with
  | some (part, none) =>
    if s.Ends part outcome then .ok { s with reading := some (part, some outcome) } else .error .disabled
  | _ => .error .disabled

def runRead (s : ServerSession) : Except Fault (ServerSession × Bool) :=
  match s.reading with
  | some (.header, some outcome) => { s with reading := none }.onHeader outcome
  | some (.body, some outcome) => { s with reading := none }.onBody outcome
  | _ => .error .disabled

/-- The socket takes some of the bytes of the write; with the last of them it ends. -/
def takes (s : ServerSession) (n : Nat) : Except Fault ServerSession :=
  match s.writing with
  | some (rest, none) =>
    .ok { s with
      wire := s.wire ++ rest.take n
      writing := some (rest.drop n, if (rest.drop n).isEmpty then some true else none) }
  | _ => .error .disabled

def writeFails (s : ServerSession) : Except Fault ServerSession :=
  match s.writing with
  | some (rest, none) => .ok { s with writing := some (rest, some false) }
  | _ => .error .disabled

/-- The handler of `DoWrite`. -/
def runWrite (s : ServerSession) : Except Fault (ServerSession × Bool) :=
  match s.writing with
  | some (_, some true) =>
    match s.writeMsgs with
    | [] => .error .emptyQueue
    | _ :: rest =>
      let s := { s with writing := none, writeMsgs := rest }
      if rest.isEmpty then .ok (s, false) else stays s.doWrite
  | some (_, some false) => .ok { s with writing := none }.shutdown
  | _ => .error .disabled

/-- The function that `AsyncSend` posts. -/
def send (s : ServerSession) (msg : ChatMessage) : Except Fault ServerSession :=
  let write_in_progress := !s.writeMsgs.isEmpty
  let s := { s with writeMsgs := s.writeMsgs ++ [msg], sent := s.sent ++ [msg] }
  if write_in_progress then .ok s else s.doWrite

inductive Action where
  | readEnds (outcome : Outcome)
  | runRead
  | takes (n : Nat)
  | writeFails
  | runWrite
  | send (msg : ChatMessage)
  | shutdown

def step (s : ServerSession) : Action → Except Fault (ServerSession × Bool)
  | .readEnds outcome => stays (s.readEnds outcome)
  | .runRead => s.runRead
  | .takes n => stays (s.takes n)
  | .writeFails => stays s.writeFails
  | .runWrite => s.runWrite
  | .send msg => stays (s.send msg)
  | .shutdown => .ok s.shutdown

end ServerSession

/-- A function that is posted, with the place of the session that it belongs to. -/
inductive Posted where
  | send (session : Nat) (msg : ChatMessage)
  | close (session : Nat)

/-- The sessions in the order in which they were accepted; their places stand for the pointers to them. -/
structure TcpServer where
  indexGenerator : Int64 := 0
  sessions : List ServerSession := []
  sessionMap : List (Int64 × Nat) := []
  posted : List Posted := []

namespace TcpServer

/-- `session_map_[index] = session`. -/
def sessionJoin (s : TcpServer) (index : Int64) (session : Nat) : TcpServer :=
  { s with sessionMap := s.sessionMap.filter (·.1 ≠ index) ++ [(index, session)] }

def sessionLeave (s : TcpServer) (index : Int64) : TcpServer :=
  { s with sessionMap := s.sessionMap.filter (·.1 ≠ index) }

/-- `NextIndex`. -/
def nextIndex (s : TcpServer) : Int64 × TcpServer :=
  let index := s.indexGenerator + 1
  (index, { s with indexGenerator := index })

/-- The handler of `DoAccept` for a connection; after an error it only accepts again. -/
def accept (s : TcpServer) : Except Fault TcpServer :=
  let (index, s) := s.nextIndex
  let session : ServerSession := { index }
  match session.doReadHeader with
  | .error e => .error e
  | .ok session =>
    let s := s.sessionJoin index s.sessions.length
    .ok { s with sessions := s.sessions ++ [{ session with events := session.events ++ [.accepted] }] }

/-- A function of the session runs. -/
def sessionStep (s : TcpServer) (i : Nat) (a : ServerSession.Action) : Except Fault TcpServer :=
  match s.sessions[i]? with
  | none => .error .disabled
  | some session =>
    match session.step a with
    | .error e => .error e
    | .ok (session, leaves) =>
      let s := { s with sessions := s.sessions.set i session }
      .ok (if leaves then s.sessionLeave session.index else s)

/-- `AsyncSend`; what `Create` does with more than `INT32_MAX` bytes is undefined. -/
def asyncSend (s : TcpServer) (i : Nat) (data : Bytes) : Except Fault TcpServer :=
  if i < s.sessions.length then
    match ChatMessage.create data .new with
    | none => .error .bodyTooLong
    | some msg => .ok { s with posted := s.posted ++ [.send i msg] }
  else .error .disabled

def asyncClose (s : TcpServer) (i : Nat) : Except Fault TcpServer :=
  if i < s.sessions.length then .ok { s with posted := s.posted ++ [.close i] } else .error .disabled

def runPosted (s : TcpServer) : Except Fault TcpServer :=
  match s.posted with
  | [] => .error .disabled
  | .send i msg :: posted => { s with posted }.sessionStep i (.send msg)
  | .close i :: posted => { s with posted }.sessionStep i .shutdown

inductive Action where
  | accept
  | readEnds (session : Nat) (outcome : Outcome)
  | runRead (session : Nat)
  | takes (session n : Nat)
  | writeFails (session : Nat)
  | runWrite (session : Nat)
  | asyncSend (session : Nat) (data : Bytes)
  | asyncClose (session : Nat)
  | runPosted

def step (s : TcpServer) : Action → Except Fault TcpServer
  | .accept => s.accept
  | .readEnds i outcome => s.sessionStep i (.readEnds outcome)
  | .runRead i => s.sessionStep i .runRead
  | .takes i n => s.sessionStep i (.takes n)
  | .writeFails i => s.sessionStep i .writeFails
  | .runWrite i => s.sessionStep i .runWrite
  | .asyncSend i data => s.asyncSend i data
  | .asyncClose i => s.asyncClose i
  | .runPosted => s.runPosted

end TcpServer

end Zylib.VNetwork
