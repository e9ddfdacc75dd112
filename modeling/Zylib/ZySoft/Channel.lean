import Zylib.ZySoft.Message

/-! `Channel` of `zysoft/src/network` (Channel.h): the write queue, the reads and the timers of a
    connection. The handlers of a channel run one at a time on the thread of its executor. The callbacks
    of the event may call `SendMsg` and `Shutdown`, which only post a handler. -/

namespace Zylib.ZySoft

structure ChannelOption where
  readTimeoutSeconds : Nat := 0
  writeTimeoutSeconds : Nat := 0
deriving DecidableEq

/-- `ECloseType`. -/
inductive CloseType where
  | active
  | read
  | write
  | readTimeout
  | writeTimeout
deriving DecidableEq

/-- The value of an `error_code`; 0 is success. -/
abbrev ErrorCode := Nat

/-- The calls of `Init` and of the members of the event. -/
inductive ChannelEvent where
  | init
  | onRead (ec : ErrorCode) (length : Nat)
  | onWrite (ec : ErrorCode) (length : Nat) (msg : Message)
  | onReceivedMessage (msgs : List Message)
  | onClosed (type : CloseType)
deriving DecidableEq

/-- A node of the list `m_write_buffer`. -/
structure Node where
  number : Nat
  msg : Message
deriving DecidableEq

inductive TimerState where
  | pending
  | expired
  | canceled
deriving DecidableEq

structure Timer where
  number : Nat
  read : Bool
  state : TimerState := .pending
deriving DecidableEq

/-- An `async_write`, with the node and the message that its buffer is part of. The outcome is the error code
    and the length once the operation has ended and its handler is ready to run. -/
structure WriteOp where
  number : Nat
  connection : Nat
  node : Nat
  msg : Message
  timer : Option Nat
  outcome : Option (ErrorCode × Nat) := none
deriving DecidableEq

/-- An `async_read_some`. -/
structure ReadOp where
  number : Nat
  connection : Nat
  timer : Option Nat
  outcome : Option (ErrorCode × Nat) := none
deriving DecidableEq

/-- A handler that `SendMsg` or `Shutdown` has posted. -/
inductive Posted where
  | sendMsg (msg : Message)
  | shutdown
deriving DecidableEq

def Posted.msg? : Posted → Option Message
  | sendMsg msg => some msg
  | shutdown => none

/-- The members; the sockets that were closed (each `Init` brings the socket of a new connection); the
    operations, timers and handlers under way; the messages that `SendMsg` posted and those that were handed
    to `async_write`; and the calls of the event. -/
structure ChannelState where
  opt : ChannelOption
  opened : Bool := false
  socket : Option Nat := none
  writeBuffer : List Node := []
  readFixedBuffer : Bytes := []
  readBuffer : FlatBuffer := ⟨[]⟩
  closed : List Nat := []
  writes : List WriteOp := []
  reads : List ReadOp := []
  timers : List Timer := []
  posted : List Posted := []
  made : Nat := 0
  sent : List Message := []
  handed : List Message := []
  log : List ChannelEvent := []
deriving DecidableEq

namespace ChannelState

/-- `disabled` is a step that is not possible in the state; the others are a null `m_socket` that is used and
    the front of an empty list. -/
inductive Fault where
  | disabled
  | nullSocket
  | emptyList
deriving DecidableEq

def emit (c : ChannelState) (e : ChannelEvent) : ChannelState := { c with log := c.log ++ [e] }

/-! ### Timers -/

def createTimer (c : ChannelState) (seconds : Nat) (read : Bool) : Option Nat × ChannelState :=
  if seconds = 0 then (none, c)
  else (some c.made, { c with timers := c.timers ++ [⟨c.made, read, .pending⟩], made := c.made + 1 })

/-- `TimerCancel`: the handler of a timer that has expired runs all the same. -/
def timerCancel (c : ChannelState) (timer : Option Nat) : ChannelState :=
  { c with timers := c.timers.map fun t => if some t.number = timer ∧ t.state = .pending then { t with state := .canceled } else t }

/-! ### DoClosed, DoWrite and DoRead -/

def doClosed (c : ChannelState) (type : CloseType) : Except Fault ChannelState :=
  if c.opened then
    match c.socket with
    | none => .error .nullSocket
    | some connection =>
      .ok ({ c with opened := false, closed := connection :: c.closed }.emit (.onClosed type))
  else .ok c

def doWrite (c : ChannelState) : Except Fault ChannelState :=
  let (timer, c) := c.createTimer c.opt.writeTimeoutSeconds false
  match c.socket with
  | none => .error .nullSocket
  | some connection =>
    match c.writeBuffer with
    | [] => .error .emptyList
    | node :: _ =>
      .ok { c with
        writes := c.writes ++ [⟨c.made, connection, node.number, node.msg, timer, none⟩]
        made := c.made + 1
        handed := c.handed ++ [node.msg] }

def doRead (c : ChannelState) : Except Fault ChannelState :=
  let (timer, c) := c.createTimer c.opt.readTimeoutSeconds true
  match c.socket with
  | none => .error .nullSocket
  | some connection =>
    .ok { c with reads := c.reads ++ [⟨c.made, connection, timer, none⟩], made := c.made + 1 }

/-- The handler of an `async_write`; `front` has been moved from while `OnWrite` is called. -/
def writeHandler (c : ChannelState) (timer : Option Nat) (ec : ErrorCode) (length : Nat) : Except Fault ChannelState :=
  let c := c.timerCancel timer
  match c.writeBuffer with
  | [] => .error .emptyList
  | front :: rest =>
    let c := { c with writeBuffer := { front with msg := .empty } :: rest }.emit (.onWrite ec length front.msg)
    if ec ≠ 0 then c.doClosed .write
    else
      let c := { c with writeBuffer := rest }
      if rest ≠ [] then c.doWrite else .ok c

section
variable (decode : FlatBuffer → List Message × FlatBuffer)

/-- `TryDecode`; `decode` is the `Decode` of the decoder that the factory creates. -/
def tryDecode (c : ChannelState) : ChannelState :=
  let (out, readBuffer) := decode c.readBuffer
  let c := { c with readBuffer }
  if out = [] then c else c.emit (.onReceivedMessage out)

/-- The handler of an `async_read_some`. -/
def readHandler (c : ChannelState) (timer : Option Nat) (ec : ErrorCode) (readLength : Nat) : Except Fault ChannelState :=
  let c := c.timerCancel timer
  if ec ≠ 0 then (c.emit (.onRead ec readLength)).doClosed .read
  else
    let c := { c with readBuffer := c.readBuffer.append (some c.readFixedBuffer) readLength }
    ((c.emit (.onRead ec readLength)).tryDecode decode).doRead

end

/-! ### Init, SendMsg and Shutdown -/

/-- `Init(socket)` with the socket of a new connection. -/
def init (c : ChannelState) : Except Fault ChannelState :=
  ({ c with opened := true, socket := some c.made, made := c.made + 1 }.emit .init).doRead

def sendMsg (c : ChannelState) (msg : Message) : ChannelState :=
  match c.socket with
  | none => c
  | some _ => { c with posted := c.posted ++ [.sendMsg msg], sent := c.sent ++ [msg] }

def shutdown (c : ChannelState) : ChannelState :=
  match c.socket with
  | none => c
  | some _ => { c with posted := c.posted ++ [.shutdown] }

/-- The handler that `SendMsg` posts. -/
def sendHandler (c : ChannelState) (msg : Message) : Except Fault ChannelState :=
  let waitWrite := c.writeBuffer ≠ []
  let c := { c with writeBuffer := c.writeBuffer ++ [⟨c.made, msg⟩], made := c.made + 1 }
  if ¬waitWrite then c.doWrite else .ok c

def runPosted (c : ChannelState) : Except Fault ChannelState :=
  match c.posted with
  | [] => .error .disabled
  | .sendMsg msg :: posted => { c with posted }.sendHandler msg
  | .shutdown :: posted => { c with posted }.doClosed .active

/-! ### The system around the channel -/

/-- An operation under way ends. It does so with success only while its socket is open. -/
def writeEnds (c : ChannelState) (number : Nat) (ec : ErrorCode) (length : Nat) : Except Fault ChannelState :=
  match c.writes.find? (·.number == number) with
  | none => .error .disabled
  | some w =>
    if w.outcome = none ∧ (ec = 0 → w.connection ∉ c.closed) then
      .ok { c with writes := c.writes.map fun w => if w.number = number then { w with outcome := some (ec, length) } else w }
    else .error .disabled

def readEnds (c : ChannelState) (number : Nat) (ec : ErrorCode) (bytes : Bytes) : Except Fault ChannelState :=
  match c.reads.find? (·.number == number) with
  | none => .error .disabled
  | some r =>
    if r.outcome = none ∧ (ec = 0 → r.connection ∉ c.closed) then
      .ok { c with
        reads := c.reads.map fun r => if r.number = number then { r with outcome := some (ec, bytes.length) } else r
        readFixedBuffer := bytes ++ c.readFixedBuffer.drop bytes.length }
    else .error .disabled

def timerExpires (c : ChannelState) (number : Nat) : Except Fault ChannelState :=
  match c.timers.find? (·.number == number) with
  | none => .error .disabled
  | some t =>
    if t.state = .pending then
      .ok { c with timers := c.timers.map fun t => if t.number = number then { t with state := .expired } else t }
    else .error .disabled

/-- The handler of a write that has ended runs. -/
def runWrite (c : ChannelState) (number : Nat) : Except Fault ChannelState :=
  match c.writes.find? (·.number == number) with
  | none => .error .disabled
  | some w =>
    match w.outcome with
    | none => .error .disabled
    | some (ec, length) =>
      { c with writes := c.writes.eraseP (·.number == number) }.writeHandler w.timer ec length

def runRead (decode : FlatBuffer → List Message × FlatBuffer) (c : ChannelState) (number : Nat) : Except Fault ChannelState :=
  match c.reads.find? (·.number == number) with
  | none => .error .disabled
  | some r =>
    match r.outcome with
    | none => .error .disabled
    | some (ec, length) =>
      { c with reads := c.reads.eraseP (·.number == number) }.readHandler decode r.timer ec length

/-- The handler of a timer that has expired or was canceled runs. -/
def runTimer (c : ChannelState) (number : Nat) : Except Fault ChannelState :=
  match c.timers.find? (·.number == number) with
  | none => .error .disabled
  | some t =>
    let c := { c with timers := c.timers.eraseP (·.number == number) }
    match t.state with
    | .pending => .error .disabled
    | .canceled => .ok c
    | .expired => c.doClosed (if t.read then .readTimeout else .writeTimeout)

inductive Action where
  | init
  | sendMsg (msg : Message)
  | shutdown
  | runPosted
  | writeEnds (number : Nat) (ec : ErrorCode) (length : Nat)
  | runWrite (number : Nat)
  | readEnds (number : Nat) (ec : ErrorCode) (bytes : Bytes)
  | runRead (number : Nat)
  | timerExpires (number : Nat)
  | runTimer (number : Nat)

def step (decode : FlatBuffer → List Message × FlatBuffer) (c : ChannelState) : Action → Except Fault ChannelState
  | .init => c.init
  | .sendMsg msg => .ok (c.sendMsg msg)
  | .shutdown => .ok c.shutdown
  | .runPosted => c.runPosted
  | .writeEnds number ec length => c.writeEnds number ec length
  | .runWrite number => c.runWrite number
  | .readEnds number ec bytes => c.readEnds number ec bytes
  | .runRead number => c.runRead decode number
  | .timerExpires number => c.timerExpires number
  | .runTimer number => c.runTimer number

end ChannelState

end Zylib.ZySoft
