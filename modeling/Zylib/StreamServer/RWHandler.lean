import Zylib.StreamServer.CallbackUtility

/-! `RWHandler` of `stream_server`: the write list, the reads and their timers of one connection. The handlers
    run one at a time on the thread of the `io_service`. The callbacks of the user may call `sendMessage` and
    `shutdown`, which only post a handler. -/

namespace Zylib.StreamServer

/-- `CLOSED_TYPE`. -/
inductive ClosedType where
  | normal
  | timeout
  | activity
deriving DecidableEq

/-- The value of an `error_code`; 0 is success. -/
abbrev ErrorCode := Nat

structure HandlerOption where
  readTimeoutSeconds : Nat := 0
deriving DecidableEq

/-- Which callbacks are set. -/
structure HandlerCallbacks where
  asyncClosed : Bool := true
  asyncTimeout : Bool := true
  asyncReceiveMsg : Bool := true
deriving DecidableEq

/-- What happens to a handler that others see: it is closed, and its callbacks are made. -/
inductive HandlerEvent (Msg : Type) where
  | closed (type : ClosedType)
  | asyncClosed
  | asyncTimeout
  | asyncReceiveMsg (msgs : List Msg)
deriving DecidableEq

/-- The callbacks that say that the handler has ended. -/
def HandlerEvent.isEnding {Msg : Type} : HandlerEvent Msg → Bool
  | .asyncClosed => true
  | .asyncTimeout => true
  | _ => false

inductive TimerState where
  | pending
  | expired
  | canceled
deriving DecidableEq

/-- A `deadline_timer` of a read. -/
structure DeadlineTimer where
  number : Nat
  state : TimerState := .pending
deriving DecidableEq

/-- An `async_write` of the message at the front of the list. The outcome is there once the operation has ended and its
    handler is ready to run. -/
structure AsyncWrite (Msg : Type) where
  number : Nat
  msg : Msg
  outcome : Option ErrorCode := none
deriving DecidableEq

/-- An `async_read_some`, with the error code and the length once it has ended. -/
structure AsyncRead where
  number : Nat
  timer : Option Nat
  outcome : Option (ErrorCode × Nat) := none
deriving DecidableEq

/-- A handler that `sendMessage` or `shutdown` has posted. -/
inductive Posted (Msg : Type) where
  | sendMessage (msg : Msg)
  | shutdown
deriving DecidableEq

def Posted.msg? {Msg : Type} : Posted Msg → Option Msg
  | sendMessage msg => some msg
  | shutdown => none

/-- The members; the operations, timers and handlers under way; the messages that `sendMessage` posted and those
    that were handed to `async_write`; and what others saw. -/
structure RWHandlerState (Msg : Type) where
  opt : HandlerOption
  cb : HandlerCallbacks
  isClosed : Bool := false
  writeBuffer : List Msg := []
  readFixBuffer : Bytes := List.replicate 1024 0
  readBuffer : ByteBuffer := {}
  writes : List (AsyncWrite Msg) := []
  reads : List AsyncRead := []
  timers : List DeadlineTimer := []
  posted : List (Posted Msg) := []
  made : Nat := 0
  sent : List Msg := []
  handed : List Msg := []
  log : List (HandlerEvent Msg) := []
deriving DecidableEq

namespace RWHandlerState
variable {Msg : Type}

/-- `disabled` is a step that is not possible in the state; the others are the front of an empty list, and an exception
    of the read buffer that leaves the handler. -/
inductive Fault where
  | disabled
  | emptyList
  | threw (e : ByteBuffer.Exception)
deriving DecidableEq

def emit (c : RWHandlerState Msg) (e : HandlerEvent Msg) : RWHandlerState Msg := { c with log := c.log ++ [e] }

/-! ### doClosed, doWrite and doRead -/

def doClosed (c : RWHandlerState Msg) (type : ClosedType) : RWHandlerState Msg :=
  if c.isClosed then c
  else
    let c := { c with isClosed := true }.emit (.closed type)
    match type with
    | .normal => if c.cb.asyncClosed then c.emit .asyncClosed else c
    | .timeout => if c.cb.asyncTimeout then c.emit .asyncTimeout else c
    | .activity => c

def doWrite (c : RWHandlerState Msg) : Except Fault (RWHandlerState Msg) :=
  match c.writeBuffer with
  | [] => .error .emptyList
  | msg :: _ =>
    .ok { c with writes := c.writes ++ [{ number := c.made, msg }], made := c.made + 1, handed := c.handed ++ [msg] }

def doWriteCallback (c : RWHandlerState Msg) (ec : ErrorCode) : Except Fault (RWHandlerState Msg) :=
  if ec ≠ 0 then .ok (c.doClosed .normal)
  else
    match c.writeBuffer with
    | [] => .error .emptyList
    | _ :: writeBuffer =>
      let c := { c with writeBuffer }
      if writeBuffer ≠ [] then c.doWrite else .ok c

def setTimeoutTimer (c : RWHandlerState Msg) : Nat × RWHandlerState Msg :=
  (c.made, { c with timers := c.timers ++ [{ number := c.made }], made := c.made + 1 })

/-- The handler of a timer that has expired runs all the same. -/
def timeoutCancel (c : RWHandlerState Msg) (timer : Option Nat) : RWHandlerState Msg :=
  { c with
    timers := c.timers.map fun t => if some t.number = timer ∧ t.state = .pending then { t with state := .canceled } else t }

def doRead (c : RWHandlerState Msg) : RWHandlerState Msg :=
  let (timer, c) : Option Nat × RWHandlerState Msg :=
    if c.opt.readTimeoutSeconds > 0 then
      let (timer, c) := c.setTimeoutTimer
      (some timer, c)
    else (none, c)
  { c with reads := c.reads ++ [{ number := c.made, timer }], made := c.made + 1 }

def asyncReceiveMsg (c : RWHandlerState Msg) (msgs : List Msg) : RWHandlerState Msg :=
  if msgs ≠ [] then
    if c.cb.asyncReceiveMsg then c.emit (.asyncReceiveMsg msgs) else c
  else c

/-- `decode` is the callback that `asyncMsgDecode` calls. -/
def doReadCallback (decode : ByteBuffer.M (List Msg)) (c : RWHandlerState Msg) (timer : Option Nat) (ec : ErrorCode)
    (length : Nat) : Except Fault (RWHandlerState Msg) :=
  let c := c.timeoutCancel timer
  if ec ≠ 0 then .ok (c.doClosed .normal)
  else if length > 0 then
    match ByteBuffer.append (some (c.readFixBuffer.take length)) c.readBuffer with
    | .error e _ => .error (.threw e)
    | .ok _ readBuffer =>
      match decode readBuffer with
      | .error _ readBuffer => .ok ({ c with readBuffer }.doClosed .normal)
      | .ok msgs readBuffer =>
        let c := { c with readBuffer }.asyncReceiveMsg msgs
        match shrinkToFit c.readBuffer with
        | .error e _ => .error (.threw e)
        | .ok _ readBuffer => .ok { c with readFixBuffer := List.replicate 1024 0, readBuffer }.doRead
  else .ok c.doRead

/-- `init` of a new handler. -/
def init (opt : HandlerOption) (cb : HandlerCallbacks) : RWHandlerState Msg := doRead { opt, cb }

/-! ### sendMessage and shutdown -/

def sendMessage (c : RWHandlerState Msg) (msg : Msg) : RWHandlerState Msg :=
  { c with posted := c.posted ++ [.sendMessage msg], sent := c.sent ++ [msg] }

def shutdown (c : RWHandlerState Msg) : RWHandlerState Msg :=
  if c.isClosed then c else { c with posted := c.posted ++ [.shutdown] }

/-- The handler that `sendMessage` posts. -/
def sendHandler (c : RWHandlerState Msg) (msg : Msg) : Except Fault (RWHandlerState Msg) :=
  let waitWrite := c.writeBuffer ≠ []
  let c := { c with writeBuffer := c.writeBuffer ++ [msg] }
  if ¬waitWrite then c.doWrite else .ok c

def runPosted (c : RWHandlerState Msg) : Except Fault (RWHandlerState Msg) :=
  match c.posted with
  | [] => .error .disabled
  | .sendMessage msg :: posted => { c with posted }.sendHandler msg
  | .shutdown :: posted => .ok ({ c with posted }.doClosed .activity)

/-! ### The system around the handler -/

/-- An operation under way ends. It does so with success only while the socket is open. -/
def writeEnds (c : RWHandlerState Msg) (number : Nat) (ec : ErrorCode) : Except Fault (RWHandlerState Msg) :=
  match c.writes.find? (·.number == number) with
  | none => .error .disabled
  | some w =>
    if w.outcome = none ∧ (ec = 0 → c.isClosed = false) then
      .ok { c with writes := c.writes.map fun w => if w.number = number then { w with outcome := some ec } else w }
    else .error .disabled

def readEnds (c : RWHandlerState Msg) (number : Nat) (ec : ErrorCode) (bytes : Bytes) : Except Fault (RWHandlerState Msg) :=
  match c.reads.find? (·.number == number) with
  | none => .error .disabled
  | some r =>
    if r.outcome = none ∧ (ec = 0 → c.isClosed = false) ∧ bytes.length ≤ 1024 then
      .ok { c with
        reads := c.reads.map fun r => if r.number = number then { r with outcome := some (ec, bytes.length) } else r
        readFixBuffer := bytes ++ c.readFixBuffer.drop bytes.length }
    else .error .disabled

def timerExpires (c : RWHandlerState Msg) (number : Nat) : Except Fault (RWHandlerState Msg) :=
  match c.timers.find? (·.number == number) with
  | none => .error .disabled
  | some t =>
    if t.state = .pending then
      .ok { c with timers := c.timers.map fun t => if t.number = number then { t with state := .expired } else t }
    else .error .disabled

/-- The handler of a write that has ended runs. -/
def runWrite (c : RWHandlerState Msg) (number : Nat) : Except Fault (RWHandlerState Msg) :=
  match c.writes.find? (·.number == number) with
  | none => .error .disabled
  | some w =>
    match w.outcome with
    | none => .error .disabled
    | some ec => { c with writes := c.writes.eraseP (·.number == number) }.doWriteCallback ec

def runRead (decode : ByteBuffer.M (List Msg)) (c : RWHandlerState Msg) (number : Nat) :
    Except Fault (RWHandlerState Msg) :=
  match c.reads.find? (·.number == number) with
  | none => .error .disabled
  | some r =>
    match r.outcome with
    | none => .error .disabled
    | some (ec, length) =>
      { c with reads := c.reads.eraseP (·.number == number) }.doReadCallback decode r.timer ec length

/-- The handler of a timer that has expired or was canceled runs. -/
def runTimer (c : RWHandlerState Msg) (number : Nat) : Except Fault (RWHandlerState Msg) :=
  match c.timers.find? (·.number == number) with
  | none => .error .disabled
  | some t =>
    let c := { c with timers := c.timers.eraseP (·.number == number) }
    match t.state with
    | .pending => .error .disabled
    | .canceled => .ok c
    | .expired => .ok (c.doClosed .timeout)

inductive Action (Msg : Type) where
  | sendMessage (msg : Msg)
  | shutdown
  | runPosted
  | writeEnds (number : Nat) (ec : ErrorCode)
  | runWrite (number : Nat)
  | readEnds (number : Nat) (ec : ErrorCode) (bytes : Bytes)
  | runRead (number : Nat)
  | timerExpires (number : Nat)
  | runTimer (number : Nat)

def step (decode : ByteBuffer.M (List Msg)) (c : RWHandlerState Msg) : Action Msg → Except Fault (RWHandlerState Msg)
  | .sendMessage msg => .ok (c.sendMessage msg)
  | .shutdown => .ok c.shutdown
  | .runPosted => c.runPosted
  | .writeEnds number ec => c.writeEnds number ec
  | .runWrite number => c.runWrite number
  | .readEnds number ec bytes => c.readEnds number ec bytes
  | .runRead number => c.runRead decode number
  | .timerExpires number => c.timerExpires number
  | .runTimer number => c.runTimer number

end RWHandlerState

end Zylib.StreamServer
