import Zylib.Cpp
import Zylib.Lib.Run

/-! `TcpConnection` of `zysoft/experimental/net` (TcpConnection.h), whose handlers run on the thread of its
    `EventLoop`, and what `TcpServer` does with it (TcpServer.h). A `Buffer` stands for the bytes that can be read
    from it. The callbacks of the application call members of the connection while a handler is running. -/

namespace Zylib.ZySoft.Net
open Run

/-- The value of an `error_code`; 0 is success. -/
abbrev ErrorCode := Nat

/-- `boost::asio::error::operation_aborted`. -/
def operationAborted : ErrorCode := 125

/-- `FixedBufferSize`. -/
def fixedBufferSize : Nat := 4 * 1024

inductive EState where
  | closed
  | connecting
  | established
  | closeWait
deriving DecidableEq

/-- The bits of `flag_`. -/
structure Flag where
  optShutdown : Bool := false
  optForeceClose : Bool := false
  optDoNotMessageCallback : Bool := false
deriving DecidableEq

/-- A call that the application makes. -/
inductive Call where
  | send (message : Bytes)
  | shutdown (callback : Bool)
  | forceClose
deriving DecidableEq

/-- A function that `RunInLoop` has posted. -/
inductive Functor where
  | sendInLoop (msg : Bytes)
  | shutdownInLoop
  | forceCloseInLoop
  | connectDestroy
deriving DecidableEq

/-- What happens on the loop thread: messages that `SendInLoop` takes or drops, calls of the socket, writes that
    are complete, and callbacks. -/
inductive Event where
  | sendInLoop (msg : Bytes) (accepted : Bool)
  | asyncWrite (bytes : Bytes)
  | writeComplete (msg : Bytes)
  | shutdownInLoop
  | cancel
  | close
  | connectionCallback
  | messageCallback (input : Bytes)
  | frameworkCallback (ec : ErrorCode) (needMessageCallback : Bool)
deriving DecidableEq

/-- An `async_write`. The outcome is there once the operation has ended and its handler is ready to run. -/
structure WriteOp where
  number : Nat
  bytes : Bytes
  outcome : Option ErrorCode := none
deriving DecidableEq

/-- An `async_read_some`, with the error code and the length. -/
structure ReadOp where
  number : Nat
  outcome : Option (ErrorCode × Nat) := none
deriving DecidableEq

/-- The members; the operations and functions under way; the calls of `RemoveConnection` that are posted to
    the loop of the server; and what happened on the loop thread. -/
structure TcpConnection where
  state : EState := .connecting
  flag : Flag := {}
  inputFixedBuffer : Bytes := []
  inputBuffer : Bytes := []
  outputBuffer : List Bytes := []
  errorHandled : Bool := false
  writes : List WriteOp := []
  reads : List ReadOp := []
  posted : List Functor := []
  removals : Nat := 0
  made : Nat := 0
  log : List Event := []
deriving DecidableEq

namespace TcpConnection

/-- `disabled` is a step that is not possible in the state; `emptyList` the front of an empty list. -/
inductive Fault where
  | disabled
  | emptyList
deriving DecidableEq

def emit (c : TcpConnection) (e : Event) : TcpConnection := { c with log := c.log ++ [e] }

def runInLoop (c : TcpConnection) (f : Functor) : TcpConnection := { c with posted := c.posted ++ [f] }

def needMessageCallback (c : TcpConnection) : Bool := !c.flag.optDoNotMessageCallback

/-! ### The socket -/

/-- The operations that have not ended yet end with `operation_aborted`. -/
def abort (c : TcpConnection) : TcpConnection :=
  { c with
    writes := c.writes.map fun w => if w.outcome = none then { w with outcome := some operationAborted } else w
    reads := c.reads.map fun r => if r.outcome = none then { r with outcome := some (operationAborted, 0) } else r }

/-- `socket_.cancel(ec)`. -/
def cancel (c : TcpConnection) : TcpConnection := c.abort.emit .cancel

def asyncRead (c : TcpConnection) : TcpConnection :=
  { c with reads := c.reads ++ [{ number := c.made }], made := c.made + 1 }

def asyncWrite (c : TcpConnection) : Except Fault TcpConnection :=
  match c.outputBuffer with
  | [] => .error .emptyList
  | buffer :: _ =>
    let w : WriteOp := { number := c.made, bytes := buffer }
    .ok ({ c with writes := c.writes ++ [w], made := c.made + 1 }.emit (.asyncWrite buffer))

/-! ### Functions that run in the loop -/

def sendInLoop (c : TcpConnection) (msg : Bytes) : Except Fault TcpConnection :=
  if c.state = .closeWait ∨ c.state = .closed then .ok (c.emit (.sendInLoop msg false))
  else
    let waitWrite := c.outputBuffer ≠ []
    let c := { c with outputBuffer := c.outputBuffer ++ [msg] }.emit (.sendInLoop msg true)
    if ¬waitWrite then c.asyncWrite else .ok c

def shutdownInLoop (c : TcpConnection) : TcpConnection :=
  let c := c.emit .shutdownInLoop
  if c.state = .closed ∨ c.state = .closeWait then c
  else
    let c := { c with state := .closeWait }
    if c.outputBuffer = [] then c.cancel else c

def forceCloseInLoop (c : TcpConnection) : TcpConnection :=
  if c.state = .closed then c
  else
    let c := if c.state ≠ .closeWait then { c with state := .closeWait } else c
    c.cancel

def connectDestroy (c : TcpConnection) : TcpConnection :=
  if c.state = .closed then c else { c with state := .closed }.abort.emit .close

/-! ### Calls of the application -/

def shutdown (c : TcpConnection) (callback : Bool) : TcpConnection :=
  if c.flag.optShutdown then c
  else if c.flag.optForeceClose then c
  else
    let c := { c with flag := { c.flag with optShutdown := true } }
    let c := if !callback then { c with flag := { c.flag with optDoNotMessageCallback := true } } else c
    c.runInLoop .shutdownInLoop

def forceClose (c : TcpConnection) : TcpConnection :=
  if c.flag.optForeceClose then c
  else { c with flag := { c.flag with optForeceClose := true, optDoNotMessageCallback := true } }.runInLoop .forceCloseInLoop

/-- A call on the loop thread, where `Send` does not post. -/
def callInLoop (c : TcpConnection) : Call → Except Fault TcpConnection
  | .send message => c.sendInLoop message
  | .shutdown callback => .ok (c.shutdown callback)
  | .forceClose => .ok c.forceClose

/-- A call on another thread. -/
def call (c : TcpConnection) : Call → TcpConnection
  | .send message => c.runInLoop (.sendInLoop message)
  | .shutdown callback => c.shutdown callback
  | .forceClose => c.forceClose

/-! ### Handlers -/

section
variable (calls : List Call)

/-- `HandleError(ec)`, with the calls that the error and close callbacks make; then the server posts
    `RemoveConnection`. -/
def handleError (c : TcpConnection) (ec : ErrorCode) : Except Fault TcpConnection :=
  let c := if c.state ≠ .closed ∧ c.state ≠ .closeWait then { c with state := .closeWait } else c
  if c.errorHandled then .ok c
  else
    let needed := c.needMessageCallback
    let c := { c with errorHandled := true }.emit (.frameworkCallback ec needed)
    match run callInLoop c (if needed then calls else []) with
    | .error e => .error e
    | .ok c => .ok { c with removals := c.removals + 1 }

/-- `ConnectEstablised()`, with the calls that the connection callback makes. -/
def connectEstablised (c : TcpConnection) : Except Fault TcpConnection :=
  run callInLoop ({ c with state := .established }.asyncRead.emit .connectionCallback) calls

/-- `HandleRead(ec, len)`, with the calls that the message callback makes and the number of bytes that it
    consumes. -/
def handleRead (consumed : Nat) (c : TcpConnection) (ec : ErrorCode) (len : Nat) : Except Fault TcpConnection :=
  if ec ≠ 0 then c.handleError calls ec
  else
    let c := { c with inputBuffer := c.inputBuffer ++ c.inputFixedBuffer.take len }
    if c.needMessageCallback then
      match run callInLoop (c.emit (.messageCallback c.inputBuffer)) calls with
      | .error e => .error e
      | .ok c => .ok { c with inputBuffer := c.inputBuffer.drop consumed }.asyncRead
    else .ok { c with inputBuffer := [] }.asyncRead

/-- What `HandleWrite` does after the front has been taken off the list. -/
def writeNext (c : TcpConnection) : Except Fault TcpConnection :=
  if c.state = .closed then .ok c
  else if c.state = .closeWait then
    if c.flag.optForeceClose then .ok c
    else if c.flag.optShutdown then
      if c.outputBuffer = [] then .ok c.cancel else c.asyncWrite
    else .ok c
  else if c.outputBuffer ≠ [] then c.asyncWrite
  else .ok c

/-- `HandleWrite(ec, len)`, with the calls that the write-complete callback makes; the front of the list has been
    moved from, but is still there. -/
def handleWrite (c : TcpConnection) (ec : ErrorCode) : Except Fault TcpConnection :=
  match c.outputBuffer with
  | [] => .error .emptyList
  | msg :: rest =>
    let c := { c with outputBuffer := [] :: rest }
    if ec ≠ 0 then c.handleError calls ec
    else
      match run callInLoop (c.emit (.writeComplete msg)) calls with
      | .error e => .error e
      | .ok c =>
        match c.outputBuffer with
        | [] => .error .emptyList
        | _ :: rest => { c with outputBuffer := rest }.writeNext

end

/-! ### The system around the connection -/

def runPosted (c : TcpConnection) : Except Fault TcpConnection :=
  match c.posted with
  | [] => .error .disabled
  | f :: posted =>
    let c := { c with posted }
    match f with
    | .sendInLoop msg => c.sendInLoop msg
    | .shutdownInLoop => .ok c.shutdownInLoop
    | .forceCloseInLoop => .ok c.forceCloseInLoop
    | .connectDestroy => .ok c.connectDestroy

/-- `TcpServer::RemoveConnection` runs on the loop of the server. -/
def removeConnection (c : TcpConnection) : Except Fault TcpConnection :=
  match c.removals with
  | 0 => .error .disabled
  | removals + 1 => .ok ({ c with removals }.runInLoop .connectDestroy)

def writeEnds (c : TcpConnection) (number : Nat) (ec : ErrorCode) : Except Fault TcpConnection :=
  match c.writes.find? (·.number == number) with
  | none => .error .disabled
  | some w =>
    if w.outcome = none then
      .ok { c with writes := c.writes.map fun w => if w.number = number then { w with outcome := some ec } else w }
    else .error .disabled

def readEnds (c : TcpConnection) (number : Nat) (ec : ErrorCode) (bytes : Bytes) : Except Fault TcpConnection :=
  match c.reads.find? (·.number == number) with
  | none => .error .disabled
  | some r =>
    if r.outcome = none ∧ bytes.length ≤ fixedBufferSize then
      .ok { c with
        reads := c.reads.map fun r => if r.number = number then { r with outcome := some (ec, bytes.length) } else r
        inputFixedBuffer := bytes ++ c.inputFixedBuffer.drop bytes.length }
    else .error .disabled

/-- The handler of a write that has ended runs. -/
def runWrite (calls : List Call) (c : TcpConnection) (number : Nat) : Except Fault TcpConnection :=
  match c.writes.find? (·.number == number) with
  | none => .error .disabled
  | some w =>
    match w.outcome with
    | none => .error .disabled
    | some ec => { c with writes := c.writes.eraseP (·.number == number) }.handleWrite calls ec

def runRead (calls : List Call) (consumed : Nat) (c : TcpConnection) (number : Nat) : Except Fault TcpConnection :=
  match c.reads.find? (·.number == number) with
  | none => .error .disabled
  | some r =>
    match r.outcome with
    | none => .error .disabled
    | some (ec, len) => { c with reads := c.reads.eraseP (·.number == number) }.handleRead calls consumed ec len

inductive Action where
  | call (call : Call)
  | callInLoop (call : Call)
  | runPosted
  | removeConnection
  | writeEnds (number : Nat) (ec : ErrorCode)
  | runWrite (number : Nat) (calls : List Call)
  | readEnds (number : Nat) (ec : ErrorCode) (bytes : Bytes)
  | runRead (number consumed : Nat) (calls : List Call)

def step (c : TcpConnection) : Action → Except Fault TcpConnection
  | .call call => .ok (c.call call)
  | .callInLoop call => c.callInLoop call
  | .runPosted => c.runPosted
  | .removeConnection => c.removeConnection
  | .writeEnds number ec => c.writeEnds number ec
  | .runWrite number calls => c.runWrite calls number
  | .readEnds number ec bytes => c.readEnds number ec bytes
  | .runRead number consumed calls => c.runRead calls consumed number

end TcpConnection
end Zylib.ZySoft.Net
