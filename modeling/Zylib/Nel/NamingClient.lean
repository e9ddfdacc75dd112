import Zylib.Cpp
import Zylib.Lib.Run

/-! `NamingClient` of `nel`: it keeps a state beside its attempts to connect, and `update` tries again by a timer. What it
    reads once it is connected does not touch the state and is left out. -/

namespace Zylib.Nel

/-- `CInetAddress`. -/
structure CInetAddress where
  ip : Bytes := []
  port : UInt16 := 0

/-- `zylib::TimingWheel`, of which the repository has no more than the uses. -/
structure TimingWheel (τ : Type) where
  empty : τ
  ofSeconds : Int → τ
  valid : τ → Bool
  update : τ → Int → τ
  passed : τ → Bool

inductive NamingClient.STATE where
  | CONNECTING
  | CONNECTED
  | DISCONNECT
  | SHUTDOWN
deriving DecidableEq

/-- The members; the attempts that have been started and have not completed; and, of what the last input was, whether a
    completion and which, and of all inputs whether an `update` has started an attempt beside another. -/
structure NamingClient (τ : Type) where
  timer : τ
  state : NamingClient.STATE
  addr : CInetAddress := {}
  attempts : Nat := 0
  completed : Option Bool := none
  overlapped : Bool := false

namespace NamingClient

def CONNECT_SECONDS : Int := 5

section
variable {τ : Type} (wheel : TimingWheel τ) (fromString : Bytes → Bool)

/-- The constructor. -/
def start : NamingClient τ := { timer := wheel.empty, state := .DISCONNECT }

def setState (c : NamingClient τ) (s : STATE) : NamingClient τ := { c with state := s }

def getState (c : NamingClient τ) : STATE := c.state

def isConnected (c : NamingClient τ) : Bool := c.getState = .DISCONNECT

/-- `async_connect` of the socket. -/
def startAttempt (c : NamingClient τ) : NamingClient τ := { c with attempts := c.attempts + 1 }

/-- `from_string` throws for a text that is no address; what it returns is not used. -/
def asyncConnect (c : NamingClient τ) (addr : CInetAddress) : Bool × NamingClient τ :=
  if fromString addr.ip then (true, (c.setState .CONNECTING).startAttempt) else (false, c.setState .DISCONNECT)

def connect (c : NamingClient τ) (addr : CInetAddress) : Bool × NamingClient τ :=
  asyncConnect fromString { c with addr } addr

def update (c : NamingClient τ) (diffTime : Int) : NamingClient τ :=
  match c.state with
  | .CONNECTED | .CONNECTING => c
  | .DISCONNECT =>
    if wheel.valid c.timer then
      let c := { c with timer := wheel.update c.timer diffTime }
      if wheel.passed c.timer then
        let c := { c with timer := wheel.empty }
        (asyncConnect fromString c c.addr).2
      else c
    else { c with timer := wheel.ofSeconds CONNECT_SECONDS }
  | .SHUTDOWN => c

def cbConnectNameService (c : NamingClient τ) : NamingClient τ := c

def cbConnectFail (c : NamingClient τ) : NamingClient τ := c.setState .DISCONNECT

def cbConnectSuccess (c : NamingClient τ) : NamingClient τ := c.setState .CONNECTED

/-- The handler of an attempt, which logs what it was told. -/
def onConnect (c : NamingClient τ) (success : Bool) : NamingClient τ :=
  let c := { c with attempts := c.attempts - 1 }
  if success then c.cbConnectNameService else c

/-! ### Runs -/

inductive Input where
  | connect (addr : CInetAddress)
  | complete (success : Bool)
  | update (diffTime : Int)

/-- There is no attempt to complete. -/
inductive Fault where
  | disabled
deriving DecidableEq

def step (c : NamingClient τ) : Input → Except Fault (NamingClient τ)
  | .connect addr => .ok { (connect fromString c addr).2 with completed := none }
  | .complete success =>
    if c.attempts = 0 then .error .disabled else .ok { onConnect c success with completed := some success }
  | .update diffTime =>
    let c' := update wheel fromString c diffTime
    .ok { c' with completed := none, overlapped := c.overlapped || (0 < c.attempts && c.attempts < c'.attempts) }

/-- The state tells of the attempts, and `update` starts none beside another. -/
structure Corresponds (c : NamingClient τ) : Prop where
  connecting : c.state = .CONNECTING ↔ 0 < c.attempts
  success : c.completed = some true → c.state = .CONNECTED
  failure : c.completed = some false → c.state = .DISCONNECT
  single : c.overlapped = false

/-- `isConnected` tells of the state. -/
def Reports (c : NamingClient τ) : Prop := c.isConnected = true ↔ c.state = .CONNECTED

/-- The input is no completion, and no `connect` to what is no address while an attempt has not completed. -/
def Input.Leaves (c : NamingClient τ) : Input → Prop
  | .connect addr => fromString addr.ip = true ∨ c.attempts = 0
  | .complete _ => False
  | .update _ => True

end

end NamingClient

end Zylib.Nel
