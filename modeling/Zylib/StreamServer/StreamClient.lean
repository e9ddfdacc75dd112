import Zylib.StreamServer.RWHandler
import Zylib.Lib.Run

/-! `StreamClient` of `stream_server`: its attempts to connect. They share one socket pointer and one callback, which is
    not told which attempt completed. A socket is the number of the attempt that it was made for. -/

namespace Zylib.StreamServer

/-- `boost::asio::ip::address`. -/
inductive Address where
  | v4 (bytes : BitVec 32)
  | v6 (bytes : BitVec 128) (scopeId : Nat)
deriving DecidableEq

/-- A default constructed address: 0.0.0.0. -/
def Address.default : Address := .v4 0

/-- What `connect` was given. -/
structure ConnectArgs (C : Type) where
  ip : Bytes
  port : UInt16
  cb : Option C
deriving DecidableEq

/-- A call of `async_connect`, and the latest call of `connect` when it was made. -/
structure ConnectAttempt (C : Type) where
  endpoint : Address × UInt16
  latest : Option (ConnectArgs C)
  completed : Bool := false
deriving DecidableEq

/-- What the completion of an attempt did: the socket that it closed, the one that the handler was made of, if one was
    made; whether there was a later attempt, and the callback of the latest call of `connect`. -/
structure ConnectCompletion (C : Type) where
  attempt : Nat
  ec : ErrorCode
  superseded : Bool
  closed : Option Nat
  taken : Option Nat
  callback : Option C
deriving DecidableEq

/-- The members, for callbacks of a type `C`, where `none` is the empty function; the latest call of `connect`; the attempts,
    what their completions did, and the callbacks made. -/
structure StreamClientState (C : Type) where
  connectSocket : Option Nat := none
  ip : Bytes := []
  port : UInt16 := 0
  handler : Option Nat := none
  asyncConnect : Option C := none
  latest : Option (ConnectArgs C) := none
  attempts : List (ConnectAttempt C) := []
  completions : List (ConnectCompletion C) := []
  invoked : List (C × ErrorCode) := []
deriving DecidableEq

namespace StreamClientState

variable {C : Type}

inductive Action (C : Type) where
  | connect (ip : Bytes) (port : UInt16) (cb : Option C)
  | reconnect
  | completes (attempt : Nat) (ec : ErrorCode)
deriving DecidableEq

/-- A step that is not possible in the state. -/
inductive Fault where
  | disabled
deriving DecidableEq

/-! ### Connecting -/

section
variable (fromString : Bytes → Option Address)

/-- `doConnect()`. `address::from_string`, a static function, throws for the texts that `fromString` maps to `none`, and
    its result is not used. -/
def doConnect (s : StreamClientState C) : StreamClientState C × Bool :=
  let s := { s with handler := none }
  let ipAddr := Address.default
  match fromString s.ip with
  | none => (s, false)
  | some _ =>
    ({ s with
        connectSocket := some s.attempts.length
        attempts := s.attempts ++ [{ endpoint := (ipAddr, s.port), latest := s.latest }] }, true)

def connect (s : StreamClientState C) (ip : Bytes) (port : UInt16) (cb : Option C) : StreamClientState C × Bool :=
  doConnect fromString { s with ip, port, asyncConnect := cb, latest := some ⟨ip, port, cb⟩ }

def reconnect (s : StreamClientState C) : StreamClientState C × Bool := doConnect fromString s

end

/-! ### Completions -/

def resetConnectSocket (s : StreamClientState C) : StreamClientState C := { s with connectSocket := none }

/-- `doConnectCallback(ec)`, up to the callback. -/
def resetAfter (s : StreamClientState C) (ec : ErrorCode) : StreamClientState C :=
  if ec = 0 then { s with handler := s.connectSocket }.resetConnectSocket else s.resetConnectSocket

/-- `doConnectCallback(ec)`. What the callback calls are further steps: nothing comes after it. -/
def doConnectCallback (s : StreamClientState C) (ec : ErrorCode) : StreamClientState C :=
  let s := s.resetAfter ec
  { s with invoked := s.invoked ++ (s.asyncConnect.map (·, ec)).toList }

/-- What is noted of the completion of an attempt. -/
def completion (s : StreamClientState C) (i : Nat) (ec : ErrorCode) : ConnectCompletion C where
  attempt := i
  ec := ec
  superseded := i + 1 < s.attempts.length
  closed := s.connectSocket
  taken := if ec = 0 then s.connectSocket else none
  callback := s.latest.bind (·.cb)

/-- An attempt completes, which it does once. Without its socket it does so with an error. -/
def completes (s : StreamClientState C) (i : Nat) (ec : ErrorCode) : Except Fault (StreamClientState C) :=
  match s.attempts[i]? with
  | none => .error .disabled
  | some a =>
    if a.completed ∨ ec = 0 ∧ s.connectSocket ≠ some i then .error .disabled
    else
      .ok { s.doConnectCallback ec with
        attempts := s.attempts.set i { a with completed := true }
        completions := s.completions ++ [s.completion i ec] }

def step (fromString : Bytes → Option Address) (s : StreamClientState C) :
    Action C → Except Fault (StreamClientState C)
  | .connect ip port cb => .ok (s.connect fromString ip port cb).1
  | .reconnect => .ok (s.reconnect fromString).1
  | .completes i ec => s.completes i ec

end StreamClientState

end Zylib.StreamServer
