import Zylib.ZySoft.Net.TcpServer

/-! The owners of a connection that a `TcpServer` has accepted: the entry of `connections_`, the functions of the server
    that captured the shared pointer, and the pointers that the application holds. The handlers of the connection
    and the functions that it posts itself capture `this`. -/

namespace Zylib.ZySoft.Net
open Run

namespace TcpConnection

/-- The handler or posted function can run. -/
def ready (c : TcpConnection) : Action → Bool
  | .runPosted => !c.posted.isEmpty
  | .runWrite number _ => (c.writes.find? (·.number == number)).any (·.outcome.isSome)
  | .runRead number _ _ => (c.reads.find? (·.number == number)).any (·.outcome.isSome)
  | _ => false

def isCall : Action → Bool
  | .call _ => true
  | .callInLoop _ => true
  | _ => false

def isCallback : Event → Bool
  | .connectionCallback => true
  | .messageCallback _ => true
  | .writeComplete _ => true
  | .frameworkCallback _ needed => needed
  | _ => false

/-- The callbacks that were given a pointer to the connection. -/
def callbacks (c : TcpConnection) : Nat := c.log.countP isCallback

/-- No operation is under way or has its handler waiting, and nothing is posted. -/
def Idle (c : TcpConnection) : Prop := c.posted = [] ∧ c.writes = [] ∧ c.reads = []
deriving Decidable

/-- `~TcpConnection`, with the destructor of the socket. -/
def destroy (c : TcpConnection) : TcpConnection := c.connectDestroy.abort

end TcpConnection

/-- The connection, whether its entry is in `connections_`, whether its `ConnectEstablised` is posted, how many pointers
    the application holds, and whether the connection was destroyed. -/
structure OwnedConnection where
  conn : TcpConnection := {}
  inTable : Bool := true
  establishing : Bool := true
  held : Nat := 0
  gone : Bool := false
deriving DecidableEq

namespace OwnedConnection

/-- `disabled` is a step that is not possible in the state, `released` a handler that runs when there is no owner. -/
inductive Fault where
  | disabled
  | released
  | connection (fault : TcpConnection.Fault)
deriving DecidableEq

def owners (s : OwnedConnection) : Nat :=
  s.inTable.toNat + s.establishing.toNat + s.conn.removals + s.conn.destroys + s.held

/-- Without an owner the connection is destroyed. -/
def collect (s : OwnedConnection) : OwnedConnection :=
  if s.owners = 0 then { s with conn := s.conn.destroy, gone := true } else s

/-- `ConnectEstablised`, with the calls that the connection callback makes and the pointers that it keeps. -/
def connectEstablised (s : OwnedConnection) (calls : List Call) (keeps : Nat) : Except Fault OwnedConnection :=
  if s.establishing then
    match s.conn.connectEstablised calls with
    | .error f => .error (.connection f)
    | .ok conn => .ok { s with conn, establishing := false, held := s.held + keeps }.collect
  else .error .disabled

/-- The connection takes a step. While a handler runs its callbacks may keep `keeps` pointers, and the application may let
    go of `drops` before the handler ends. -/
def connectionStep (s : OwnedConnection) (a : TcpConnection.Action) (keeps drops : Nat) : Except Fault OwnedConnection :=
  if s.establishing then .error .disabled
  else if s.gone then if s.conn.ready a then .error .released else .error .disabled
  else if TcpConnection.isCall a ∧ s.held = 0 ∨ ¬s.conn.ready a ∧ keeps + drops ≠ 0 then .error .disabled
  else
    match s.conn.step a with
    | .error .disabled => .error .disabled
    | .error f => .error (.connection f)
    | .ok conn =>
      if keeps ≠ 0 ∧ conn.callbacks ≤ s.conn.callbacks ∨ s.held + keeps < drops then .error .disabled
      else if s.owners + keeps = drops then .error .released
      else .ok { s with
        conn
        inTable := s.inTable && TcpConnection.removing a == 0
        held := s.held + keeps - drops }.collect

/-- The application copies a pointer that it holds. -/
def copy (s : OwnedConnection) : Except Fault OwnedConnection :=
  if s.held = 0 then .error .disabled else .ok { s with held := s.held + 1 }

/-- The application lets go of a pointer while no handler runs. -/
def release (s : OwnedConnection) : Except Fault OwnedConnection :=
  if s.held = 0 then .error .disabled else .ok { s with held := s.held - 1 }.collect

inductive Action where
  | connectEstablised (calls : List Call) (keeps : Nat)
  | connection (action : TcpConnection.Action) (keeps drops : Nat)
  | copy
  | release

def step (s : OwnedConnection) : Action → Except Fault OwnedConnection
  | .connectEstablised calls keeps => s.connectEstablised calls keeps
  | .connection a keeps drops => s.connectionStep a keeps drops
  | .copy => s.copy
  | .release => s.release

end OwnedConnection
end Zylib.ZySoft.Net
