import Zylib.ZySoft.Net.TcpConnection

/-! `TcpServer` of `zysoft/experimental/net` (TcpServer.h) with its `Acceptor` (Acceptor.h). The connections keep the
    order of what is posted for each of them; otherwise the loops take their functions and completions in any order. -/

namespace Zylib.ZySoft.Net
open Run

/-- An address that `address_v4::from_string` has taken, as `Listen` requires. -/
structure InetAddress where
  ip : Bytes
  port : UInt16
  isAddress : ip.length ≤ 15
deriving DecidableEq

/-- `util::ToString`, which prints `"%s:%d#%d"` into 64 bytes. -/
def toString (addr : InetAddress) (conn_id : Nat) : Bytes :=
  (addr.ip ++ 58 :: decimal addr.port.toNat ++ 35 :: decimal conn_id).take 63

namespace TcpConnection

/-- The calls of `ConnectDestroy` that are posted. -/
def destroys (c : TcpConnection) : Nat := c.posted.count .connectDestroy

/-- How often the step runs `RemoveConnection`. -/
def removing : Action → Nat
  | .removeConnection => 1
  | _ => 0

/-- How often the step runs `ConnectDestroy`. -/
def destroying (c : TcpConnection) : Action → Nat
  | .runPosted => if c.posted.head? = some .connectDestroy then 1 else 0
  | _ => 0

end TcpConnection

/-- A connection that `StartAccept` has made, with the calls of `ConnectEstablised` that are posted, and how often it was
    accepted, established, removed and destroyed. -/
structure ServerConnection where
  connName : Bytes
  conn : TcpConnection := { state := .closed }
  establishing : Nat := 0
  accepted : Nat := 0
  established : Nat := 0
  removed : Nat := 0
  destroyed : Nat := 0
deriving DecidableEq

/-- The connections in the order in which they were made, which stand for the pointers to them by their places; the
    entries of `connections_`; and `conn_` of the acceptor while an `async_accept` is under way. -/
structure TcpServer where
  addr : InetAddress
  conns : List ServerConnection := []
  connections : List (Bytes × Nat) := []
  nextConnId : Nat := 1
  waiting : Option Nat := none
deriving DecidableEq

namespace TcpServer

/-- `disabled` is a step that is not possible in the state. -/
inductive Fault where
  | disabled
  | nullConnection
  | assertErase
  | signedOverflow
  | connection (fault : TcpConnection.Fault)
deriving DecidableEq

/-- `Acceptor::WaitAccept`, which takes the socket of the connection. -/
def waitAccept (s : TcpServer) : Option Nat → Except Fault TcpServer
  | none => .error .nullConnection
  | some conn => .ok { s with waiting := some conn }

def startAccept (s : TcpServer) : Except Fault TcpServer :=
  let conn : ServerConnection := { connName := toString s.addr s.nextConnId }
  let s := { s with conns := s.conns ++ [conn] }
  if s.nextConnId < int32Max then
    { s with nextConnId := s.nextConnId + 1 }.waitAccept (some (s.conns.length - 1))
  else .error .signedOverflow

/-- `connections_[name] = conn`. -/
def assign (connections : List (Bytes × Nat)) (name : Bytes) (conn : Nat) : List (Bytes × Nat) :=
  connections.filter (·.1 ≠ name) ++ [(name, conn)]

/-- The handler of `async_accept`, which calls `NewConnection`. -/
def newConnection (s : TcpServer) (ec : ErrorCode) : Except Fault TcpServer :=
  match s.waiting with
  | none => .error .disabled
  | some i =>
    let s := { s with waiting := none }
    if ec ≠ 0 then s.waitAccept none
    else
      match s.conns[i]? with
      | none => .error .disabled
      | some sc =>
        let sc := { sc with
          conn := { sc.conn with state := .connecting }
          establishing := sc.establishing + 1
          accepted := sc.accepted + 1 }
        { s with conns := s.conns.set i sc, connections := assign s.connections sc.connName i }.startAccept

/-- `ConnectEstablised`, with the calls that the connection callback makes. -/
def connectEstablised (s : TcpServer) (i : Nat) (calls : List Call) : Except Fault TcpServer :=
  match s.conns[i]? with
  | none => .error .disabled
  | some sc =>
    match sc.establishing with
    | 0 => .error .disabled
    | establishing + 1 =>
      match sc.conn.connectEstablised calls with
      | .error f => .error (.connection f)
      | .ok conn =>
        let sc := { sc with conn, establishing, established := sc.established + 1 }
        .ok { s with conns := s.conns.set i sc }

/-- The connection takes a step; the application and the socket know it since `ConnectEstablised`. -/
def connectionStep (s : TcpServer) (i : Nat) (a : TcpConnection.Action) : Except Fault TcpServer :=
  match s.conns[i]? with
  | none => .error .disabled
  | some sc =>
    if sc.established = 0 then .error .disabled
    else
      match sc.conn.step a with
      | .error .disabled => .error .disabled
      | .error f => .error (.connection f)
      | .ok conn =>
        let sc := { sc with
          conn
          removed := sc.removed + TcpConnection.removing a
          destroyed := sc.destroyed + sc.conn.destroying a }
        .ok { s with conns := s.conns.set i sc }

/-- `RemoveConnection`, which a framework callback has posted. -/
def removeConnection (s : TcpServer) (i : Nat) : Except Fault TcpServer :=
  match s.conns[i]? with
  | none => .error .disabled
  | some sc =>
    if sc.conn.removals = 0 then .error .disabled
    else if s.connections.countP (·.1 = sc.connName) ≠ 1 then .error .assertErase
    else { s with connections := s.connections.filter (·.1 ≠ sc.connName) }.connectionStep i .removeConnection

inductive Action where
  | newConnection (ec : ErrorCode)
  | connectEstablised (conn : Nat) (calls : List Call)
  | connection (conn : Nat) (action : TcpConnection.Action)

def step (s : TcpServer) : Action → Except Fault TcpServer
  | .newConnection ec => s.newConnection ec
  | .connectEstablised i calls => s.connectEstablised i calls
  | .connection i .removeConnection => s.removeConnection i
  | .connection i a => s.connectionStep i a

/-- The server when `Start` has returned. -/
def started (addr : InetAddress) : TcpServer :=
  { addr, conns := [{ connName := toString addr 1 }], nextConnId := 2, waiting := some 0 }

theorem startAccept_init (addr : InetAddress) : ({ addr } : TcpServer).startAccept = .ok (started addr) := rfl

end TcpServer
end Zylib.ZySoft.Net
