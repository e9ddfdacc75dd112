import Zylib.Lib.Pool

/-! `ConnectionPool` and `ConnectionGuard` of `mysqlcpp2`. A guard takes a connection when it is
    constructed and releases it when it is destroyed; a copy refers to the same connection. -/

namespace Zylib.Mysqlcpp
open Pool

/-- A `shared_ptr<Connection>` of the pool: the number of the connection. -/
abbrev Conn := Nat

structure ConnectionPoolOpt where
  threadPoolSize : Nat := 3
deriving DecidableEq

structure ConnectionPool where
  poolOpt : ConnectionPoolOpt
  pool : List (Slot Conn) := []
deriving DecidableEq

/-- `disabled` is a step that is not possible in the state; `assertFound` is the assertion of `rleaseConn`. -/
inductive Fault where
  | disabled
  | assertFound
deriving DecidableEq

namespace ConnectionPool

/-- The rounds of the loop of `init` still to go, and whether each connection can be made. -/
def initLoop (p : ConnectionPool) : Nat → List Bool → Bool × ConnectionPool
  | 0, _ => (true, p)
  | n + 1, true :: created => initLoop { p with pool := p.pool ++ [⟨p.pool.length, false⟩] } n created
  | _ + 1, _ => (false, p)

/-- `init`; `library` says that `mysql_library_init` succeeds. -/
def init (poolOpt : ConnectionPoolOpt) (library : Bool) (created : List Bool) : Bool × ConnectionPool :=
  if library then ({ poolOpt } : ConnectionPool).initLoop poolOpt.threadPoolSize created else (false, { poolOpt })

def getConn (p : ConnectionPool) : Option Conn × ConnectionPool :=
  match take p.pool with
  | some (conn, pool) => (some conn, { p with pool })
  | none => (none, p)

/-- `rleaseConn(conn)`, which does not look whether the slot is in use. -/
def rleaseConn (p : ConnectionPool) (conn : Conn) : Except Fault ConnectionPool :=
  match give p.pool conn with
  | none => .error .assertFound
  | some (_, pool) => .ok { p with pool }

end ConnectionPool

/-- A `ConnectionGuard`: the number of the object and its `m_conn`. -/
structure ConnectionGuard where
  number : Nat
  conn : Option Conn
deriving DecidableEq

/-- The pool, the guards that live, and how many were made. -/
structure Guarded where
  pool : ConnectionPool
  guards : List ConnectionGuard := []
  made : Nat := 0
deriving DecidableEq

namespace Guarded

def addGuard (p : Guarded) (conn : Option Conn) : Guarded :=
  { p with guards := p.guards ++ [⟨p.made, conn⟩], made := p.made + 1 }

/-- The constructor of a guard. -/
def construct (p : Guarded) : Guarded :=
  let (conn, pool) := p.pool.getConn
  { p with pool }.addGuard conn

/-- The implicit copy constructor. -/
def copy (p : Guarded) (number : Nat) : Except Fault Guarded :=
  match p.guards.find? (·.number == number) with
  | none => .error .disabled
  | some g => .ok (p.addGuard g.conn)

/-- The destructor. -/
def destroy (p : Guarded) (number : Nat) : Except Fault Guarded :=
  match p.guards.find? (·.number == number) with
  | none => .error .disabled
  | some g =>
    let guards := p.guards.eraseP (·.number == number)
    match g.conn with
    | none => .ok { p with guards }
    | some conn => do
      let pool ← p.pool.rleaseConn conn
      .ok { p with pool, guards }

inductive Action where
  | construct
  | copy (number : Nat)
  | destroy (number : Nat)

def step (p : Guarded) : Action → Except Fault Guarded
  | .construct => .ok p.construct
  | .copy number => p.copy number
  | .destroy number => p.destroy number

/-- The pool after `init`, and no guard. -/
def start (poolOpt : ConnectionPoolOpt) (library : Bool) (created : List Bool) : Guarded :=
  { pool := (ConnectionPool.init poolOpt library created).2 }

end Guarded

end Zylib.Mysqlcpp
