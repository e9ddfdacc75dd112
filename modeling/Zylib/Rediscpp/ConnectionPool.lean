import Zylib.Lib.Pool

/-! `ConnectionPool` of `rediscpp`. A call of `getConn` is a step under the lock and, if it found no free
    slot and the pool is not full, a connection that is made without the lock and put into the pool
    under it. -/

namespace Zylib.Rediscpp
open Pool

/-- A `ConnectionPtr`: the number of a connection. -/
abbrev Conn := Nat

abbrev Thread := Nat

structure ConnectionPoolOpt where
  poolSize : Nat := 3
  poolMaxSize : Nat := 3
deriving DecidableEq

/-- A call of `getConn` that returned `nullptr`: the pool in which it found no free slot, and whether it
    then failed to make a connection. -/
structure NullReturn where
  checked : List (Slot Conn)
  createFailed : Bool
deriving DecidableEq

/-- The members; the connections made so far; the calls that make a connection, with the pool that they
    checked, and those that have made one; who holds what `getConn` returned; and the null returns. -/
structure ConnectionPool where
  opt : ConnectionPoolOpt
  pool : List (Slot Conn) := []
  conns : Nat := 0
  creating : List (Thread × List (Slot Conn)) := []
  created : List (Thread × Conn) := []
  held : List (Thread × Conn) := []
  nulls : List NullReturn := []
deriving DecidableEq

namespace ConnectionPool

/-- `disabled` is a step that is not possible in the state; the others are the assertions of `rleaseConn`. -/
inductive Fault where
  | disabled
  | assertFound
  | assertUsing
deriving DecidableEq

/-! ### init -/

/-- The rounds of the loop of `init` still to go, and whether each connection can be made. -/
def initLoop (p : ConnectionPool) : Nat → List Bool → Bool × ConnectionPool
  | 0, _ => (true, p)
  | n + 1, true :: created =>
    initLoop { p with pool := p.pool ++ [⟨p.conns, false⟩], conns := p.conns + 1 } n created
  | _ + 1, _ => (false, p)

def init (opt : ConnectionPoolOpt) (created : List Bool) : Bool × ConnectionPool :=
  ({ opt } : ConnectionPool).initLoop opt.poolSize created

/-! ### getConn and rleaseConn -/

/-- The thread is inside `getConn`. -/
def calling (p : ConnectionPool) (t : Thread) : Prop := t ∈ p.creating.map Prod.fst ∨ t ∈ p.created.map Prod.fst

instance (p : ConnectionPool) (t : Thread) : Decidable (p.calling t) := inferInstanceAs (Decidable (_ ∨ _))

/-- The first part of `getConn`, under the lock. -/
def getConn (p : ConnectionPool) (t : Thread) : ConnectionPool :=
  match take p.pool with
  | some (conn, pool) => { p with pool, held := p.held ++ [(t, conn)] }
  | none =>
    if p.pool.length ≥ p.opt.poolMaxSize then { p with nulls := p.nulls ++ [⟨p.pool, false⟩] }
    else { p with creating := p.creating ++ [(t, p.pool)] }

/-- `create`, called by `getConn`; `ok` says that the connection can be made and kept alive. -/
def create (p : ConnectionPool) (t : Thread) (ok : Bool) : Except Fault ConnectionPool :=
  match p.creating.find? (·.1 == t) with
  | none => .error .disabled
  | some (_, checked) =>
    let creating := p.creating.eraseP (·.1 == t)
    if ok then .ok { p with creating, created := p.created ++ [(t, p.conns)], conns := p.conns + 1 }
    else .ok { p with creating, nulls := p.nulls ++ [⟨checked, true⟩] }

/-- The last part of `getConn`, under the lock. -/
def insert (p : ConnectionPool) (t : Thread) : Except Fault ConnectionPool :=
  match p.created.find? (·.1 == t) with
  | none => .error .disabled
  | some (_, conn) =>
    .ok { p with
      created := p.created.eraseP (·.1 == t)
      pool := p.pool ++ [⟨conn, true⟩]
      held := p.held ++ [(t, conn)] }

/-- `rleaseConn(conn)`, called by a thread. -/
def rleaseConn (p : ConnectionPool) (t : Thread) (conn : Conn) : Except Fault ConnectionPool :=
  match give p.pool conn with
  | none => .error .assertFound
  | some (slot, pool) =>
    if slot.inUse then .ok { p with pool, held := p.held.erase (t, conn) } else .error .assertUsing

inductive Action where
  | getConn (t : Thread)
  | create (t : Thread) (ok : Bool)
  | insert (t : Thread)
  | rleaseConn (t : Thread) (conn : Conn)

def step (p : ConnectionPool) : Action → Except Fault ConnectionPool
  | .getConn t => if p.calling t then .error .disabled else .ok (p.getConn t)
  | .create t ok => p.create t ok
  | .insert t => p.insert t
  | .rleaseConn t conn => p.rleaseConn t conn

end ConnectionPool

end Zylib.Rediscpp
