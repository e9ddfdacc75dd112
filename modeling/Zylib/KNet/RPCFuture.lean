import Zylib.KNet.Message
import Zylib.Lib.Run

/-! `RPCFuture` of `knet`: the objects that the user makes, moves and destroys, and the calls of `UniformNetwork::RPC`
    that come of them. Beside the objects stand the requests as the user sees them: each object holds one, and a move
    carries it along. -/

namespace Zylib.KNet

namespace RPCFuture

/-- `RPCContext`, for callbacks of a type `C`: `none` is the empty function, or a duration that was never set. -/
structure Context (C : Type) where
  successCb : Option C := none
  timeoutCb : Option C := none
  timeoutDuration : Option Int := none
deriving DecidableEq

def Context.setSuccessCB {C : Type} (ctx : Context C) (cb : Option C) : Context C := { ctx with successCb := cb }

def Context.setTimeoutCB {C : Type} (ctx : Context C) (cb : Option C) (d : Int) : Context C :=
  { ctx with timeoutCb := cb, timeoutDuration := some d }

/-- `RPCFuture::Pkg`. -/
structure Pkg where
  sid : ServiceId
  msgId : MsgId
  msgType : MsgType
deriving DecidableEq

/-- The arguments of a call of `UniformNetwork::RPC`, and the network it is called on. -/
structure RPCCall (C : Type) where
  network : Nat
  pkg : Pkg
  ctx : Option (Context C)
deriving DecidableEq

end RPCFuture

open RPCFuture (Context Pkg RPCCall)

structure RPCFuture (C : Type) where
  network : Nat
  launched : Bool := false
  ctx : Option (Context C) := none
  pkg : Option Pkg := none
deriving DecidableEq

namespace RPCFuture

variable {C : Type}

/-! ### The members -/

/-- The strings of a `Pkg` once they are moved from. -/
def Pkg.moved (p : Pkg) : Pkg := ⟨[], p.msgId, []⟩

/-- The move constructor: the new object, and what is left of `rhs`. -/
def moveConstruct (rhs : RPCFuture C) : RPCFuture C × RPCFuture C :=
  ({ network := rhs.network, launched := rhs.launched, ctx := rhs.ctx }, { rhs with ctx := none })

/-- The move assignment of two different objects: three of the four members are swapped. -/
def moveAssign (f rhs : RPCFuture C) : RPCFuture C × RPCFuture C :=
  ({ f with network := rhs.network, launched := rhs.launched, ctx := rhs.ctx },
   { rhs with network := f.network, launched := f.launched, ctx := f.ctx })

def rpc (f : RPCFuture C) (sid : ServiceId) (msgId : MsgId) (msg : MsgType) : RPCFuture C :=
  { f with pkg := some ⟨sid, msgId, msg⟩ }

/-- `Launch()`, with the call that it makes. -/
def launch (f : RPCFuture C) : RPCFuture C × Option (RPCCall C) :=
  if f.launched then (f, none)
  else
    match f.pkg with
    | none => (f, none)
    | some p => ({ f with launched := true, ctx := none, pkg := some p.moved }, some ⟨f.network, p, f.ctx⟩)

/-- `GetCtx()`, which makes the context if there is none. -/
def getCtx (f : RPCFuture C) : Context C := f.ctx.getD {}

def onSuccess (f : RPCFuture C) (cb : Option C) : RPCFuture C := { f with ctx := some (f.getCtx.setSuccessCB cb) }

def onTimeout (f : RPCFuture C) (cb : Option C) (d : Int) : RPCFuture C :=
  { f with ctx := some (f.getCtx.setTimeoutCB cb d) }

end RPCFuture

/-- A request as the user sees it: what was last set on it until it was launched. -/
structure Request (C : Type) where
  network : Nat
  pkg : Option Pkg := none
  ctx : Option (Context C) := none
  launched : Bool := false
deriving DecidableEq

namespace Request

variable {C : Type}

/-- Nothing is set any more once the request is launched. -/
def set (r : Request C) (f : Request C → Request C) : Request C := if r.launched then r else f r

def rpc (r : Request C) (p : Pkg) : Request C := r.set ({ · with pkg := some p })

def onSuccess (r : Request C) (cb : Option C) : Request C := r.set ({ · with ctx := some ((r.ctx.getD {}).setSuccessCB cb) })

def onTimeout (r : Request C) (cb : Option C) (d : Int) : Request C :=
  r.set ({ · with ctx := some ((r.ctx.getD {}).setTimeoutCB cb d) })

/-- It is launched if there is something to send. -/
def launch (r : Request C) : Request C := { r with launched := r.launched || r.pkg.isSome }

/-- The one call that the request is to result in. -/
def call? (r : Request C) : Option (RPCCall C) := r.pkg.map fun p => ⟨r.network, p, r.ctx⟩

end Request

/-- An object, and the number of the request that it holds. -/
structure FutureObject (C : Type) where
  future : RPCFuture C
  request : Nat
deriving DecidableEq

/-- The objects, `none` once they are destroyed, the calls of `UniformNetwork::RPC` so far, and the requests. -/
structure Futures (C : Type) where
  objects : List (Option (FutureObject C)) := []
  calls : List (RPCCall C) := []
  requests : List (Request C) := []
deriving DecidableEq

namespace Futures

variable {C : Type}

inductive Action (C : Type) where
  | makeFuture (network : Nat)
  | rpc (o : Nat) (sid : ServiceId) (msgId : MsgId) (msg : MsgType)
  | onSuccess (o : Nat) (cb : Option C)
  | onTimeout (o : Nat) (cb : Option C) (d : Int)
  | moveConstruct (rhs : Nat)
  | moveAssign (o rhs : Nat)
  | launch (o : Nat)
  | destroy (o : Nat)
deriving DecidableEq

/-- A step on an object that was not made or is destroyed. -/
inductive Fault where
  | disabled
deriving DecidableEq

def object (s : Futures C) (o : Nat) : Except Fault (FutureObject C) :=
  match s.objects[o]? with
  | some (some x) => .ok x
  | _ => .error .disabled

/-- The object and its request after a call that is made on both. -/
def update (s : Futures C) (o : Nat) (x : FutureObject C) (f : RPCFuture C) (r : Request C → Request C) : Futures C :=
  { s with objects := s.objects.set o (some { x with future := f }), requests := s.requests.modify x.request r }

/-- The objects after a move construction from an object: it holds a new request, which nothing was set on. -/
def moved (s : Futures C) (o : Nat) (x : FutureObject C) : Futures C :=
  { s with
    objects := s.objects.set o (some ⟨x.future.moveConstruct.2, s.requests.length⟩) ++
      [some ⟨x.future.moveConstruct.1, x.request⟩]
    requests := s.requests ++ [{ network := x.future.network }] }

/-- The objects after a move assignment: each holds the request of the other. -/
def swapped (s : Futures C) (o rhs : Nat) (x y : FutureObject C) : Futures C :=
  { s with
    objects := (s.objects.set o (some ⟨(x.future.moveAssign y.future).1, y.request⟩)).set rhs
      (some ⟨(x.future.moveAssign y.future).2, x.request⟩) }

/-- `Launch()` on an object. -/
def launched (s : Futures C) (o : Nat) (x : FutureObject C) : Futures C :=
  { s.update o x x.future.launch.1 Request.launch with calls := s.calls ++ x.future.launch.2.toList }

/-- The destructor, which calls `Launch()`. -/
def destroyed (s : Futures C) (o : Nat) (x : FutureObject C) : Futures C :=
  { s.launched o x with objects := (s.launched o x).objects.set o none }

def step (s : Futures C) : Action C → Except Fault (Futures C)
  | .makeFuture network =>
    .ok { s with
      objects := s.objects ++ [some ⟨{ network }, s.requests.length⟩], requests := s.requests ++ [{ network }] }
  | .rpc o sid msgId msg => (s.object o).map fun x => s.update o x (x.future.rpc sid msgId msg) (·.rpc ⟨sid, msgId, msg⟩)
  | .onSuccess o cb => (s.object o).map fun x => s.update o x (x.future.onSuccess cb) (·.onSuccess cb)
  | .onTimeout o cb d => (s.object o).map fun x => s.update o x (x.future.onTimeout cb d) (·.onTimeout cb d)
  | .moveConstruct rhs => (s.object rhs).map fun x => s.moved rhs x
  | .moveAssign o rhs =>
    (s.object o).bind fun x => (s.object rhs).map fun y => if o = rhs then s else s.swapped o rhs x y
  | .launch o => (s.object o).map fun x => s.launched o x
  | .destroy o => (s.object o).map fun x => s.destroyed o x

end Futures

end Zylib.KNet
