import Zylib.Lib.Run
import Zylib.Rediscpp.Buffer
import Zylib.Rediscpp.String

/-! `BufferArray` of `rediscpp`, a tree whose nodes tell at run time whether they hold a buffer or an array, and the programs
    that use it through its public members. -/

namespace Zylib.Rediscpp

inductive BufferArray.TYPE where
  | BUFFER
  | ARRAY
deriving DecidableEq

structure BufferArray where
  type : BufferArray.TYPE
  buffer : Buffer := {}
  array : List BufferArray := []

/-- How a call of a member ends that does not return; in the second way nothing is known of what follows. -/
inductive Fault where
  | throws (e : Exception)
  | undefined
deriving DecidableEq

namespace BufferArray

def initBuffer : BufferArray := { type := .BUFFER }

def initArray : BufferArray := { type := .ARRAY }

def isBuffer (a : BufferArray) : Bool := a.type = .BUFFER

def isArray (a : BufferArray) : Bool := a.type = .ARRAY

def checkType (a : BufferArray) (t : TYPE) : Except Fault Unit :=
  if a.type ≠ t then
    match t with
    | .BUFFER => .error (.throws (.replyErrorException "BufferArray is not BUFFER!".toUTF8.data.toList))
    | .ARRAY => .error (.throws (.replyErrorException "BufferArray is not ARRAY!".toUTF8.data.toList))
  else .ok ()

/-! ### Members -/

/-- What a member returns, and what it leaves. -/
abbrev Member (α : Type) := BufferArray → Except Fault α × BufferArray

/-- A member that begins with `checkType(t)`. -/
def checked {α : Type} (t : TYPE) (body : Member α) : Member α := fun a =>
  match a.checkType t with
  | .error e => (.error e, a)
  | .ok () => body a

def setBuffer (b : Buffer) : Member Unit := checked .BUFFER fun a => (.ok (), { a with buffer := b })

def getBuffer : Member Buffer := checked .BUFFER fun a => (.ok a.buffer, a)

/-- `getBuffer() &&`. -/
def moveBuffer : Member Buffer := checked .BUFFER fun a => (.ok a.buffer, { a with buffer := {} })

/-- `push_back(Buffer)`. -/
def pushBackBuffer (b : Buffer) : Member Unit := checked .ARRAY fun self =>
  match setBuffer b initArray with
  | (.error e, _) => (.error e, self)
  | (.ok (), a) => (.ok (), { self with array := self.array ++ [a] })

/-- `push_back(BufferArray)`. -/
def pushBack (a : BufferArray) : Member Unit := checked .ARRAY fun self => (.ok (), { self with array := self.array ++ [a] })

def popBack : Member BufferArray := checked .ARRAY fun self =>
  match self.array.getLast? with
  | none => (.error .undefined, self)
  | some a => (.ok a, { self with array := self.array.dropLast })

/-- A member of the element that `operator[]` or an iterator refers to. -/
def index {α : Type} (idx : Nat) (f : Member α) : Member α := checked .ARRAY fun self =>
  match self.array[idx]? with
  | none => (.error .undefined, self)
  | some a => ((f a).1, { self with array := self.array.set idx (f a).2 })

def size : Member Nat := checked .ARRAY fun self => (.ok self.array.length, self)

def empty : Member Bool := checked .ARRAY fun self => (.ok self.array.isEmpty, self)

/-- The copy constructor reads. -/
def copied : Member BufferArray := fun a => (.ok a, a)

/-- The move constructor leaves nothing but the type. -/
def moved : Member BufferArray := fun a => (.ok a, { type := a.type })

/-- Both assignments, of a value that is held elsewhere. -/
def assign (rhs : BufferArray) : Member Unit := fun a =>
  (.ok (), { a with type := rhs.type, buffer := rhs.buffer, array := rhs.array })

/-! ### Calls -/

inductive Value where
  | unit
  | buffer (b : Buffer)
  | node (a : BufferArray)
  | size (n : Nat)
  | bool (b : Bool)

/-- A call of a checked member, with what a `BufferArray` argument is given by. -/
inductive Call (α : Type) where
  | setBuffer (b : Buffer)
  | getBuffer
  | moveBuffer
  | pushBackBuffer (b : Buffer)
  | pushBack (a : α)
  | popBack
  | index (idx : Nat)
  | moveIndex (idx : Nat)
  | size
  | empty

/-- The type that the member checks for. -/
def Call.type {α : Type} : Call α → TYPE
  | .setBuffer _ | .getBuffer | .moveBuffer => .BUFFER
  | _ => .ARRAY

def returning {α : Type} (value : α → Value) (f : Member α) : Member Value := fun a => ((f a).1.map value, (f a).2)

def Call.run : Call BufferArray → Member Value
  | .setBuffer b => returning (fun _ => .unit) (BufferArray.setBuffer b)
  | .getBuffer => returning .buffer BufferArray.getBuffer
  | .moveBuffer => returning .buffer BufferArray.moveBuffer
  | .pushBackBuffer b => returning (fun _ => .unit) (BufferArray.pushBackBuffer b)
  | .pushBack a => returning (fun _ => .unit) (BufferArray.pushBack a)
  | .popBack => returning .node BufferArray.popBack
  | .index idx => returning .node (BufferArray.index idx copied)
  | .moveIndex idx => returning .node (BufferArray.index idx moved)
  | .size => returning .size BufferArray.size
  | .empty => returning .bool BufferArray.empty

/-! ### Programs -/

/-- A variable, or what `operator[]` refers to from there. -/
structure Loc where
  var : Nat
  path : List Nat := []

/-- A member called at the end of a path. -/
def along {α : Type} (f : Member α) : List Nat → Member α
  | [] => f
  | idx :: path => index idx (along f path)

/-- A member called where a location refers to, among the variables of a program. -/
def on {α : Type} (loc : Loc) (f : Member α) (vars : List BufferArray) : Except Fault α × List BufferArray :=
  match vars[loc.var]? with
  | none => (.error .undefined, vars)
  | some a => ((along f loc.path a).1, vars.set loc.var (along f loc.path a).2)

/-- What a `BufferArray` is made from. -/
inductive Arg where
  | initBuffer
  | initArray
  | copy (src : Loc)
  | move (src : Loc)

def Arg.eval (vars : List BufferArray) : Arg → Except Fault BufferArray × List BufferArray
  | .initBuffer => (.ok BufferArray.initBuffer, vars)
  | .initArray => (.ok BufferArray.initArray, vars)
  | .copy src => on src copied vars
  | .move src => on src moved vars

/-- The arguments of a call are made before its body begins. -/
def Call.eval (vars : List BufferArray) : Call Arg → Except Fault (Call BufferArray) × List BufferArray
  | .setBuffer b => (.ok (.setBuffer b), vars)
  | .getBuffer => (.ok .getBuffer, vars)
  | .moveBuffer => (.ok .moveBuffer, vars)
  | .pushBackBuffer b => (.ok (.pushBackBuffer b), vars)
  | .pushBack arg => ((arg.eval vars).1.map .pushBack, (arg.eval vars).2)
  | .popBack => (.ok .popBack, vars)
  | .index idx => (.ok (.index idx), vars)
  | .moveIndex idx => (.ok (.moveIndex idx), vars)
  | .size => (.ok .size, vars)
  | .empty => (.ok .empty, vars)

inductive Op where
  | construct (arg : Arg)
  | assign (dst : Loc) (arg : Arg)
  | call (loc : Loc) (c : Call Arg)

/-- A value that is returned is kept in a new variable. -/
def keep (vars : List BufferArray) : Value → List BufferArray
  | .node a => vars ++ [a]
  | _ => vars

/-- What is thrown is caught at the end of the statement, and the program goes on with the variables as they are. -/
def andThen {α : Type} (result : Except Fault α × List BufferArray)
    (next : α → List BufferArray → Except Fault (List BufferArray)) : Except Fault (List BufferArray) :=
  match result with
  | (.ok a, vars) => next a vars
  | (.error (.throws _), vars) => .ok vars
  | (.error .undefined, _) => .error .undefined

/-- One statement of a program. In a call the object is found first, then come the arguments and the body. -/
def step (vars : List BufferArray) : Op → Except Fault (List BufferArray)
  | .construct arg => andThen (arg.eval vars) fun a vars => .ok (vars ++ [a])
  | .assign dst arg => andThen (arg.eval vars) fun a vars => andThen (on dst (BufferArray.assign a) vars) fun _ vars => .ok vars
  | .call loc c =>
    andThen (on loc copied vars) fun _ vars => andThen (c.eval vars) fun c vars =>
      andThen (on loc c.run vars) fun value vars => .ok (keep vars value)

/-! ### The tree -/

/-- A buffer has no children, an array no buffer. -/
inductive WellFormed : BufferArray → Prop
  | buffer (b : Buffer) : WellFormed { type := .BUFFER, buffer := b }
  | array (as : List BufferArray) : (∀ a ∈ as, WellFormed a) → WellFormed { type := .ARRAY, array := as }

/-- A node of a tree. -/
inductive Node : BufferArray → BufferArray → Prop
  | refl {a : BufferArray} : Node a a
  | child {a b c : BufferArray} : b ∈ c.array → Node a b → Node a c

/-- What a call has to do: one of the wrong kind throws and changes nothing, `push_back` appends what `pop_back` then takes
    off again. -/
def Call.Conforms (c : Call BufferArray) (a : BufferArray) : Prop :=
  (a.type ≠ c.type → (∃ e, (c.run a).1 = .error (.throws e)) ∧ (c.run a).2 = a) ∧
    (a.type = c.type →
      match c with
      | .setBuffer b => c.run a = (.ok .unit, { a with buffer := b })
      | .getBuffer => c.run a = (.ok (.buffer a.buffer), a)
      | .moveBuffer => c.run a = (.ok (.buffer a.buffer), { a with buffer := {} })
      | .pushBackBuffer b => c.run a = (.ok .unit, { a with array := a.array ++ [{ type := .BUFFER, buffer := b }] })
      | .pushBack x =>
        c.run a = (.ok .unit, { a with array := a.array ++ [x] }) ∧ Call.popBack.run (c.run a).2 = (.ok (.node x), a)
      | .popBack => ∀ init x, a.array = init ++ [x] → c.run a = (.ok (.node x), { a with array := init })
      | .index idx => ∀ x, a.array[idx]? = some x → c.run a = (.ok (.node x), a)
      | .moveIndex idx =>
        ∀ x, a.array[idx]? = some x → c.run a = (.ok (.node x), { a with array := a.array.set idx { type := x.type } })
      | .size => c.run a = (.ok (.size a.array.length), a)
      | .empty => c.run a = (.ok (.bool a.array.isEmpty), a))

/-- The call is `push_back(Buffer)` of an array. -/
def Call.PushesBuffer (c : Call BufferArray) (a : BufferArray) : Prop :=
  a.type = .ARRAY ∧ match c with
    | .pushBackBuffer _ => True
    | _ => False

end BufferArray

end Zylib.Rediscpp
