import Zylib.Lib.Run

/-! The client tables of `World` of `frontend_service`. The sessions are objects, and the tables hold pointers to them:
    the number of an object, or `none` for the null pointer. -/

namespace Zylib.FrontendService

/-- A `weak_ptr` to the handler of a connection. -/
abbrev Hdl := Nat

abbrev ConnID := Int64

structure ClientSession where
  hdl : Hdl
  connId : ConnID
  userId : UInt64
deriving DecidableEq

abbrev ClientSessionPtr := Option Nat

inductive Fault where
  | nullPointer
deriving DecidableEq

/-- `insert` of an `unordered_map`, which changes nothing if the key is there. -/
def insert {κ β : Type} [DecidableEq κ] (table : List (κ × β)) (key : κ) (value : β) : List (κ × β) :=
  if table.any (·.1 = key) then table else table ++ [(key, value)]

def find {κ β : Type} [DecidableEq κ] (table : List (κ × β)) (key : κ) : Option β :=
  (table.find? (·.1 = key)).map (·.2)

def erase {κ β : Type} [DecidableEq κ] (table : List (κ × β)) (key : κ) : List (κ × β) :=
  table.filter (·.1 ≠ key)

structure World where
  objects : List ClientSession := []
  clientSessions : List (Hdl × ClientSessionPtr) := []
  clientConns : List (ConnID × ClientSessionPtr) := []
  connId : ConnID := 0
deriving DecidableEq

inductive Action where
  /-- The constructor of the session does not set the user id, which is what the memory held. -/
  | onClientAccept (hdl : Hdl) (user_id : UInt64)
  | shutdownClientSession (hdl : Hdl)
  | setUserID (hdl : Hdl) (user_id : UInt64)
deriving DecidableEq

def Action.handle? : Action → Option Hdl
  | .onClientAccept hdl _ => some hdl
  | _ => none

namespace World

/-- The session behind a pointer. -/
def deref (w : World) (p : ClientSessionPtr) : Except Fault ClientSession :=
  match p.bind (w.objects[·]?) with
  | none => .error .nullPointer
  | some session => .ok session

def onClientAccept (w : World) (hdl : Hdl) (user_id : UInt64) : World :=
  let conn_id := w.connId + 1
  let client_session : ClientSessionPtr := some w.objects.length
  { objects := w.objects ++ [{ hdl, connId := conn_id, userId := user_id }]
    clientSessions := insert w.clientSessions hdl client_session
    -- `client_session` was moved to the first table
    clientConns := insert w.clientConns conn_id none
    connId := conn_id }

def shutdownClientSession (w : World) (hdl : Hdl) : Except Fault World :=
  match find w.clientSessions hdl with
  | none => .ok w
  | some cs =>
    match w.deref cs with
    | .error e => .error e
    | .ok session =>
      let w := if session.userId ≠ 0 then { w with clientConns := erase w.clientConns session.userId.toInt64 } else w
      .ok { w with clientSessions := erase w.clientSessions hdl }

/-- `SetUserID` on the session of the handle. -/
def setUserID (w : World) (hdl : Hdl) (user_id : UInt64) : World :=
  match find w.clientSessions hdl with
  | some (some p) => { w with objects := w.objects.modify p ({ · with userId := user_id }) }
  | _ => w

/-- `SendMessage` calls the session that it finds. -/
def sendMessage (w : World) (uid : UInt64) : Except Fault (Option ClientSession) :=
  match find w.clientConns uid.toInt64 with
  | none => .ok none
  | some session => (w.deref session).map some

def step (w : World) : Action → Except Fault World
  | .onClientAccept hdl user_id => .ok (w.onClientAccept hdl user_id)
  | .shutdownClientSession hdl => w.shutdownClientSession hdl
  | .setUserID hdl user_id => .ok (w.setUserID hdl user_id)

end World

end Zylib.FrontendService
