import Zylib.GameServer.ServerHandler
import Zylib.Lib.Run

/-! `World` of `game_server` and of `login_server`, which are the same: the calls of the network thread and the four parts
    of `heartbeat`, each with the one section in which it takes what was left for it. What is taken is then used by the
    thread of the world alone. -/

namespace Zylib.GameServer

/-- A `ConnectionHdl`. -/
abbrev WorldConnection := Nat

inductive SessionState where
  | closed
  | unlogin
  | login
  | ignore
deriving DecidableEq

/-- The methods of `WorldSession` that handle messages. -/
inductive SessionFun where
  | reqPing
  | reqRtt
  | reqRegister
  | reqLogin
deriving DecidableEq

structure SessionCB where
  state : SessionState
  function : SessionFun
deriving DecidableEq

/-- `WorldMsgDispatcher::findRegCallback`. -/
def findRegCallback (cmd : Int32) : Option SessionCB :=
  if cmd = 1 then some ⟨.ignore, .reqPing⟩
  else if cmd = 2 then some ⟨.ignore, .reqRtt⟩
  else if cmd = 3 then some ⟨.unlogin, .reqRegister⟩
  else if cmd = 4 then some ⟨.unlogin, .reqLogin⟩
  else none

structure WorldMsg where
  conn : WorldConnection
  networkMsg : NetworkMsg
  sessionFun : SessionCB
deriving DecidableEq

structure WorldSession where
  conn : WorldConnection
  state : SessionState := .unlogin
  worldMsgs : List WorldMsg := []
deriving DecidableEq

namespace WorldSession

def isClosed (s : WorldSession) : Bool := s.state = .closed

def closed (s : WorldSession) : WorldSession := { s with state := .closed }

def postMsg (s : WorldSession) (msg : WorldMsg) : WorldSession := { s with worldMsgs := s.worldMsgs ++ [msg] }

/-- The loop of `heartbeat` over the messages; `shuts` tells whether the handler of a message calls `shutdown`. -/
def heartbeatLoop (shuts : WorldMsg → Bool) (s : WorldSession) : List WorldMsg → WorldSession
  | [] => { s with worldMsgs := [] }
  | msg :: msgs =>
    if s.isClosed then { s with worldMsgs := msg :: msgs }
    else heartbeatLoop shuts (if shuts msg then s.closed else s) msgs

def heartbeat (shuts : WorldMsg → Bool) (s : WorldSession) : WorldSession := s.heartbeatLoop shuts s.worldMsgs

end WorldSession

/-- `WorldMsgFilter`: whether the message is not for a session in this state. -/
def worldMsgFilter (session : WorldSession) (msg : WorldMsg) : Bool :=
  if msg.sessionFun.state = .ignore then false
  else session.state ≠ msg.sessionFun.state

/-- The part of `heartbeat` that comes next; the loop over the tasks is left out. -/
inductive Phase where
  | processNewConn
  | processClosedConn
  | dispatchMsg
  | sessions
deriving DecidableEq

/-- The containers, and where the thread of the world is. `accepted` and `ended` are the connections that were accepted and
    that were reported closed or timed out, `looked` what the filter has looked at, and `selfClosed` the connections whose
    session closed itself. -/
structure World where
  worldMsgs : List WorldMsg := []
  sessions : List WorldSession := []
  newConn : List WorldConnection := []
  closedConn : List WorldConnection := []
  phase : Phase := .processNewConn
  accepted : List WorldConnection := []
  ended : List WorldConnection := []
  looked : List WorldMsg := []
  selfClosed : List WorldConnection := []
deriving DecidableEq

namespace World

inductive Action where
  | networkAccept (conn : WorldConnection)
  | networkReceviedMsg (conn : WorldConnection) (msg : NetworkMsg)
  | networkTimeout (conn : WorldConnection)
  | networkClosed (conn : WorldConnection)
  | processNewConn
  | processClosedConn
  | dispatchMsg
  | sessions
deriving DecidableEq

/-- A step that is not possible in the state. -/
inductive Fault where
  | disabled
deriving DecidableEq

/-! ### The network thread -/

def networkAccept (w : World) (conn : WorldConnection) : Except Fault World :=
  if conn ∈ w.accepted then .error .disabled
  else .ok { w with newConn := w.newConn ++ [conn], accepted := w.accepted ++ [conn] }

/-- The connection is accepted and was not reported closed or timed out. -/
def isOpen (w : World) (conn : WorldConnection) : Bool := conn ∈ w.accepted && conn ∉ w.ended

/-- The message for the world, if there is a callback for it. -/
def worldMsg? (conn : WorldConnection) (msg : NetworkMsg) : Option WorldMsg :=
  (findRegCallback msg.msgId).map fun session_fun => { conn, networkMsg := msg, sessionFun := session_fun }

def networkReceviedMsg (w : World) (conn : WorldConnection) (msg : NetworkMsg) : Except Fault World :=
  if w.isOpen conn then .ok { w with worldMsgs := w.worldMsgs ++ (worldMsg? conn msg).toList }
  else .error .disabled

/-- `networkTimeout` and `networkClosed`, which do the same. -/
def networkEnded (w : World) (conn : WorldConnection) : Except Fault World :=
  if w.isOpen conn then .ok { w with closedConn := w.closedConn ++ [conn], ended := w.ended ++ [conn] }
  else .error .disabled

def networkTimeout (w : World) (conn : WorldConnection) : Except Fault World := w.networkEnded conn

def networkClosed (w : World) (conn : WorldConnection) : Except Fault World := w.networkEnded conn

/-! ### heartbeat -/

/-- `insert` of the map, which keeps a session that is there. -/
def insertSession (sessions : List WorldSession) (conn : WorldConnection) : List WorldSession :=
  if sessions.any (·.conn = conn) then sessions else sessions ++ [{ conn := conn }]

def processNewConn (w : World) : World :=
  { w with newConn := [], sessions := w.newConn.foldl insertSession w.sessions }

/-- Closes the sessions of the connections; a connection without a session is skipped. -/
def processClosedConn (w : World) : World :=
  { w with
    closedConn := []
    sessions := w.sessions.map fun session => if session.conn ∈ w.closedConn then session.closed else session }

def findSession (w : World) (conn : WorldConnection) : Option WorldSession := w.sessions.find? (·.conn = conn)

/-- The session with the connection takes the message. -/
def postMsg (sessions : List WorldSession) (msg : WorldMsg) : List WorldSession :=
  sessions.map fun session => if session.conn = msg.conn then session.postMsg msg else session

def dispatch (w : World) (msg : WorldMsg) : World :=
  match w.findSession msg.conn with
  | none => w
  | some session =>
    let w := { w with looked := w.looked ++ [msg] }
    if worldMsgFilter session msg then w else { w with sessions := postMsg w.sessions msg }

def dispatchMsg (w : World) : World := w.worldMsgs.foldl dispatch { w with worldMsgs := [] }

/-- The loop over the sessions. -/
def heartbeatSessions (shuts : WorldMsg → Bool) (w : World) : World :=
  let beaten := w.sessions.map fun session => if session.isClosed then session else session.heartbeat shuts
  { w with
    sessions := beaten.filter fun session => !session.isClosed
    selfClosed := w.selfClosed ++
      ((w.sessions.filter fun session => !session.isClosed && (session.heartbeat shuts).isClosed).map (·.conn)) }

def step (shuts : WorldMsg → Bool) (w : World) : Action → Except Fault World
  | .networkAccept conn => w.networkAccept conn
  | .networkReceviedMsg conn msg => w.networkReceviedMsg conn msg
  | .networkTimeout conn => w.networkTimeout conn
  | .networkClosed conn => w.networkClosed conn
  | .processNewConn =>
    if w.phase = .processNewConn then .ok { w.processNewConn with phase := .processClosedConn } else .error .disabled
  | .processClosedConn =>
    if w.phase = .processClosedConn then .ok { w.processClosedConn with phase := .dispatchMsg } else .error .disabled
  | .dispatchMsg =>
    if w.phase = .dispatchMsg then .ok { w.dispatchMsg with phase := .sessions } else .error .disabled
  | .sessions =>
    if w.phase = .sessions then .ok { w.heartbeatSessions shuts with phase := .processNewConn } else .error .disabled

/-- The parts of one `heartbeat`. -/
def heartbeat : List Action := [.processNewConn, .processClosedConn, .dispatchMsg, .sessions]

end World

end Zylib.GameServer
