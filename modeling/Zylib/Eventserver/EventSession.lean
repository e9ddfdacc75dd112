import Zylib.Cpp
import Zylib.Lib.Run

/-! The sessions of `eventserver` (EventSession.cpp, EventSessionManager.cpp, EventTask.cpp) and the loop that serves them
    (EventServer.cpp). An event that is added is pending until its callback runs or `event_del` takes it out. -/

namespace Zylib.Eventserver

structure EventSessionID where
  fd : Int
  seqId : Nat
deriving DecidableEq

inductive EventTask where
  | send (sid : EventSessionID) (buffer : Bytes)
  | shutdownSession (sid : EventSessionID)
deriving DecidableEq

def EventTask.sid : EventTask → EventSessionID
  | .send sid _ => sid
  | .shutdownSession sid => sid

/-- `disabled` is a step that is not possible in the state, `deleted` a use of a session that was deleted. -/
inductive Fault where
  | disabled
  | deleted
deriving DecidableEq

/-- How `onRead` is called, and what `read` and `decode` give. -/
inductive ReadResult where
  | timeout
  | noBytes
  | decoded (msg_count : Int)
deriving DecidableEq

/-- What `EventBuffer::write` gives: the number of bytes written, or why there are none. -/
inductive WriteResult where
  | wrote (write_len : Nat)
  | again
  | failed
deriving DecidableEq

/-- The members of a session, and whether its events are pending. `ended` counts the calls of `close` and `timeout`,
    `deletes` how often it was deleted, and `written` is what its socket has taken. -/
structure EventSession where
  sid : EventSessionID
  isShutdown : Bool := false
  waitWriten : Bool := false
  sendBuffer : Bytes := []
  readEvent : Bool := false
  writeEvent : Bool := false
  ended : Nat := 0
  deletes : Nat := 0
  written : Bytes := []
deriving DecidableEq

namespace EventSession

/-- `EventBuffer::getSize`, which returns an `int`. -/
def getSize (e : EventSession) : Int := (e.sendBuffer.length : Int).bmod (2 ^ 32)

def isClosed (e : EventSession) : Bool := e.isShutdown

def appendResponse (e : EventSession) (buffer : Bytes) : EventSession := { e with sendBuffer := e.sendBuffer ++ buffer }

def addReadEvent (e : EventSession) : EventSession := { e with readEvent := true }

def addWriteEvent (e : EventSession) : EventSession := { e with writeEvent := true, waitWriten := true }

/-- `shutdown`, with the task that it submits. -/
def shutdown (e : EventSession) : EventSession × List EventTask :=
  if e.isShutdown then (e, []) else ({ e with isShutdown := true }, [.shutdownSession e.sid])

/-- Whether the session can be deleted. -/
def release (e : EventSession) : EventSession × Bool :=
  let e := { e with isShutdown := true }
  if e.waitWriten then (e, false) else ({ e with readEvent := false, writeEvent := false }, true)

/-- The `close` or the `timeout` of the handler, which may submit tasks, and `shutdown`. -/
def finish (e : EventSession) (submits : List EventTask) : EventSession × List EventTask :=
  let (e, tasks) := { e with ended := e.ended + 1 }.shutdown
  (e, submits ++ tasks)

/-- `onRead`, with the tasks that its callback of the handler submits. -/
def onRead (e : EventSession) (result : ReadResult) (submits : List EventTask) : EventSession × List EventTask :=
  if e.isClosed then (e, [])
  else
    match result with
    | .decoded msg_count =>
      if 0 ≤ msg_count then (e.addReadEvent, if 0 < msg_count then submits else [])
      else e.finish submits
    | .noBytes => e.finish submits
    | .timeout => e.finish submits

/-- The loop of `onWrite`, which stops when the buffer is empty or a write gives nothing; the result tells whether an
    error other than `EAGAIN` has stopped it. -/
def writeLoop (e : EventSession) : List WriteResult → Except Fault (EventSession × Bool)
  | [] => if 0 < e.getSize then .error .disabled else .ok (e, false)
  | result :: results =>
    if 0 < e.getSize then
      match result with
      | .wrote n =>
        if 0 < n ∧ n ≤ e.sendBuffer.length then
          writeLoop { e with sendBuffer := e.sendBuffer.drop n, written := e.written ++ e.sendBuffer.take n } results
        else .error .disabled
      | .again => if results = [] then .ok (e.addWriteEvent, false) else .error .disabled
      | .failed => if results = [] then .ok (e, true) else .error .disabled
    else .error .disabled

/-- `onWrite`, with the tasks that `close` submits. -/
def onWrite (e : EventSession) (results : List WriteResult) (submits : List EventTask) :
    Except Fault (EventSession × List EventTask) :=
  match { e with waitWriten := false }.writeLoop results with
  | .error f => .error f
  | .ok (e, failed) =>
    let (e, tasks) := if failed then e.finish submits else (e, [])
    .ok (e, tasks ++ if ¬e.waitWriten ∧ e.isClosed then [.shutdownSession e.sid] else [])

def asyncWrite (e : EventSession) (results : List WriteResult) (submits : List EventTask) :
    Except Fault (EventSession × List EventTask) :=
  if e.waitWriten then .ok (e, []) else e.onWrite results submits

end EventSession

/-- All sessions in the order in which they were made, which stand for the pointers to them by their places; `m_sessions`;
    the tasks; and those that `executeTask` has run. -/
structure EventServer where
  made : List EventSession := []
  sessions : List (EventSessionID × Nat) := []
  seqId : Nat := 0
  tasks : List EventTask := []
  ran : List EventTask := []
deriving DecidableEq

namespace EventServer

def findSession (s : EventServer) (sid : EventSessionID) : Option Nat := (s.sessions.find? (·.1 = sid)).map (·.2)

def eraseSession (s : EventServer) (sid : EventSessionID) : EventServer :=
  { s with sessions := s.sessions.filter (·.1 ≠ sid) }

/-- `createSession`; `insert` of the map keeps an entry that is there. -/
def createSession (s : EventServer) (fd : Int) : EventServer × EventSession :=
  let seq_id := (if s.seqId = int32Max then 0 else s.seqId) + 1
  let session : EventSession := { sid := ⟨fd, seq_id⟩ }
  let sessions := if s.sessions.any (·.1 = session.sid) then s.sessions else s.sessions ++ [(session.sid, s.made.length)]
  ({ s with seqId := seq_id, sessions }, session)

def submitTasks (s : EventServer) (tasks : List EventTask) : EventServer := { s with tasks := s.tasks ++ tasks }

/-- The application has the identifiers of sessions from their requests, so none that is still to be made. -/
def known (s : EventServer) (submits : List EventTask) : Bool := submits.all fun task => task.sid.seqId ≤ s.seqId

/-- `onAccept`, with the tasks that `start` submits. A descriptor that is open is not given again, and the runs have fewer
    than 2^31 - 1 accepts. -/
def onAccept (s : EventServer) (fd : Int) (submits : List EventTask) : Except Fault EventServer :=
  if s.made.length + 1 < int32Max ∧ ∀ e ∈ s.made, e.deletes = 0 → e.sid.fd ≠ fd then
    let (s, session) := s.createSession fd
    if s.known submits then .ok ({ s with made := s.made ++ [session.addReadEvent] }.submitTasks submits)
    else .error .disabled
  else .error .disabled

def onRead (s : EventServer) (i : Nat) (result : ReadResult) (submits : List EventTask) : Except Fault EventServer :=
  match s.made[i]? with
  | none => .error .disabled
  | some e =>
    if e.readEvent ∧ s.known submits then
      if e.deletes ≠ 0 then .error .deleted
      else
        let (e, tasks) := { e with readEvent := false }.onRead result submits
        .ok ({ s with made := s.made.set i e }.submitTasks tasks)
    else .error .disabled

def onWrite (s : EventServer) (i : Nat) (results : List WriteResult) (submits : List EventTask) :
    Except Fault EventServer :=
  match s.made[i]? with
  | none => .error .disabled
  | some e =>
    if e.writeEvent ∧ s.known submits then
      if e.deletes ≠ 0 then .error .deleted
      else
        match { e with writeEvent := false }.onWrite results submits with
        | .error f => .error f
        | .ok (e, tasks) => .ok ({ s with made := s.made.set i e }.submitTasks tasks)
    else .error .disabled

/-- `EventSendTask::run`. -/
def runSend (s : EventServer) (sid : EventSessionID) (buffer : Bytes) (results : List WriteResult)
    (submits : List EventTask) : Except Fault EventServer :=
  match s.findSession sid with
  | none => .ok s
  | some i =>
    match s.made[i]? with
    | none => .error .disabled
    | some e =>
      if e.deletes ≠ 0 then .error .deleted
      else if e.isClosed then .ok s
      else
        match (e.appendResponse buffer).asyncWrite results submits with
        | .error f => .error f
        | .ok (e, tasks) => .ok ({ s with made := s.made.set i e }.submitTasks tasks)

/-- `EventShutdownSessionTask::run`. -/
def runShutdown (s : EventServer) (sid : EventSessionID) : Except Fault EventServer :=
  match s.findSession sid with
  | none => .ok s
  | some i =>
    match s.made[i]? with
    | none => .error .disabled
    | some e =>
      if e.deletes ≠ 0 then .error .deleted
      else
        let (e, released) := e.release
        if released then .ok ({ s with made := s.made.set i { e with deletes := e.deletes + 1 } }.eraseSession sid)
        else .ok { s with made := s.made.set i e }

/-- A turn of the loop of `executeTask`. -/
def executeTask (s : EventServer) (results : List WriteResult) (submits : List EventTask) : Except Fault EventServer :=
  match s.tasks with
  | [] => .error .disabled
  | task :: tasks =>
    let s := { s with tasks, ran := s.ran ++ [task] }
    if s.known submits then
      match task with
      | .send sid buffer => s.runSend sid buffer results submits
      | .shutdownSession sid => s.runShutdown sid
    else .error .disabled

inductive Action where
  | onAccept (fd : Int) (submits : List EventTask)
  | onRead (session : Nat) (result : ReadResult) (submits : List EventTask)
  | onWrite (session : Nat) (results : List WriteResult) (submits : List EventTask)
  | submitTask (task : EventTask)
  | executeTask (results : List WriteResult) (submits : List EventTask)

def step (s : EventServer) : Action → Except Fault EventServer
  | .onAccept fd submits => s.onAccept fd submits
  | .onRead i result submits => s.onRead i result submits
  | .onWrite i results submits => s.onWrite i results submits
  | .submitTask task => if s.known [task] then .ok (s.submitTasks [task]) else .error .disabled
  | .executeTask results submits => s.executeTask results submits

end EventServer
end Zylib.Eventserver
