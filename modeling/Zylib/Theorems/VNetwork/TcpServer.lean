import Zylib.Lib.Lists
import Zylib.Theorems.VNetwork.Reader

/-! What the event handler of a `TcpServer` is told, and which sessions are in `session_map_`. A session is told to be closed once; the
    handler of a read that had ended before that may still tell of one message. -/

namespace Zylib.VNetwork
open Framing Run

namespace ServerSession
open KNet.MessageDecoder (memcpyAt)
open Session (announced read)
open TcpServer (Fault)

variable {s t : ServerSession} {leaves : Bool}

/-! ### What a session keeps -/

/-- The session was accepted, has received, was closed, and after that has received at most once. -/
def Told (s : ServerSession) (after : List Bytes) : Prop :=
  ∃ before : List Bytes,
    s.events = .accepted :: before.map .received ++ if s.closed then .closed :: after.map .received else []

/-- The read fails, or there is none. -/
def Ending (s : ServerSession) : Prop := ∀ part outcome, s.reading = some (part, outcome) → ∃ bytes, outcome = some (.error bytes)

/-- An open session reads, and a closed one ends with the message that it was told of after it was closed. -/
structure Reads (s : ServerSession) : Prop where
  told : ∃ after, s.Told after ∧ after.length ≤ 1 ∧ (after ≠ [] → s.closed = true → s.Ending)
  reading : s.closed = false → s.reading.isSome

/-- The socket has taken the frames of `handed`, and of the message that is written the beginning. -/
structure Writes (s : ServerSession) (handed : List ChatMessage) : Prop where
  sent : s.sent = handed ++ s.writeMsgs
  wire : s.wire <+: stream frame s.sent
  busy : ∀ rest outcome, s.writing = some (rest, outcome) → ∃ front tail, s.writeMsgs = front :: tail ∧
    s.wire ++ rest = stream frame (handed ++ [front]) ∧ (outcome = some true → rest = [])
  idle : s.writing = none → s.writeMsgs ≠ [] → s.closed = true
  done : s.writing = none → s.writeMsgs = [] → s.wire = stream frame handed

/-- The handlers are where a reader is that has the same bytes, which it gets one at a time. -/
structure Follows (s : ServerSession) : Prop where
  received : s.received = (read .serverSession s.input).received
  header : ∀ outcome, s.reading = some (.header, outcome) → (read .serverSession s.input).reading = .header []
  body : ∀ outcome, s.reading = some (.body, outcome) → (read .serverSession s.input).reading = .body [] ∧
    (read .serverSession s.input).readMsg.getBodyLength = s.readMsg.getBodyLength ∧
    s.readMsg.body.length = s.readMsg.getBodyLength ∧ s.readMsg.getBodyLength ≠ 0
  whole : ∀ part bytes, s.reading = some (part, some (.ok bytes)) → bytes.length = s.needed part

structure Inv (s : ServerSession) : Prop where
  reads : s.Reads
  writes : ∃ handed, s.Writes handed
  follows : s.Follows

/-- What a function of the session does: `leaves` says whether it calls `SessionLeave`. -/
structure Goes (s t : ServerSession) (leaves : Bool) (new : List ChatMessage) : Prop where
  inv : t.Inv
  index : t.index = s.index
  closed : t.closed = (s.closed || leaves)
  once : leaves = true → s.closed = false
  sent : t.sent = s.sent ++ new

/-! ### Reading -/

/-- The parts of a session that only writing concerns. -/
structure SameWrites (s t : ServerSession) : Prop where
  index : t.index = s.index
  writeMsgs : t.writeMsgs = s.writeMsgs
  writing : t.writing = s.writing
  wire : t.wire = s.wire
  sent : t.sent = s.sent

theorem SameWrites.refl (s : ServerSession) : SameWrites s s := ⟨rfl, rfl, rfl, rfl, rfl⟩

/-- Writing goes on in a session that is closed meanwhile. -/
theorem Writes.of_same {handed : List ChatMessage} (h : s.Writes handed) (same : SameWrites s t)
    (hclosed : s.closed = true → t.closed = true) : t.Writes handed where
  sent := by rw [same.sent, same.writeMsgs, h.sent]
  wire := by rw [same.wire, same.sent]; exact h.wire
  busy := by rw [same.writing, same.writeMsgs, same.wire]; exact h.busy
  idle := by rw [same.writing, same.writeMsgs]; exact fun hn hne => hclosed (h.idle hn hne)
  done := by rw [same.writing, same.writeMsgs, same.wire]; exact h.done

theorem Inv.goes (h : s.Inv) (same : SameWrites s t) (hreads : t.Reads) (hfollows : t.Follows) (hclosed : t.closed = s.closed) :
    Goes s t false [] where
  inv := by
    obtain ⟨handed, hw⟩ := h.writes
    exact ⟨hreads, ⟨handed, hw.of_same same fun hs => hclosed ▸ hs⟩, hfollows⟩
  index := same.index
  closed := hclosed.trans (Bool.or_false _).symm
  once hf := by cases hf
  sent := by rw [same.sent, List.append_nil]

/-- The read that is started fails at once if the session is closed. -/
theorem asyncRead_eq (h : s.reading = none) (part : Part) :
    s.asyncRead part = .ok { s with reading := some (part, if s.closed then some (.error []) else none) } := by
  unfold asyncRead
  rw [h]

theorem ending_of_closed {part : Part} (h : s.closed = true)
    (ht : t.reading = some (part, if s.closed then some (.error []) else none)) : t.Ending := by
  intro part' outcome hr
  rw [ht, h] at hr
  cases hr
  exact ⟨[], rfl⟩

/-- A read is followed by another, with nothing told. -/
theorem Reads.next {part : Part} (h : s.Reads) (hevents : t.events = s.events) (hclosed : t.closed = s.closed)
    (hreading : t.reading = some (part, if s.closed then some (.error []) else none)) : t.Reads where
  told := by
    obtain ⟨after, htold, hlen, -⟩ := h.told
    refine ⟨after, ?_, hlen, fun _ hc => ending_of_closed (hclosed ▸ hc) hreading⟩
    unfold Told
    rwa [hevents, hclosed]
  reading _ := by rw [hreading, Option.isSome_some]

/-- A message is received, and the next read started. -/
theorem Reads.received {part : Part} {bytes body : Bytes} (h : s.Reads) {p : Part} (hs : s.reading = some (p, some (.ok bytes)))
    (hevents : t.events = s.events ++ [.received body]) (hclosed : t.closed = s.closed)
    (hreading : t.reading = some (part, if s.closed then some (.error []) else none)) : t.Reads where
  told := by
    obtain ⟨after, ⟨before, htold⟩, hlen, hending⟩ := h.told
    cases hc : s.closed with
    | false =>
      refine ⟨[], ⟨before ++ [body], ?_⟩, Nat.zero_le 1, fun hne => absurd rfl hne⟩
      rw [hevents, htold, hclosed, hc]
      simp
    | true =>
      -- The read that has succeeded was not started after the session was closed.
      have hnil : after = [] := by
        by_contra hne
        obtain ⟨_, hout⟩ := hending hne hc p _ hs
        cases hout
      refine ⟨[body], ⟨before, ?_⟩, Nat.le_refl 1, fun _ _ => ending_of_closed hc hreading⟩
      rw [hevents, htold, hclosed, hc, hnil]
      simp
  reading _ := by rw [hreading, Option.isSome_some]

/-! ### The bytes that are read -/

theorem received_append (s : ServerSession) (e : ServerEvent) : { s with events := s.events ++ [e] }.received =
    s.received ++ match e with | .received body => [body] | _ => [] := by
  unfold received
  rw [List.filterMap_append]
  cases e <;> rfl

/-- The read that is started for what the reader waits for. -/
theorem Follows.start {c : Bool} {p : Part} (hreading : t.reading = some (p, if c then some (.error []) else none))
    (hreceived : t.received = (read .serverSession t.input).received)
    (hheader : p = .header → (read .serverSession t.input).reading = .header [])
    (hbody : p = .body → (read .serverSession t.input).reading = .body [] ∧
      (read .serverSession t.input).readMsg.getBodyLength = t.readMsg.getBodyLength ∧
      t.readMsg.body.length = t.readMsg.getBodyLength ∧ t.readMsg.getBodyLength ≠ 0) : t.Follows where
  received := hreceived
  header outcome hr := by
    rw [hreading] at hr
    cases hr
    exact hheader rfl
  body outcome hr := by
    rw [hreading] at hr
    cases hr
    exact hbody rfl
  whole part' bytes hr := by
    rw [hreading] at hr
    cases c <;> cases hr

/-- No read is started. -/
theorem Follows.stop (hreading : t.reading = none) (hreceived : t.received = (read .serverSession t.input).received) :
    t.Follows where
  received := hreceived
  header _ hr := by cases hreading.symm.trans hr
  body _ hr := by cases hreading.symm.trans hr
  whole _ _ hr := by cases hreading.symm.trans hr

/-- A header that arrives is decoded as the reader does it. -/
theorem Follows.announced {bytes : Bytes} (h : s.Follows) (hs : s.reading = some (.header, some (.ok bytes))) :
    match announced bytes with
    | none => ∃ m, (s.readMsg.write 0 bytes).decodeHeader = (false, m)
    | some n => ∃ m, (s.readMsg.write 0 bytes).decodeHeader = (true, m) ∧ m.getBodyLength = n ∧ m.body = List.replicate n 0 := by
  have hlen : bytes.length = HEADER_LENGTH := h.whole _ _ hs
  have htake : (s.readMsg.write 0 bytes).buffer.take HEADER_LENGTH = bytes := by
    have hbuffer : (s.readMsg.write 0 bytes).buffer = bytes ++ s.readMsg.buffer.drop bytes.length :=
      ChatMessage.memcpyAt_front ..
    rw [hbuffer, List.take_left' hlen]
  have hdecode := Session.decodeHeader_of_announced htake
  split
  · rename_i hn
    rw [hn] at hdecode
    exact ⟨_, hdecode⟩
  · rename_i n hn
    rwa [hn] at hdecode

/-! ### `Shutdown` -/

@[simp] theorem shutdown_closed (s : ServerSession) : s.shutdown.1.closed = true := by
  unfold ServerSession.shutdown
  split
  · assumption
  · rfl

@[simp] theorem shutdown_leaves (s : ServerSession) : s.shutdown.2 = !s.closed := by
  unfold ServerSession.shutdown
  split <;> simp [*]

theorem sameWrites_shutdown (s : ServerSession) : SameWrites s s.shutdown.1 := by
  unfold ServerSession.shutdown
  split <;> exact ⟨rfl, rfl, rfl, rfl, rfl⟩

theorem Follows.shutdown (h : s.Follows) : s.shutdown.1.Follows := by
  unfold ServerSession.shutdown
  split
  · exact h
  · refine ⟨?_, h.header, h.body, h.whole⟩
    have hreceived := received_append s .closed
    exact (hreceived.trans (List.append_nil _)).trans h.received

/-- A session that has been closed is not told so again; one that is closed now has nothing to tell after that. -/
theorem Reads.shutdown (h : s.Reads) (hevents : t.events = s.events) (hclosed : t.closed = s.closed)
    (hreading : ∀ x, t.reading = some x → s.reading = some x) : t.shutdown.1.Reads := by
  obtain ⟨after, ⟨before, htold⟩, hlen, hending⟩ := h.told
  unfold ServerSession.shutdown
  rw [hclosed]
  cases hc : s.closed with
  | true =>
    refine ⟨⟨after, ⟨before, ?_⟩, hlen, fun hne _ part outcome hr => hending hne hc part outcome (hreading _ hr)⟩, fun hf => ?_⟩
    · simpa [hevents, hclosed, hc] using htold
    · simp [hclosed, hc] at hf
  | false =>
    refine ⟨⟨[], ⟨before, ?_⟩, Nat.zero_le 1, fun hne => absurd rfl hne⟩, fun hf => (by cases hf)⟩
    simp [hevents, htold, hc]

/-! ### Steps of a session -/

/-- The function is not possible, or does what a function of the session does. -/
def StepGoes (s : ServerSession) (new : List ChatMessage) (r : Except Fault (ServerSession × Bool)) : Prop :=
  r = .error .disabled ∨ ∃ t leaves, r = .ok (t, leaves) ∧ Goes s t leaves new

theorem StepGoes.stays {new : List ChatMessage} {r : Except Fault ServerSession} (hr : r = .ok t) (h : Goes s t false new) :
    s.StepGoes new (ServerSession.stays r) := .inr ⟨t, false, by rw [hr]; rfl, h⟩

/-- `Shutdown` in a handler. -/
theorem StepGoes.shutdown {u : ServerSession} (handed : List ChatMessage) (hindex : u.index = s.index) (hsent : u.sent = s.sent)
    (hclosed : u.closed = s.closed) (hreads : u.shutdown.1.Reads) (hw : u.shutdown.1.Writes handed) (hfollows : u.Follows) :
    s.StepGoes [] (.ok u.shutdown) := by
  have same := sameWrites_shutdown u
  refine .inr ⟨u.shutdown.1, u.shutdown.2, rfl, ⟨⟨hreads, ⟨handed, hw⟩, hfollows.shutdown⟩, same.index.trans hindex, ?_, ?_, ?_⟩⟩
  · rw [shutdown_closed, shutdown_leaves, hclosed, Bool.or_not_self]
  · rw [shutdown_leaves, hclosed]
    simp
  · rw [same.sent, hsent, List.append_nil]

/-- The handler of a read shuts the session down. -/
theorem Inv.shutdown_of_read {u : ServerSession} (h : s.Inv) (same : SameWrites s u) (hevents : u.events = s.events)
    (hclosed : u.closed = s.closed) (hreading : ∀ x, u.reading = some x → s.reading = some x) (hfollows : u.Follows) :
    s.StepGoes [] (.ok u.shutdown) := by
  obtain ⟨handed, hw⟩ := h.writes
  refine .shutdown handed same.index same.sent hclosed (h.reads.shutdown hevents hclosed hreading) ?_ hfollows
  exact (hw.of_same same fun hs => hclosed ▸ hs).of_same (sameWrites_shutdown u) fun _ => shutdown_closed u

theorem Inv.readEnds (h : s.Inv) (outcome : Outcome) : s.StepGoes [] (ServerSession.stays (s.readEnds outcome)) := by
  unfold ServerSession.readEnds
  split
  · rename_i part hreading
    split
    · rename_i hends
      refine .stays rfl (h.goes ⟨rfl, rfl, rfl, rfl, rfl⟩ ?_ ⟨h.follows.received, ?_, ?_, ?_⟩ rfl)
      · obtain ⟨after, htold, hlen, hending⟩ := h.reads.told
        refine ⟨⟨after, htold, hlen, fun hne hc => ?_⟩, fun _ => rfl⟩
        obtain ⟨_, hout⟩ := hending hne hc part none hreading
        cases hout
      · intro o ho
        cases ho
        exact h.follows.header _ hreading
      · intro o ho
        cases ho
        exact h.follows.body _ hreading
      · intro p bytes ho
        cases ho
        exact hends
    · exact .inl rfl
  · exact .inl rfl

theorem Inv.onHeader {outcome : Outcome} (h : s.Inv) (hs : s.reading = some (.header, some outcome)) :
    s.StepGoes [] ({ s with reading := none }.onHeader outcome) := by
  cases outcome with
  | error bytes => exact h.shutdown_of_read ⟨rfl, rfl, rfl, rfl, rfl⟩ rfl rfl nofun (.stop rfl h.follows.received)
  | ok bytes =>
    have hdecode := h.follows.announced hs
    have hread := Session.read_announced .serverSession (h.follows.header _ hs) (h.follows.whole _ _ hs)
    unfold ServerSession.onHeader
    dsimp only
    cases hn : announced bytes with
    | none =>
      rw [hn] at hdecode hread
      obtain ⟨m, hm⟩ := hdecode
      rw [hm]
      exact h.shutdown_of_read ⟨rfl, rfl, rfl, rfl, rfl⟩ rfl rfl nofun (.stop rfl (h.follows.received.trans hread.symm))
    | some n =>
      rw [hn] at hdecode hread
      obtain ⟨m, hm, hlen, hbody⟩ := hdecode
      rw [hm]
      dsimp only at hread ⊢
      by_cases hzero : n = 0
      · rw [if_pos hzero] at hread
        rw [if_pos (hlen.trans hzero)]
        have hnil : m.body.take m.getBodyLength = [] := by rw [hlen, hzero, List.take_zero]
        refine .stays (asyncRead_eq rfl _) (h.goes ⟨rfl, rfl, rfl, rfl, rfl⟩ (h.reads.received hs rfl rfl rfl) ?_ rfl)
        refine .start (c := s.closed) (p := .header) rfl ?_ (fun _ => hread.1) nofun
        have hreceived : s.received ++ [m.body.take m.getBodyLength] = (read .serverSession (s.input ++ bytes)).received := by
          rw [hread.2, hnil, h.follows.received]
        exact (received_append s (.received _)).trans hreceived
      · rw [if_neg hzero] at hread
        rw [if_neg (hlen.trans_ne hzero)]
        refine .stays (asyncRead_eq rfl _) (h.goes ⟨rfl, rfl, rfl, rfl, rfl⟩ (h.reads.next rfl rfl rfl) ?_ rfl)
        refine .start (c := s.closed) (p := .body) rfl ?_ nofun fun _ => ⟨hread.1, hread.2.1.trans hlen.symm, ?_, hlen.trans_ne hzero⟩
        · exact h.follows.received.trans hread.2.2.symm
        · exact (congrArg List.length hbody).trans (List.length_replicate.trans hlen.symm)

theorem Inv.onBody {outcome : Outcome} (h : s.Inv) (hs : s.reading = some (.body, some outcome)) :
    s.StepGoes [] ({ s with reading := none }.onBody outcome) := by
  obtain ⟨hreader, hbody, hlen, hne⟩ := h.follows.body _ hs
  cases outcome with
  | error bytes => exact h.shutdown_of_read ⟨rfl, rfl, rfl, rfl, rfl⟩ rfl rfl nofun (.stop rfl h.follows.received)
  | ok bytes =>
    have hbytes : bytes.length = s.readMsg.getBodyLength := h.follows.whole _ _ hs
    have hread := Session.read_whole .serverSession hreader (hbytes.trans hbody.symm)
      fun hnil => hne (by rw [← hbytes, hnil]; rfl)
    have htold : (s.readMsg.write HEADER_LENGTH bytes).body.take s.readMsg.getBodyLength = bytes := by
      have hwrite := ChatMessage.body_write s.readMsg 0 bytes
      rw [ChatMessage.memcpyAt_front] at hwrite
      exact (congrArg (List.take _) hwrite).trans (List.take_left' hbytes)
    refine .stays (asyncRead_eq rfl _) (h.goes ⟨rfl, rfl, rfl, rfl, rfl⟩ (h.reads.received hs rfl rfl rfl) ?_ rfl)
    refine .start (c := s.closed) (p := .header) rfl ?_ (fun _ => hread.1) nofun
    have hreceived : s.received ++ [(s.readMsg.write HEADER_LENGTH bytes).body.take s.readMsg.getBodyLength] =
        (read .serverSession (s.input ++ bytes)).received := by
      rw [htold, hread.2, h.follows.received]
    exact (received_append s (.received _)).trans hreceived

theorem Inv.runRead (h : s.Inv) : s.StepGoes [] s.runRead := by
  unfold ServerSession.runRead
  split
  · exact h.onHeader ‹_›
  · exact h.onBody ‹_›
  · exact .inl rfl

/-! ### Writing -/

/-- The parts of a session that only reading concerns. -/
structure SameReads (s t : ServerSession) : Prop where
  index : t.index = s.index
  closed : t.closed = s.closed
  reading : t.reading = s.reading
  readMsg : t.readMsg = s.readMsg
  input : t.input = s.input
  events : t.events = s.events

theorem Reads.of_same (h : s.Reads) (same : SameReads s t) : t.Reads := by
  obtain ⟨⟨after, htold, hlen, hending⟩, hreading⟩ := h
  refine ⟨⟨after, ?_, hlen, ?_⟩, ?_⟩
  · unfold Told
    rwa [same.events, same.closed]
  · unfold Ending
    rwa [same.reading, same.closed]
  · rwa [same.reading, same.closed]

theorem Follows.of_same (h : s.Follows) (same : SameReads s t) : t.Follows where
  received := by
    unfold ServerSession.received
    rw [same.events, same.input]
    exact h.received
  header := by rw [same.reading, same.input]; exact h.header
  body := by rw [same.reading, same.input, same.readMsg]; exact h.body
  whole part bytes := by
    rw [same.reading]
    intro hr
    cases part with
    | header => exact h.whole _ _ hr
    | body => exact (h.whole _ _ hr).trans (congrArg ChatMessage.getBodyLength same.readMsg.symm)

theorem Inv.goes_writes {new : List ChatMessage} (h : s.Inv) (handed : List ChatMessage) (same : SameReads s t) (hw : t.Writes handed)
    (hsent : t.sent = s.sent ++ new) : Goes s t false new where
  inv := ⟨h.reads.of_same same, ⟨handed, hw⟩, h.follows.of_same same⟩
  index := same.index
  closed := same.closed.trans (Bool.or_false _).symm
  once hf := by cases hf
  sent := hsent

theorem asyncWrite_eq (h : s.writing = none) (bytes : Bytes) :
    s.asyncWrite bytes = .ok { s with writing := some (bytes, if s.closed then some false else none) } := by
  unfold asyncWrite
  rw [h]

/-- The first message of the queue is written, the ones before it have been. -/
theorem writes_start {handed : List ChatMessage} {front : ChatMessage} {tail : List ChatMessage} {outcome : Option Bool}
    (hsent : s.sent = handed ++ front :: tail) (hwire : s.wire = stream frame handed) (hout : outcome ≠ some true) :
    Writes { s with writeMsgs := front :: tail, writing := some (frame front, outcome) } handed where
  sent := hsent
  wire := by
    rw [hsent, hwire, stream_append]
    exact List.prefix_append _ _
  busy rest o hw := by
    cases hw
    exact ⟨front, tail, rfl, by rw [hwire, stream_append, stream_cons, stream_nil, List.append_nil], fun ho => absurd ho hout⟩
  idle hn := by cases hn
  done hn := by cases hn

theorem doWrite_eq {front : ChatMessage} {tail : List ChatMessage} (h : s.writing = none) (hmsgs : s.writeMsgs = front :: tail) :
    s.doWrite = .ok { s with writing := some (frame front, if s.closed then some false else none) } := by
  unfold doWrite asyncWrite
  rw [h]
  split
  · cases ‹s.writeMsgs = []›.symm.trans hmsgs
  · cases ‹s.writeMsgs = _›.symm.trans hmsgs
    rfl

theorem ite_ne_some_true (b : Bool) : (if b then some false else none) ≠ some true := by cases b <;> decide

theorem Inv.takes (h : s.Inv) (n : Nat) : s.StepGoes [] (ServerSession.stays (s.takes n)) := by
  obtain ⟨handed, hw⟩ := h.writes
  unfold ServerSession.takes
  split
  · rename_i rest hwriting
    obtain ⟨front, tail, hmsgs, hwire, -⟩ := hw.busy _ _ hwriting
    have happend : s.wire ++ rest.take n ++ rest.drop n = stream frame (handed ++ [front]) := by
      rw [List.append_assoc, List.take_append_drop, hwire]
    have hprefix : stream frame (handed ++ [front]) <+: stream frame s.sent := by
      rw [hw.sent, hmsgs, List.append_cons handed front tail, stream_append _ tail]
      exact List.prefix_append _ _
    refine .stays rfl (h.goes_writes handed ⟨rfl, rfl, rfl, rfl, rfl, rfl⟩ ?_ (List.append_nil _).symm)
    refine ⟨hw.sent, List.IsPrefix.trans ⟨_, happend⟩ hprefix, fun r o heq => ?_, nofun, nofun⟩
    cases heq
    refine ⟨front, tail, hmsgs, happend, fun ho => ?_⟩
    split at ho
    · exact List.isEmpty_iff.mp ‹_›
    · cases ho
  · exact .inl rfl

theorem Inv.writeFails (h : s.Inv) : s.StepGoes [] (ServerSession.stays s.writeFails) := by
  obtain ⟨handed, hw⟩ := h.writes
  unfold ServerSession.writeFails
  split
  · rename_i rest hwriting
    obtain ⟨front, tail, hmsgs, hwire, -⟩ := hw.busy _ _ hwriting
    refine .stays rfl (h.goes_writes handed ⟨rfl, rfl, rfl, rfl, rfl, rfl⟩ ?_ (List.append_nil _).symm)
    refine ⟨hw.sent, hw.wire, fun r o heq => ?_, nofun, nofun⟩
    cases heq
    exact ⟨front, tail, hmsgs, hwire, nofun⟩
  · exact .inl rfl

theorem Inv.send (h : s.Inv) (msg : ChatMessage) : s.StepGoes [msg] (ServerSession.stays (s.send msg)) := by
  obtain ⟨handed, hw⟩ := h.writes
  have hsent : s.sent ++ [msg] = handed ++ (s.writeMsgs ++ [msg]) := by rw [hw.sent, List.append_assoc]
  unfold ServerSession.send
  dsimp only
  by_cases hempty : s.writeMsgs = []
  · have hnone : s.writing = none := by
      cases hwriting : s.writing with
      | none => rfl
      | some w =>
        obtain ⟨front, tail, hmsgs, -⟩ := hw.busy _ _ hwriting
        cases hempty.symm.trans hmsgs
    rw [hempty] at hsent ⊢
    rw [if_neg (by simp)]
    refine .stays (doWrite_eq ?_ rfl) (h.goes_writes handed ⟨rfl, rfl, rfl, rfl, rfl, rfl⟩ ?_ rfl)
    · exact hnone
    · exact writes_start hsent (hw.done hnone hempty) (ite_ne_some_true _)
  · rw [if_pos (by simpa using hempty)]
    refine .inr ⟨_, false, rfl, h.goes_writes handed ⟨rfl, rfl, rfl, rfl, rfl, rfl⟩ ?_ rfl⟩
    refine ⟨hsent, hw.wire.trans ?_, fun rest outcome hwriting => ?_, fun hn _ => hw.idle hn hempty, fun _ hn => ?_⟩
    · rw [stream_append]
      exact List.prefix_append _ _
    · obtain ⟨front, tail, hmsgs, hbusy⟩ := hw.busy _ _ hwriting
      exact ⟨front, tail ++ [msg], by rw [hmsgs]; rfl, hbusy⟩
    · exact absurd hn (by simp)

theorem Inv.runWrite (h : s.Inv) : s.StepGoes [] s.runWrite := by
  obtain ⟨handed, hw⟩ := h.writes
  unfold ServerSession.runWrite
  split
  · rename_i rest hwriting
    obtain ⟨front, tail, hmsgs, hwire, hdone⟩ := hw.busy _ _ hwriting
    have hhanded : s.wire = stream frame (handed ++ [front]) := by rw [← hwire, hdone rfl, List.append_nil]
    have hsent : s.sent = handed ++ [front] ++ tail := by rw [hw.sent, hmsgs, List.append_cons]
    rw [hmsgs]
    dsimp only
    cases tail with
    | nil =>
      refine .inr ⟨_, false, rfl, h.goes_writes (handed ++ [front]) ⟨rfl, rfl, rfl, rfl, rfl, rfl⟩ ?_ (List.append_nil _).symm⟩
      exact ⟨hsent, hw.wire, nofun, fun _ hne => absurd rfl hne, fun _ _ => hhanded⟩
    | cons next tail =>
      refine .stays (doWrite_eq rfl rfl) (h.goes_writes (handed ++ [front]) ⟨rfl, rfl, rfl, rfl, rfl, rfl⟩ ?_ (List.append_nil _).symm)
      exact writes_start hsent hhanded (ite_ne_some_true _)
  · rename_i rest hwriting
    have same := sameWrites_shutdown { s with writing := none }
    refine .shutdown handed rfl rfl rfl (h.reads.shutdown rfl rfl fun _ => id) ?_ (h.follows.of_same ⟨rfl, rfl, rfl, rfl, rfl, rfl⟩)
    refine ⟨?_, ?_, ?_, fun _ _ => shutdown_closed _, ?_⟩
    · rw [same.sent, same.writeMsgs, hw.sent]
    · rw [same.wire, same.sent]
      exact hw.wire
    · rw [same.writing]
      nofun
    · -- The message that could not be written stays in the queue.
      obtain ⟨front, tail, hmsgs, -⟩ := hw.busy _ _ hwriting
      rw [same.writeMsgs]
      intro _ hnil
      cases hmsgs.symm.trans hnil
  · exact .inl rfl

/-- The messages that a step puts into the queue. -/
def queued : Action → List ChatMessage
  | .send msg => [msg]
  | _ => []

theorem Inv.step (h : s.Inv) (a : Action) : s.StepGoes (queued a) (s.step a) := by
  cases a with
  | readEnds outcome => exact h.readEnds outcome
  | runRead => exact h.runRead
  | takes n => exact h.takes n
  | writeFails => exact h.writeFails
  | runWrite => exact h.runWrite
  | send msg => exact h.send msg
  | shutdown => exact h.shutdown_of_read (.refl s) rfl rfl (fun _ => id) h.follows

/-- The session that an accept makes. -/
def started (index : Int64) : ServerSession :=
  { index, readMsg := ChatMessage.new.reset, reading := some (.header, none), events := [.accepted] }

theorem inv_started (index : Int64) : (started index).Inv where
  reads := ⟨⟨[], ⟨[], rfl⟩, Nat.zero_le 1, fun hne => absurd rfl hne⟩, fun _ => rfl⟩
  writes := ⟨[], rfl, List.prefix_rfl, nofun, fun _ hne => absurd rfl hne, fun _ _ => rfl⟩
  follows := .start (c := false) (p := .header) rfl rfl (fun _ => rfl) nofun

end ServerSession

namespace TcpServer
open ServerSession (queued started)

variable {s t : TcpServer} {i : Nat}

/-! ### The sessions of a server -/

def Inv (s : TcpServer) : Prop := ∀ x ∈ s.sessions, x.Inv

theorem accept_eq (s : TcpServer) : s.accept = .ok { s with
    indexGenerator := s.indexGenerator + 1
    sessions := s.sessions ++ [started (s.indexGenerator + 1)]
    sessionMap := s.sessionMap.filter (·.1 ≠ s.indexGenerator + 1) ++ [(s.indexGenerator + 1, s.sessions.length)] } := rfl

/-- One session takes a step, and leaves the map if it is closed by it. -/
structure Steps (s t : TcpServer) (i : Nat) (a : ServerSession.Action) : Prop where
  session : ∃ x y leaves, s.sessions[i]? = some x ∧ x.Goes y leaves (queued a) ∧ t.sessions = s.sessions.set i y ∧
    t.sessionMap = if leaves then s.sessionMap.filter (·.1 ≠ x.index) else s.sessionMap
  indexGenerator : t.indexGenerator = s.indexGenerator
  posted : t.posted = s.posted

theorem sessionStep_cases (h : Inv s) (a : ServerSession.Action) :
    s.sessionStep i a = .error .disabled ∨ ∃ t, s.sessionStep i a = .ok t ∧ Steps s t i a := by
  unfold sessionStep
  cases hi : s.sessions[i]? with
  | none => exact .inl rfl
  | some x =>
    rcases (h x (List.mem_of_getElem? hi)).step a with hdisabled | ⟨y, leaves, hok, hgoes⟩
    · exact .inl (by simp only [hdisabled])
    · simp only [hok]
      refine .inr ⟨_, rfl, ⟨⟨x, y, leaves, hi, hgoes, ?_, ?_⟩, ?_, ?_⟩⟩
      · cases leaves <;> rfl
      · rw [← hgoes.index]
        cases leaves <;> rfl
      · cases leaves <;> rfl
      · cases leaves <;> rfl

theorem Steps.inv {a : ServerSession.Action} (h : Steps s t i a) (hI : Inv s) : Inv t := by
  obtain ⟨x, y, leaves, hi, hgoes, hset, -⟩ := h.session
  intro z hz
  rw [hset] at hz
  rcases List.mem_or_eq_of_mem_set hz with hz | rfl
  · exact hI z hz
  · exact hgoes.inv

/-- What each step does. -/
inductive StepCase (s t : TcpServer) : Action → Prop
  | accept : t = { s with
      indexGenerator := s.indexGenerator + 1
      sessions := s.sessions ++ [started (s.indexGenerator + 1)]
      sessionMap := s.sessionMap.filter (·.1 ≠ s.indexGenerator + 1) ++ [(s.indexGenerator + 1, s.sessions.length)] } →
      StepCase s t .accept
  | session {act : Action} {i : Nat} {a : ServerSession.Action} : Steps s t i a → queued a = [] →
      (∀ i data, act ≠ .asyncSend i data) → StepCase s t act
  | asyncSend {i : Nat} {data : Bytes} {msg : ChatMessage} : i < s.sessions.length → ChatMessage.create data .new = some msg →
      t = { s with posted := s.posted ++ [.send i msg] } → StepCase s t (.asyncSend i data)
  | asyncClose {i : Nat} : i < s.sessions.length → t = { s with posted := s.posted ++ [.close i] } → StepCase s t (.asyncClose i)
  | runSend {i : Nat} {msg : ChatMessage} {posted : List Posted} : s.posted = .send i msg :: posted →
      Steps { s with posted } t i (.send msg) → StepCase s t .runPosted
  | runClose {i : Nat} {posted : List Posted} : s.posted = .close i :: posted →
      Steps { s with posted } t i .shutdown → StepCase s t .runPosted

theorem step_cases (h : Inv s) (a : Action) : s.step a = .error .disabled ∨ s.step a = .error .bodyTooLong ∨
    ∃ t, s.step a = .ok t ∧ StepCase s t a := by
  have hsession : ∀ i a' act, queued a' = [] → (∀ i data, act ≠ .asyncSend i data) → s.step act = s.sessionStep i a' →
      s.step act = .error .disabled ∨ s.step act = .error .bodyTooLong ∨ ∃ t, s.step act = .ok t ∧ StepCase s t act := by
    intro i a' act hqueued hact hstep
    rw [hstep]
    rcases sessionStep_cases (i := i) h a' with hdisabled | ⟨t, hok, hsteps⟩
    · exact .inl hdisabled
    · exact .inr (.inr ⟨t, hok, .session hsteps hqueued hact⟩)
  cases a with
  | accept => exact .inr (.inr ⟨_, accept_eq s, .accept rfl⟩)
  | readEnds i outcome => exact hsession i _ _ rfl nofun rfl
  | runRead i => exact hsession i _ _ rfl nofun rfl
  | takes i n => exact hsession i _ _ rfl nofun rfl
  | writeFails i => exact hsession i _ _ rfl nofun rfl
  | runWrite i => exact hsession i _ _ rfl nofun rfl
  | asyncSend i data =>
    simp only [step, asyncSend]
    split
    · rename_i hi
      split
      · exact .inr (.inl rfl)
      · rename_i msg hmsg
        exact .inr (.inr ⟨_, rfl, .asyncSend hi hmsg rfl⟩)
    · exact .inl rfl
  | asyncClose i =>
    simp only [step, asyncClose]
    split
    · exact .inr (.inr ⟨_, rfl, .asyncClose ‹_› rfl⟩)
    · exact .inl rfl
  | runPosted =>
    simp only [step, runPosted]
    split
    · exact .inl rfl
    · rename_i i msg posted hposted
      rcases sessionStep_cases (s := { s with posted }) (i := i) h (.send msg) with hdisabled | ⟨t, hok, hsteps⟩
      · exact .inl hdisabled
      · exact .inr (.inr ⟨t, hok, .runSend hposted hsteps⟩)
    · rename_i i posted hposted
      rcases sessionStep_cases (s := { s with posted }) (i := i) h .shutdown with hdisabled | ⟨t, hok, hsteps⟩
      · exact .inl hdisabled
      · exact .inr (.inr ⟨t, hok, .runClose hposted hsteps⟩)

theorem StepCase.inv {a : Action} (h : StepCase s t a) (hI : Inv s) : Inv t := by
  cases h with
  | accept ht =>
    subst ht
    intro x hx
    rcases List.mem_append.mp hx with hx | hx
    · exact hI x hx
    · rw [List.mem_singleton.mp hx]
      exact ServerSession.inv_started _
  | session hsteps => exact hsteps.inv hI
  | asyncSend _ _ ht => exact ht ▸ hI
  | asyncClose _ ht => exact ht ▸ hI
  | runSend _ hsteps => exact hsteps.inv hI
  | runClose _ hsteps => exact hsteps.inv hI

theorem step_case {a : Action} (hI : Inv s) (h : s.step a = .ok t) : StepCase s t a := by
  rcases step_cases hI a with he | he | ⟨u, hu, hcase⟩
  · cases h.symm.trans he
  · cases h.symm.trans he
  · cases h.symm.trans hu
    exact hcase

theorem step_inv {a : Action} (hI : Inv s) (h : s.step a = .ok t) : Inv t := (step_case hI h).inv hI

theorem step_error {a : Action} {e : Fault} (hI : Inv s) (h : s.step a = .error e) : e = .disabled ∨ e = .bodyTooLong := by
  rcases step_cases hI a with he | he | ⟨u, hu, -⟩
  · cases h.symm.trans he
    exact .inl rfl
  · cases h.symm.trans he
    exact .inr rfl
  · cases h.symm.trans hu

theorem inv_new : Inv {} := nofun

/-! ### `session_map_` -/

/-- The `n`-th session has the index `n`, and the map has those that are not closed. -/
structure Table (s : TcpServer) : Prop where
  index : ∀ i x, s.sessions[i]? = some x → x.index = Int64.ofNat (i + 1)
  indexGenerator : s.indexGenerator = Int64.ofNat s.sessions.length
  keys : (s.sessionMap.map Prod.fst).Nodup
  mem : ∀ index i, (index, i) ∈ s.sessionMap ↔ ∃ x, s.sessions[i]? = some x ∧ x.index = index ∧ x.closed = false

theorem ofNat_injective {m n : Nat} (hm : m < 2 ^ 64) (hn : n < 2 ^ 64) (h : Int64.ofNat m = Int64.ofNat n) : m = n := by
  have hbits := congrArg (fun x => x.toBitVec.toNat) h
  simp only [Int64.toBitVec_ofNat', BitVec.toNat_ofNat] at hbits
  rwa [Nat.mod_eq_of_lt hm, Nat.mod_eq_of_lt hn] at hbits

theorem Table.index_injective (h : Table s) (hlt : s.sessions.length < 2 ^ 64) {j : Nat} {x y : ServerSession}
    (hi : s.sessions[i]? = some x) (hj : s.sessions[j]? = some y) (heq : x.index = y.index) : i = j := by
  have hilen := (List.getElem?_eq_some_iff.mp hi).1
  have hjlen := (List.getElem?_eq_some_iff.mp hj).1
  rw [h.index i x hi, h.index j y hj] at heq
  have hsucc : i + 1 = j + 1 := ofNat_injective (Nat.lt_of_le_of_lt hilen hlt) (Nat.lt_of_le_of_lt hjlen hlt) heq
  exact Nat.succ.inj hsucc

theorem filter_ne_of_fresh {α : Type} {l : List (Int64 × α)} {index : Int64} (h : ∀ x ∈ l, x.1 ≠ index) :
    l.filter (·.1 ≠ index) = l := List.filter_eq_self.mpr fun x hx => decide_eq_true (h x hx)

theorem Table.accept (h : Table s) (hlt : s.sessions.length + 1 < 2 ^ 64) : Table { s with
    indexGenerator := s.indexGenerator + 1
    sessions := s.sessions ++ [started (s.indexGenerator + 1)]
    sessionMap := s.sessionMap.filter (·.1 ≠ s.indexGenerator + 1) ++ [(s.indexGenerator + 1, s.sessions.length)] } := by
  have hnew : s.indexGenerator + 1 = Int64.ofNat (s.sessions.length + 1) := by
    rw [h.indexGenerator, Int64.ofNat_add]
    rfl
  have hfresh : ∀ x ∈ s.sessionMap, x.1 ≠ s.indexGenerator + 1 := by
    rintro ⟨index, i⟩ hmem heq
    obtain ⟨x, hi, hindex, -⟩ := (h.mem index i).mp hmem
    have hilen := (List.getElem?_eq_some_iff.mp hi).1
    rw [h.index i x hi] at hindex
    have hsucc := ofNat_injective (by omega) hlt ((hindex.trans heq).trans hnew)
    omega
  rw [filter_ne_of_fresh hfresh]
  refine ⟨fun i x hi => ?_, ?_, ?_, fun index i => ?_⟩
  · rcases Lists.getElem?_concat_iff.mp hi with hi | ⟨rfl, rfl⟩
    · exact h.index i x hi
    · exact hnew
  · rw [List.length_append]
    exact hnew
  · rw [List.map_append, List.nodup_append]
    refine ⟨h.keys, List.nodup_singleton _, fun a ha b hb => ?_⟩
    obtain ⟨x, hx, rfl⟩ := List.mem_map.mp ha
    rw [List.mem_singleton.mp hb]
    exact hfresh x hx
  · simp only [List.mem_append, List.mem_singleton, Prod.mk.injEq, h.mem index i, Lists.getElem?_concat_iff]
    constructor
    · rintro (⟨x, hi, hx⟩ | ⟨rfl, rfl⟩)
      · exact ⟨x, .inl hi, hx⟩
      · exact ⟨_, .inr ⟨rfl, rfl⟩, rfl, rfl⟩
    · rintro ⟨x, hi | ⟨rfl, rfl⟩, hindex, hclosed⟩
      · exact .inl ⟨x, hi, hindex, hclosed⟩
      · exact .inr ⟨hindex.symm, rfl⟩

theorem Table.steps {a : ServerSession.Action} (h : Table s) (hlt : s.sessions.length < 2 ^ 64) (hs : Steps s t i a) :
    Table t := by
  obtain ⟨x, y, leaves, hi, hgoes, hset, hmap⟩ := hs.session
  have hfst : (s.sessionMap.filter (·.1 ≠ x.index)).Sublist s.sessionMap := List.filter_sublist
  refine ⟨fun j z hj => ?_, ?_, ?_, fun index j => ?_⟩
  · rw [hset] at hj
    rcases (Lists.getElem?_set_iff hi).mp hj with ⟨rfl, rfl⟩ | ⟨-, hj⟩
    · exact hgoes.index.trans (h.index i x hi)
    · exact h.index j z hj
  · rw [hs.indexGenerator, hset, List.length_set]
    exact h.indexGenerator
  · rw [hmap]
    split
    · exact h.keys.sublist (hfst.map _)
    · exact h.keys
  · have hkept : (index, j) ∈ t.sessionMap ↔ (index, j) ∈ s.sessionMap ∧ (leaves = true → index ≠ x.index) := by
      rw [hmap]
      cases leaves <;> simp
    rw [hkept, h.mem index j, hset]
    simp only [Lists.getElem?_set_iff hi]
    constructor
    · rintro ⟨⟨z, hj, hindex, hclosed⟩, hne⟩
      by_cases hij : i = j
      · subst hij
        cases hi.symm.trans hj
        -- The session stays in the map only if this step does not close it.
        have hstays : leaves = false := Bool.eq_false_iff.mpr fun hl => hne hl hindex.symm
        exact ⟨y, .inl ⟨rfl, rfl⟩, hgoes.index.trans hindex, by rw [hgoes.closed, hclosed, hstays]; rfl⟩
      · exact ⟨z, .inr ⟨hij, hj⟩, hindex, hclosed⟩
    · rintro ⟨z, ⟨rfl, rfl⟩ | ⟨hij, hj⟩, hindex, hclosed⟩
      · have hboth := hgoes.closed.symm.trans hclosed
        rw [Bool.or_eq_false_iff] at hboth
        exact ⟨⟨x, hi, hgoes.index.symm.trans hindex, hboth.1⟩, fun hl => absurd (hl.symm.trans hboth.2) (by decide)⟩
      · refine ⟨⟨z, hj, hindex, hclosed⟩, fun _ heq => hij ?_⟩
        exact h.index_injective hlt hi hj (heq.symm.trans hindex.symm)

theorem StepCase.length_le {a : Action} (h : StepCase s t a) : s.sessions.length ≤ t.sessions.length := by
  have hsteps : ∀ {u : TcpServer} {i a}, Steps u t i a → t.sessions.length = u.sessions.length := by
    intro u i a hs
    obtain ⟨x, y, leaves, -, -, hset, -⟩ := hs.session
    rw [hset, List.length_set]
  cases h with
  | accept ht =>
    subst ht
    exact Nat.le_of_lt (by simp)
  | session hs => exact Nat.le_of_eq (hsteps hs).symm
  | asyncSend _ _ ht => exact Nat.le_of_eq (ht ▸ rfl)
  | asyncClose _ ht => exact Nat.le_of_eq (ht ▸ rfl)
  | runSend _ hs => exact Nat.le_of_eq (hsteps hs).symm
  | runClose _ hs => exact Nat.le_of_eq (hsteps hs).symm

theorem StepCase.table {a : Action} (hcase : StepCase s t a) (h : Table s) (hlt : t.sessions.length < 2 ^ 64) : Table t := by
  have hle := Nat.lt_of_le_of_lt hcase.length_le hlt
  have hposted : ∀ posted, Table { s with posted } := fun _ => ⟨h.index, h.indexGenerator, h.keys, h.mem⟩
  cases hcase with
  | accept ht =>
    subst ht
    exact h.accept (by simpa using hlt)
  | session hs => exact h.steps hle hs
  | asyncSend _ _ ht => exact ht ▸ hposted _
  | asyncClose _ ht => exact ht ▸ hposted _
  | @runSend i msg posted _ hs => exact (hposted posted).steps hle hs
  | @runClose i posted _ hs => exact (hposted posted).steps hle hs

theorem table_new : Table {} where
  index := nofun
  indexGenerator := rfl
  keys := List.nodup_nil
  mem _ _ := ⟨nofun, fun ⟨_, hi, _⟩ => (by cases hi)⟩

/-- The states of a run while there are not as many sessions as indices. -/
theorem table_of_run {as : List Action} (h : run step {} as = .ok s) (hlt : s.sessions.length < 2 ^ 64) : Table s := by
  let J : TcpServer → Prop := fun s => Inv s ∧ (s.sessions.length < 2 ^ 64 → Table s)
  have hstep : ∀ {s a t}, J s → True → step s a = .ok t → J t := by
    intro s a t hJ _ hs
    have hcase := step_case hJ.1 hs
    exact ⟨hcase.inv hJ.1, fun hlt => hcase.table (hJ.2 (Nat.lt_of_le_of_lt hcase.length_le hlt)) hlt⟩
  exact (run_invariant (P := fun _ _ => True) hstep ⟨inv_new, fun _ => table_new⟩ (along_true _ _) h).2 hlt

/-- In every run of the server the handlers keep to one operation of a kind on each socket and to a queue that is not empty. The event
    handler is told of each session that it was accepted, then of its messages, and once that it was closed, after which one message
    may still follow; the session then leaves `session_map_`, which has the sessions that are open under different indices. -/
theorem run_sessions (as : List Action) :
    (∀ e, run step {} as = .error e → e = .disabled ∨ e = .bodyTooLong) ∧ ∀ s, run step {} as = .ok s →
      (∀ x ∈ s.sessions, (∃ after, x.Told after ∧ after.length ≤ 1) ∧ (x.closed = false → x.reading.isSome)) ∧
      (s.sessions.length < 2 ^ 64 → (s.sessions.map ServerSession.index).Nodup ∧ (s.sessionMap.map Prod.fst).Nodup ∧
        ∀ index i, (index, i) ∈ s.sessionMap ↔ ∃ x, s.sessions[i]? = some x ∧ x.index = index ∧ x.closed = false) := by
  have hkeeps : ∀ {s a t}, Inv s → True → step s a = .ok t → Inv t := fun hI _ h => step_inv hI h
  refine ⟨fun e h => ?_, fun s h => ⟨fun x hx => ?_, fun hlt => ?_⟩⟩
  · exact run_error (P := fun _ _ => True) (E := fun e => e = .disabled ∨ e = .bodyTooLong) hkeeps (fun hI _ h => step_error hI h)
      inv_new (along_true _ _) h
  · obtain ⟨⟨after, htold, hlen, -⟩, hreading⟩ := (run_invariant (P := fun _ _ => True) hkeeps inv_new (along_true _ _) h x hx).reads
    exact ⟨⟨after, htold, hlen⟩, hreading⟩
  · have htable := table_of_run h hlt
    refine ⟨?_, htable.keys, htable.mem⟩
    rw [List.nodup_iff_getElem?_ne_getElem?]
    intro i j hij hj heq
    rw [List.length_map] at hj
    have hi := List.getElem?_eq_getElem (Nat.lt_trans hij hj)
    have hj := List.getElem?_eq_getElem hj
    rw [List.getElem?_map, List.getElem?_map, hi, hj] at heq
    exact Nat.ne_of_lt hij (htable.index_injective hlt hi hj (Option.some.inj heq))

/-- A session that is closed while the handler of a header waits, which announces no body. -/
def late : List Action := [.accept, .asyncClose 0, .readEnds 0 (.ok (List.replicate 16 0)), .runPosted, .runRead 0]

example : (run step {} late).map (·.sessions.map (·.events)) = .ok [[.accepted, .closed, .received []]] := by decide

theorem run_sessions_late : ∃ s, run step {} late = .ok s ∧ (s.sessions.map ServerSession.index).Nodup := by
  have hrun := run_sessions late
  exact ⟨_, rfl, ((hrun.2 _ rfl).2 (by decide)).1⟩

end TcpServer

end Zylib.VNetwork
