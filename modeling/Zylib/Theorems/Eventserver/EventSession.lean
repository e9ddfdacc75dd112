import Zylib.Eventserver.EventSession
import Zylib.Lib.Lists

/-! The life of the sessions of `eventserver`. A session is deleted once and without pending events, and writes what the
    tasks for it carry; but `onWrite` calls `close` without looking whether `onRead` has called it. -/

namespace Zylib.Eventserver
open Run

/-- The responses with the identifier, in the order of their tasks. -/
def carried (sid : EventSessionID) (ran : List EventTask) : Bytes :=
  ran.flatMap fun
    | .send sid' buffer => if sid' = sid then buffer else []
    | .shutdownSession _ => []

theorem carried_append (sid : EventSessionID) (ran tasks : List EventTask) :
    carried sid (ran ++ tasks) = carried sid ran ++ carried sid tasks := List.flatMap_append

theorem carried_eq_nil {sid : EventSessionID} {ran : List EventTask} (h : ∀ task ∈ ran, task.sid ≠ sid) :
    carried sid ran = [] := by
  refine List.flatMap_eq_nil_iff.mpr fun task htask => ?_
  cases task with
  | send sid' buffer => exact if_neg (h _ htask)
  | shutdownSession sid' => rfl

/-! ### A session -/

namespace EventSession

/-- What a session keeps, when the tasks that have run carried these responses for it. -/
structure Good (responses : Bytes) (e : EventSession) : Prop where
  events : e.writeEvent = e.waitWriten
  ended : e.ended ≠ 0 → e.isShutdown = true
  deleted : e.deletes ≠ 0 → e.deletes = 1 ∧ e.isShutdown = true ∧ e.waitWriten = false ∧ e.readEvent = false
  sent : e.written ++ e.sendBuffer <+: responses
  all : e.isShutdown = false → e.written ++ e.sendBuffer = responses

/-- The members by which the server knows the session do not change, and what is submitted is for it or comes from a
    callback. -/
structure Keeps (e : EventSession) (submits : List EventTask) (r : EventSession × List EventTask) : Prop where
  sid : r.1.sid = e.sid
  deletes : r.1.deletes = e.deletes
  tasks : ∀ task ∈ r.2, task ∈ submits ∨ task.sid = e.sid

variable {responses : Bytes} {e t : EventSession} {submits : List EventTask} {results : List WriteResult}

/-- More is carried for a session that has been shut down. -/
theorem Good.append (h : Good responses e) (hc : e.isShutdown = true) (more : Bytes) : Good (responses ++ more) e :=
  { h with
    sent := h.sent.trans (List.prefix_append _ _)
    all := fun hopen => (by cases hc.symm.trans hopen) }

theorem shutdown_good (h : Good responses { e with ended := 0 }) (hd : e.deletes = 0) : Good responses e.shutdown.1 := by
  unfold shutdown
  split
  · rename_i hs
    exact ⟨h.events, fun _ => hs, fun hne => absurd hd hne, h.sent, h.all⟩
  · exact ⟨h.events, fun _ => rfl, fun hne => absurd hd hne, h.sent, fun hopen => (by cases hopen)⟩

theorem shutdown_keeps (e : EventSession) : Keeps e [] e.shutdown := by
  unfold shutdown
  split
  · exact ⟨rfl, rfl, fun task h => (by cases h)⟩
  · exact ⟨rfl, rfl, fun task h => .inr (List.mem_singleton.mp h ▸ rfl)⟩

theorem finish_good (h : Good responses e) (hd : e.deletes = 0) (submits : List EventTask) :
    Good responses (e.finish submits).1 :=
  shutdown_good (e := { e with ended := e.ended + 1 })
    ⟨h.events, fun hne => absurd rfl hne, fun hne => absurd hd hne, h.sent, h.all⟩ hd

theorem finish_keeps (e : EventSession) (submits : List EventTask) : Keeps e submits (e.finish submits) := by
  obtain ⟨hsid, hdeletes, htasks⟩ := shutdown_keeps { e with ended := e.ended + 1 }
  refine ⟨hsid, hdeletes, fun task h => ?_⟩
  rcases List.mem_append.mp h with h | h
  · exact .inl h
  · exact .inr ((htasks task h).resolve_left List.not_mem_nil)

theorem finish_ended (e : EventSession) (submits : List EventTask) : (e.finish submits).1.ended = e.ended + 1 := by
  unfold finish shutdown
  dsimp only
  split <;> rfl

/-! #### onRead -/

theorem onRead_good (h : Good responses e) (hd : e.deletes = 0) (result : ReadResult) (submits : List EventTask) :
    Good responses (e.onRead result submits).1 := by
  unfold onRead
  split
  · exact h
  · cases result with
    | timeout => exact finish_good h hd submits
    | noBytes => exact finish_good h hd submits
    | decoded msg_count =>
      dsimp only
      split
      · exact ⟨h.events, h.ended, fun hne => absurd hd hne, h.sent, h.all⟩
      · exact finish_good h hd submits

theorem onRead_keeps (e : EventSession) (result : ReadResult) (submits : List EventTask) :
    Keeps e submits (e.onRead result submits) := by
  unfold onRead
  split
  · exact ⟨rfl, rfl, fun task h => (by cases h)⟩
  · cases result with
    | timeout => exact finish_keeps e submits
    | noBytes => exact finish_keeps e submits
    | decoded msg_count =>
      dsimp only
      split
      · refine ⟨rfl, rfl, fun task h => ?_⟩
        dsimp only at h
        split at h
        · exact .inl h
        · cases h
      · exact finish_keeps e submits

/-- A session that was closed is not closed by `onRead` again. -/
theorem onRead_ended (h : Good responses e) (result : ReadResult) (submits : List EventTask) :
    (e.onRead result submits).1.ended ≤ 1 ↔ e.ended ≤ 1 := by
  unfold onRead
  split
  · exact Iff.rfl
  · rename_i hopen
    have h0 : e.ended = 0 := by
      by_contra hne
      exact hopen (h.ended hne)
    refine iff_of_true ?_ (h0 ▸ Nat.zero_le 1)
    have hfinish : (e.finish submits).1.ended ≤ 1 :=
      Nat.le_of_eq ((finish_ended e submits).trans (congrArg (· + 1) h0))
    cases result with
    | timeout => exact hfinish
    | noBytes => exact hfinish
    | decoded msg_count =>
      dsimp only
      split
      · exact h0 ▸ Nat.zero_le 1
      · exact hfinish

/-! #### onWrite -/

/-- The loop writes the front of the buffer, and ends with an error if its last write fails. -/
theorem writeLoop_good (h : Good responses e) (hw : e.waitWriten = false) (hd : e.deletes = 0) {failed : Bool}
    (hloop : e.writeLoop results = .ok (t, failed)) :
    Good responses t ∧ t.sid = e.sid ∧ t.deletes = 0 ∧ t.ended = e.ended ∧ (failed = true ↔ .failed ∈ results) := by
  induction results generalizing e with
  | nil =>
    unfold writeLoop at hloop
    split at hloop
    · cases hloop
    · cases hloop
      exact ⟨h, rfl, hd, rfl, by simp⟩
  | cons result results ih =>
    unfold writeLoop at hloop
    split at hloop
    · cases result with
      | wrote n =>
        dsimp only at hloop
        split at hloop
        · have hsent : e.written ++ e.sendBuffer.take n ++ e.sendBuffer.drop n = e.written ++ e.sendBuffer := by
            rw [List.append_assoc, List.take_append_drop]
          obtain ⟨hgood, hsid, hdeletes, hended, hfailed⟩ := ih
            (e := { e with sendBuffer := e.sendBuffer.drop n, written := e.written ++ e.sendBuffer.take n })
            ⟨h.events, h.ended, h.deleted, hsent ▸ h.sent, fun hopen => hsent.trans (h.all hopen)⟩ hw hd hloop
          exact ⟨hgood, hsid, hdeletes, hended, hfailed.trans (by simp)⟩
        · cases hloop
      | again =>
        dsimp only at hloop
        split at hloop
        · rename_i hnil
          cases hloop
          exact ⟨⟨rfl, h.ended, fun hne => absurd hd hne, h.sent, h.all⟩, rfl, hd, rfl, by simp [hnil]⟩
        · cases hloop
      | failed =>
        dsimp only at hloop
        split at hloop
        · cases hloop
          exact ⟨h, rfl, hd, rfl, by simp⟩
        · cases hloop
    · cases hloop

theorem writeLoop_error {f : Fault} (h : e.writeLoop results = .error f) : f = .disabled := by
  induction results generalizing e with
  | nil =>
    unfold writeLoop at h
    split at h <;> cases h
    rfl
  | cons result results ih =>
    unfold writeLoop at h
    split at h
    · cases result with
      | wrote n =>
        dsimp only at h
        split at h
        · exact ih h
        · cases h
          rfl
      | again =>
        dsimp only at h
        split at h <;> cases h
        rfl
      | failed =>
        dsimp only at h
        split at h <;> cases h
        rfl
    · cases h
      rfl

theorem onWrite_error {f : Fault} (h : e.onWrite results submits = .error f) : f = .disabled := by
  unfold onWrite at h
  split at h
  · rename_i f' hf
    cases h
    exact writeLoop_error hf
  · cases h

theorem onWrite_good (h : Good responses { e with writeEvent := false, waitWriten := false }) (hw : e.writeEvent = false)
    (hd : e.deletes = 0) {tasks : List EventTask} (hwrite : e.onWrite results submits = .ok (t, tasks)) :
    Good responses t ∧ Keeps e submits (t, tasks) ∧ t.ended = e.ended + if .failed ∈ results then 1 else 0 := by
  have hstart : Good responses { e with waitWriten := false } :=
    ⟨hw, h.ended, fun hne => absurd hd hne, h.sent, h.all⟩
  unfold onWrite at hwrite
  split at hwrite
  · cases hwrite
  · rename_i t' failed hloop
    obtain ⟨hgood, hsid, hdeletes, hended, hfailed⟩ := writeLoop_good hstart rfl hd hloop
    have hlast : ∀ {e' : EventSession} {ts : List EventTask}, e'.sid = e.sid →
        (∀ task ∈ ts, task ∈ submits ∨ task.sid = e.sid) →
        ∀ task ∈ ts ++ (if ¬e'.waitWriten ∧ e'.isClosed then [.shutdownSession e'.sid] else []),
          task ∈ submits ∨ task.sid = e.sid := by
      intro e' ts hsid' hts task htask
      rcases List.mem_append.mp htask with htask | htask
      · exact hts task htask
      · split at htask
        · exact .inr (List.mem_singleton.mp htask ▸ hsid')
        · cases htask
    cases failed with
    | true =>
      rw [if_pos rfl] at hwrite
      cases hwrite
      rw [if_pos (hfailed.mp rfl)]
      have hkeeps := finish_keeps t' submits
      refine ⟨finish_good hgood hdeletes submits, ⟨hkeeps.sid.trans hsid, hkeeps.deletes.trans (hdeletes.trans hd.symm), ?_⟩, ?_⟩
      · exact hlast (hkeeps.sid.trans hsid) fun task htask => hsid ▸ hkeeps.tasks task htask
      · exact (finish_ended t' submits).trans (by rw [hended])
    | false =>
      rw [if_neg Bool.false_ne_true] at hwrite
      cases hwrite
      have hnot : .failed ∉ results := fun hmem => (by cases hfailed.mpr hmem)
      rw [if_neg hnot]
      exact ⟨hgood, ⟨hsid, hdeletes.trans hd.symm, hlast hsid fun task htask => absurd htask List.not_mem_nil⟩, hended⟩

end EventSession

/-! ### The server -/

namespace EventServer

/-- What holds in every state of a run. -/
structure Consistent (s : EventServer) : Prop where
  ended : ∀ e ∈ s.made, e.ended ≤ 1
  deletes : ∀ e ∈ s.made, e.deletes ≤ 1
  pending : ∀ e ∈ s.made, e.deletes ≠ 0 → e.waitWriten = false ∧ e.readEvent = false ∧ e.writeEvent = false
  written : ∀ e ∈ s.made, e.written <+: carried e.sid s.ran

/-- No write fails in a session whose `close` or `timeout` was called. -/
def Once (s : EventServer) : Action → Prop
  | .onWrite i results _ => .failed ∈ results → ∀ e, s.made[i]? = some e → e.ended = 0
  | _ => True

structure Base (s : EventServer) : Prop where
  seq : ∀ i e, s.made[i]? = some e → e.sid.seqId = i + 1
  seqId : s.seqId = s.made.length
  bound : s.made.length < int32Max
  table : ∀ sid i, (sid, i) ∈ s.sessions ↔ ∃ e, s.made[i]? = some e ∧ e.sid = sid ∧ e.deletes = 0
  known : ∀ task, task ∈ s.tasks ∨ task ∈ s.ran → task.sid.seqId ≤ s.seqId

structure Inv (s : EventServer) : Prop extends Base s where
  good : ∀ e ∈ s.made, e.Good (carried e.sid s.ran)

/-- The callbacks `close` and `timeout` were called at most once for each session. -/
def EndedOnce (s : EventServer) : Prop := ∀ e ∈ s.made, e.ended ≤ 1

/-- The step is not possible, or keeps the invariant, and the callbacks are called too often only if not `P`. -/
def Goes (P : Prop) (s : EventServer) (r : Except Fault EventServer) : Prop :=
  r = .error .disabled ∨ ∃ t, r = .ok t ∧ Inv t ∧ (t.EndedOnce ↔ s.EndedOnce ∧ P)

variable {s t : EventServer} {i j : Nat} {e e' : EventSession} {sid : EventSessionID} {submits : List EventTask}
  {results : List WriteResult}

theorem Inv.consistent (hI : Inv s) (hended : s.EndedOnce) : Consistent s where
  ended := hended
  deletes e he := by
    by_cases h0 : e.deletes = 0
    · exact h0 ▸ Nat.zero_le 1
    · exact Nat.le_of_eq ((hI.good e he).deleted h0).1
  pending e he hd := by
    have hgood := hI.good e he
    obtain ⟨-, -, hwait, hread⟩ := hgood.deleted hd
    exact ⟨hwait, hread, hgood.events.trans hwait⟩
  written e he := (List.prefix_append _ _).trans (hI.good e he).sent

theorem lt_length (h : s.made[i]? = some e) : i < s.made.length := (List.getElem?_eq_some_iff.mp h).1

theorem Base.sid_injective (hB : Base s) (hi : s.made[i]? = some e) (hj : s.made[j]? = some e') (h : e.sid = e'.sid) :
    i = j := by
  have hseq := hB.seq i e hi
  rw [h, hB.seq j e' hj] at hseq
  omega

theorem mem_of_findSession (h : s.findSession sid = some i) : (sid, i) ∈ s.sessions := by
  obtain ⟨entry, hfind, rfl⟩ := Option.map_eq_some_iff.mp h
  have hsid : entry.1 = sid := by simpa using List.find?_some hfind
  exact hsid ▸ List.mem_of_find?_eq_some hfind

theorem notMem_of_findSession (h : s.findSession sid = none) (i : Nat) : (sid, i) ∉ s.sessions := fun hmem =>
  List.find?_eq_none.mp (Option.map_eq_none_iff.mp h) _ hmem (decide_eq_true rfl)

/-- A session changes, and with it its entry. -/
theorem Base.update (hB : Base s) (hi : s.made[i]? = some e) (hsid : e'.sid = e.sid)
    {sessions : List (EventSessionID × Nat)} {tasks : List EventTask}
    (hself : ∀ sid, (sid, i) ∈ sessions ↔ e.sid = sid ∧ e'.deletes = 0)
    (hother : ∀ sid j, i ≠ j → ((sid, j) ∈ sessions ↔ (sid, j) ∈ s.sessions))
    (hknown : ∀ task ∈ tasks, task.sid.seqId ≤ s.seqId) :
    Base { s with made := s.made.set i e', sessions, tasks } := by
  refine ⟨fun j c hj => ?_, hB.seqId.trans List.length_set.symm, Nat.lt_of_le_of_lt (Nat.le_of_eq List.length_set) hB.bound,
    fun sid j => ?_, fun task htask => htask.elim (hknown task) fun h => hB.known task (.inr h)⟩
  · rcases (Lists.getElem?_set_iff hi).mp hj with ⟨rfl, rfl⟩ | ⟨-, hj⟩
    · exact hsid ▸ hB.seq i e hi
    · exact hB.seq j c hj
  · simp only [Lists.getElem?_set_iff hi]
    by_cases hij : i = j
    · subst hij
      rw [hself]
      constructor
      · rintro ⟨rfl, hd⟩
        exact ⟨e', .inl ⟨rfl, rfl⟩, hsid, hd⟩
      · rintro ⟨c, ⟨-, rfl⟩ | ⟨hne, -⟩, hcsid, hd⟩
        · exact ⟨hsid.symm.trans hcsid, hd⟩
        · exact absurd rfl hne
    · rw [hother sid j hij, hB.table]
      constructor
      · rintro ⟨c, hc, h⟩
        exact ⟨c, .inr ⟨hij, hc⟩, h⟩
      · rintro ⟨c, ⟨heq, -⟩ | ⟨-, hc⟩, h⟩
        · exact absurd heq hij
        · exact ⟨c, hc, h⟩

/-- The entry of a session that exists. -/
theorem Base.entry (hB : Base s) (hi : s.made[i]? = some e) (sid : EventSessionID) :
    (sid, i) ∈ s.sessions ↔ e.sid = sid ∧ e.deletes = 0 := by
  rw [hB.table, hi]
  refine ⟨?_, fun h => ⟨e, rfl, h⟩⟩
  rintro ⟨c, hc, h⟩
  cases hc
  exact h

/-- A session changes, but not the members by which the server knows it. -/
theorem Base.set (hB : Base s) (hi : s.made[i]? = some e) {tasks : List EventTask} (hk : e.Keeps submits (e', tasks))
    (hknown : s.known submits) : Base ({ s with made := s.made.set i e' }.submitTasks tasks) := by
  refine hB.update hi hk.sid (fun sid => ?_) (fun _ _ _ => Iff.rfl) fun task htask => ?_
  · rw [hB.entry hi, hk.deletes]
  · rcases List.mem_append.mp htask with htask | htask
    · exact hB.known task (.inl htask)
    · rcases hk.tasks task htask with hmem | hsid
      · exact of_decide_eq_true (List.all_eq_true.mp hknown task hmem)
      · rw [hsid, hB.seq i e hi]
        exact hB.seqId ▸ lt_length hi

theorem Inv.good_set (hI : Inv s) (hsid : e'.sid = e.sid) (hgood : e'.Good (carried e.sid s.ran)) :
    ∀ c ∈ s.made.set i e', c.Good (carried c.sid s.ran) := by
  intro c hc
  rcases List.mem_or_eq_of_mem_set hc with hc | rfl
  · exact hI.good c hc
  · exact hsid ▸ hgood

/-- The session changes as one of the others sees it, and the others are as before. -/
theorem Inv.set (hI : Inv s) (hi : s.made[i]? = some e) {tasks : List EventTask} (hk : e.Keeps submits (e', tasks))
    (hknown : s.known submits) (hgood : e'.Good (carried e.sid s.ran)) :
    Inv ({ s with made := s.made.set i e' }.submitTasks tasks) where
  toBase := hI.toBase.set hi hk hknown
  good := hI.good_set hk.sid hgood

theorem endedOnce_set (hi : s.made[i]? = some e) {P : Prop} (h : e'.ended ≤ 1 ↔ e.ended ≤ 1 ∧ P) {tasks : List EventTask} :
    EndedOnce ({ s with made := s.made.set i e' }.submitTasks tasks) ↔ s.EndedOnce ∧ P :=
  Lists.forall_mem_set hi h

/-! #### Events -/

/-- A session is added under an identifier that no entry and no task knows. -/
theorem Inv.add (hI : Inv s) {session : EventSession} (hseq : session.sid.seqId = s.made.length + 1)
    (hnew : session.deletes = 0) (hgood : session.Good []) (hbound : s.made.length + 1 < int32Max)
    (hknown : ∀ task ∈ submits, task.sid.seqId ≤ s.made.length + 1) :
    Inv { s with
      made := s.made ++ [session]
      sessions := s.sessions ++ [(session.sid, s.made.length)]
      seqId := s.made.length + 1
      tasks := s.tasks ++ submits } := by
  have hold : ∀ task, task ∈ s.tasks ∨ task ∈ s.ran → task.sid.seqId ≤ s.made.length := fun task h =>
    hI.seqId ▸ hI.known task h
  have hran : carried session.sid s.ran = [] := by
    refine carried_eq_nil fun task htask heq => ?_
    have hle := hold task (.inr htask)
    rw [heq, hseq] at hle
    exact Nat.not_succ_le_self _ hle
  refine ⟨⟨fun j c hj => ?_, ?_, ?_, fun sid j => ?_, fun task htask => ?_⟩, fun c hc => ?_⟩
  · rcases Lists.getElem?_concat_iff.mp hj with hj | ⟨rfl, rfl⟩
    · exact hI.seq j c hj
    · exact hseq
  · show s.made.length + 1 = (s.made ++ [session]).length
    rw [List.length_append, List.length_singleton]
  · exact Nat.lt_of_le_of_lt (Nat.le_of_eq List.length_append) hbound
  · simp only [List.mem_append, List.mem_singleton, Prod.mk.injEq, Lists.getElem?_concat_iff, hI.table]
    constructor
    · rintro (⟨c, hc, h⟩ | ⟨rfl, rfl⟩)
      · exact ⟨c, .inl hc, h⟩
      · exact ⟨session, .inr ⟨rfl, rfl⟩, rfl, hnew⟩
    · rintro ⟨c, hc | ⟨rfl, rfl⟩, hsid, hd⟩
      · exact .inl ⟨c, hc, hsid, hd⟩
      · exact .inr ⟨hsid.symm, rfl⟩
  · rcases htask with htask | htask
    · rcases List.mem_append.mp htask with htask | htask
      · exact Nat.le_succ_of_le (hold task (.inl htask))
      · exact hknown task htask
    · exact Nat.le_succ_of_le (hold task (.inr htask))
  · rcases List.mem_append.mp hc with hc | hc
    · exact hI.good c hc
    · cases List.mem_singleton.mp hc
      exact hran.symm ▸ hgood

/-- The number of the next session is not used up, and no entry has it. -/
theorem Inv.createSession (hI : Inv s) (fd : Int) : s.createSession fd =
    ({ s with seqId := s.made.length + 1, sessions := s.sessions ++ [(⟨fd, s.made.length + 1⟩, s.made.length)] },
      { sid := ⟨fd, s.made.length + 1⟩ }) := by
  have hnumber : (if s.seqId = int32Max then 0 else s.seqId) + 1 = s.made.length + 1 := by
    rw [if_neg (hI.seqId ▸ Nat.ne_of_lt hI.bound), hI.seqId]
  have hnone : s.sessions.any (·.1 = (⟨fd, s.made.length + 1⟩ : EventSessionID)) = false := by
    refine List.any_eq_false.mpr fun entry hentry heq => ?_
    obtain ⟨c, hc, hsid, -⟩ := (hI.table entry.1 entry.2).mp hentry
    have hseq := hI.seq _ c hc
    rw [hsid, of_decide_eq_true heq] at hseq
    exact Nat.ne_of_gt (lt_length hc) (Nat.succ.inj hseq)
  unfold EventServer.createSession
  simp only [hnumber, hnone, Bool.false_eq_true, if_false]

theorem onAccept_goes (hI : Inv s) (fd : Int) (submits : List EventTask) : Goes True s (s.onAccept fd submits) := by
  unfold onAccept
  split
  · rename_i hguard
    rw [hI.createSession]
    dsimp only
    split
    · rename_i hknown
      refine .inr ⟨_, rfl, hI.add rfl rfl ⟨rfl, ?_, ?_, List.nil_prefix, fun _ => rfl⟩ hguard.1 fun task htask => ?_, ?_⟩
      · exact fun h => absurd rfl h
      · exact fun h => absurd rfl h
      · exact of_decide_eq_true (List.all_eq_true.mp hknown task htask)
      · exact List.forall_mem_append.trans (and_congr_right fun _ =>
          iff_of_true (fun c hc => List.mem_singleton.mp hc ▸ Nat.zero_le 1) trivial)
    · exact .inl rfl
  · exact .inl rfl

/-- An event that is pending is one of a session that was not deleted. -/
theorem Inv.deletes_eq_zero (hI : Inv s) (hi : s.made[i]? = some e) (h : e.readEvent = true ∨ e.writeEvent = true) :
    e.deletes = 0 := by
  have hgood := hI.good e (List.mem_of_getElem? hi)
  by_contra hd
  obtain ⟨-, -, hwait, hread⟩ := hgood.deleted hd
  rcases h with h | h
  · cases h.symm.trans hread
  · cases h.symm.trans (hgood.events.trans hwait)

theorem onRead_goes (hI : Inv s) (i : Nat) (result : ReadResult) (submits : List EventTask) :
    Goes True s (s.onRead i result submits) := by
  unfold onRead
  split
  · exact .inl rfl
  · rename_i e hi
    split
    · rename_i hguard
      have hd := hI.deletes_eq_zero hi (.inl hguard.1)
      have hgood := hI.good e (List.mem_of_getElem? hi)
      have hstart : EventSession.Good (carried e.sid s.ran) { e with readEvent := false } :=
        ⟨hgood.events, hgood.ended, fun hne => absurd hd hne, hgood.sent, hgood.all⟩
      have hk := EventSession.onRead_keeps { e with readEvent := false } result submits
      rw [if_neg (not_not.mpr hd)]
      have hgood' := EventSession.onRead_good hstart hd result submits
      refine .inr ⟨_, rfl, hI.set hi ⟨hk.sid, hk.deletes, hk.tasks⟩ hguard.2 hgood', ?_⟩
      exact endedOnce_set hi ((EventSession.onRead_ended hstart result submits).trans (and_iff_left trivial).symm)
    · exact .inl rfl

theorem onWrite_goes (hI : Inv s) (i : Nat) (results : List WriteResult) (submits : List EventTask) :
    Goes (s.Once (.onWrite i results submits)) s (s.onWrite i results submits) := by
  unfold onWrite
  split
  · exact .inl rfl
  · rename_i e hi
    split
    · rename_i hguard
      have hd := hI.deletes_eq_zero hi (.inr hguard.1)
      have hgood := hI.good e (List.mem_of_getElem? hi)
      rw [if_neg (not_not.mpr hd)]
      split
      · rename_i f hf
        exact .inl (congrArg _ (EventSession.onWrite_error hf))
      · rename_i e' tasks hwrite
        obtain ⟨hgood', hk, hended⟩ := EventSession.onWrite_good (e := { e with writeEvent := false })
          ⟨rfl, hgood.ended, fun hne => absurd hd hne, hgood.sent, hgood.all⟩ rfl hd hwrite
        refine .inr ⟨_, rfl, hI.set hi ⟨hk.sid, hk.deletes, hk.tasks⟩ hguard.2 hgood', endedOnce_set hi ?_⟩
        have honce : s.Once (.onWrite i results submits) ↔ (.failed ∈ results → e.ended = 0) :=
          imp_congr_right fun _ => ⟨fun h => h e hi, fun h c hc => Option.some.inj (hi.symm.trans hc) ▸ h⟩
        rw [hended, honce]
        by_cases hfailed : .failed ∈ results
        · simp only [hfailed, if_true, forall_const]
          omega
        · simp only [hfailed, if_false, false_implies, and_true, Nat.add_zero]
    · exact .inl rfl

/-! #### Tasks -/

/-- What has run for another session, or for one that was shut down. -/
theorem good_concat {ran : List EventTask} {task : EventTask} (h : e.Good (carried e.sid ran))
    (hc : task.sid = e.sid → e.isShutdown = true) : e.Good (carried e.sid (ran ++ [task])) := by
  rw [carried_append]
  by_cases hsid : task.sid = e.sid
  · exact h.append (hc hsid) _
  · have hnil : carried e.sid [task] = [] := carried_eq_nil fun t ht => List.mem_singleton.mp ht ▸ hsid
    rw [hnil, List.append_nil]
    exact h

/-- The session of an entry. -/
theorem Base.found (hB : Base s) (h : s.findSession sid = some i) :
    ∃ e, s.made[i]? = some e ∧ e.sid = sid ∧ e.deletes = 0 := (hB.table sid i).mp (mem_of_findSession h)

/-- A session without an entry was deleted. -/
theorem Base.notFound (hB : Base s) (h : s.findSession sid = none) (he : e ∈ s.made) (hsid : e.sid = sid) :
    e.deletes ≠ 0 := by
  intro hd
  obtain ⟨i, hi⟩ := List.mem_iff_getElem?.mp he
  exact notMem_of_findSession h i ((hB.table sid i).mpr ⟨e, hi, hsid, hd⟩)

section
variable {old : List EventTask}

/-- The session of the task that has run changes. -/
theorem ran_goes (hB : Base s) {task : EventTask} (hran : s.ran = old ++ [task])
    (hgood : ∀ e ∈ s.made, e.Good (carried e.sid old)) (hi : s.made[i]? = some e) (hsid : task.sid = e.sid)
    (hended : e.ended ≤ 1) {tasks : List EventTask} (hk : e.Keeps submits (e', tasks)) (hknown : s.known submits)
    (hgood' : e'.Good (carried e.sid s.ran)) (hended' : e'.ended ≤ 1) :
    Goes True s (.ok ({ s with made := s.made.set i e' }.submitTasks tasks)) := by
  refine .inr ⟨_, rfl, ⟨hB.set hi hk hknown, fun c hc => ?_⟩, endedOnce_set hi (iff_of_true hended' ⟨hended, trivial⟩)⟩
  obtain ⟨j, hj⟩ := List.mem_iff_getElem?.mp hc
  rcases (Lists.getElem?_set_iff hi).mp hj with ⟨-, rfl⟩ | ⟨hij, hj⟩
  · exact hk.sid ▸ hgood'
  · refine hran ▸ good_concat (hgood c (List.mem_of_getElem? hj)) fun hcsid => absurd ?_ hij
    exact hB.sid_injective hi hj (hsid.symm.trans hcsid)

theorem runSend_goes (hB : Base s) {buffer : Bytes} (hran : s.ran = old ++ [.send sid buffer])
    (hgood : ∀ e ∈ s.made, e.Good (carried e.sid old)) (hknown : s.known submits) (results : List WriteResult) :
    Goes True s (s.runSend sid buffer results submits) := by
  have hsame : (∀ e ∈ s.made, sid = e.sid → e.isShutdown = true) → Goes True s (.ok s) := fun hall =>
    .inr ⟨s, rfl, ⟨hB, fun e he => hran ▸ good_concat (hgood e he) (hall e he)⟩, (and_iff_left trivial).symm⟩
  unfold runSend
  split
  · rename_i hnone
    exact hsame fun e he hsid => ((hgood e he).deleted (hB.notFound hnone he hsid.symm)).2.1
  · rename_i i hfind
    obtain ⟨e, hi, rfl, hd⟩ := hB.found hfind
    rw [hi]
    dsimp only
    rw [if_neg (not_not.mpr hd)]
    split
    · rename_i hclosed
      refine hsame fun c hc hcsid => ?_
      obtain ⟨j, hj⟩ := List.mem_iff_getElem?.mp hc
      cases hB.sid_injective hi hj hcsid
      cases hi.symm.trans hj
      exact hclosed
    · rename_i hopen
      have hopen : e.isShutdown = false := Bool.eq_false_iff.mpr hopen
      have hg := hgood e (List.mem_of_getElem? hi)
      have hended : e.ended = 0 := by
        by_contra hne
        cases hopen.symm.trans (hg.ended hne)
      have hle : e.ended ≤ 1 := hended ▸ Nat.zero_le 1
      -- the response is appended to what the session has and what it was sent
      have hone : carried e.sid [.send e.sid buffer] = buffer := (List.append_nil _).trans (if_pos rfl)
      have hall : e.written ++ (e.sendBuffer ++ buffer) = carried e.sid s.ran := by
        rw [← List.append_assoc, hg.all hopen, hran, carried_append, hone]
      unfold EventSession.asyncWrite
      by_cases hwait : (e.appendResponse buffer).waitWriten = true
      · rw [if_pos hwait]
        exact ran_goes hB hran hgood hi rfl hle ⟨rfl, rfl, fun task h => absurd h List.not_mem_nil⟩ hknown
          ⟨hg.events, hg.ended, hg.deleted, hall ▸ List.prefix_rfl, fun _ => hall⟩ hle
      · rw [if_neg hwait]
        have hevent : e.writeEvent = false := hg.events.trans (Bool.eq_false_iff.mpr hwait)
        cases hwrite : (e.appendResponse buffer).onWrite results submits with
        | error f => exact .inl (congrArg _ (EventSession.onWrite_error hwrite))
        | ok r =>
          obtain ⟨hgood', hk, hended'⟩ := EventSession.onWrite_good (e := e.appendResponse buffer)
            ⟨rfl, hg.ended, fun hne => absurd hd hne, hall ▸ List.prefix_rfl, fun _ => hall⟩ hevent hd hwrite
          refine ran_goes hB hran hgood hi rfl hle ⟨hk.sid, hk.deletes, hk.tasks⟩ hknown hgood' ?_
          have hended' : r.1.ended = e.ended + if .failed ∈ results then 1 else 0 := hended'
          rw [hended', hended]
          split <;> decide

theorem runShutdown_goes (hI : Inv s) (sid : EventSessionID) : Goes True s (s.runShutdown sid) := by
  unfold runShutdown
  split
  · exact .inr ⟨s, rfl, hI, (and_iff_left trivial).symm⟩
  · rename_i i hfind
    obtain ⟨e, hi, hsid, hd⟩ := hI.found hfind
    have hgood := hI.good e (List.mem_of_getElem? hi)
    have hlt := lt_length hi
    rw [hi]
    dsimp only
    rw [if_neg (not_not.mpr hd)]
    unfold EventSession.release
    dsimp only
    by_cases hwait : e.waitWriten = true
    · rw [if_pos hwait]
      have hgood' : EventSession.Good (carried e.sid s.ran) { e with isShutdown := true } :=
        ⟨hgood.events, fun _ => rfl, fun hne => absurd hd hne, hgood.sent, fun h => (by cases h)⟩
      refine .inr ⟨_, rfl, ⟨?_, hI.good_set rfl hgood'⟩, Lists.forall_mem_set hi (and_iff_left trivial).symm⟩
      refine hI.update hi ?_ ?_ ?_ ?_
      · rfl
      · exact fun sid => hI.entry hi sid
      · exact fun _ _ _ => Iff.rfl
      · exact fun task h => hI.known task (.inl h)
    · rw [if_neg hwait]
      have hwait : e.waitWriten = false := Bool.eq_false_iff.mpr hwait
      have hgood' : EventSession.Good (carried e.sid s.ran)
          { e with isShutdown := true, readEvent := false, writeEvent := false, deletes := e.deletes + 1 } :=
        ⟨hwait.symm, fun _ => rfl, fun _ => ⟨by rw [hd], rfl, hwait, rfl⟩, hgood.sent, fun h => (by cases h)⟩
      refine .inr ⟨_, rfl, ⟨?_, hI.good_set rfl hgood'⟩, Lists.forall_mem_set hi (and_iff_left trivial).symm⟩
      refine hI.update hi ?_ ?_ ?_ ?_
      · rfl
      · intro sid'
        refine iff_of_false (fun h => ?_) fun h => Nat.succ_ne_zero _ h.2
        obtain ⟨hmem, hne⟩ := List.mem_filter.mp h
        exact of_decide_eq_true hne (((hI.entry hi sid').mp hmem).1.symm.trans hsid)
      · intro sid' j hij
        refine List.mem_filter.trans (and_iff_left_of_imp fun hmem => decide_eq_true fun heq => hij ?_)
        obtain ⟨c, hc, hcsid, -⟩ := (hI.table sid' j).mp hmem
        exact hI.sid_injective hi hc (hsid.trans (heq.symm.trans hcsid.symm))
      · exact fun task h => hI.known task (.inl h)

theorem executeTask_goes (hI : Inv s) (results : List WriteResult) (submits : List EventTask) :
    Goes True s (s.executeTask results submits) := by
  unfold executeTask
  split
  · exact .inl rfl
  · rename_i task tasks htasks
    have hB : Base { s with tasks, ran := s.ran ++ [task] } := by
      refine { hI.toBase with known := fun t ht => hI.known t ?_ }
      rw [htasks]
      rcases ht with ht | ht
      · exact .inl (List.mem_cons_of_mem _ ht)
      · rcases List.mem_append.mp ht with ht | ht
        · exact .inr ht
        · exact .inl (List.mem_singleton.mp ht ▸ List.mem_cons_self)
    dsimp only
    split
    · rename_i hknown
      cases task with
      | send sid buffer =>
        exact runSend_goes (s := { s with tasks, ran := s.ran ++ [.send sid buffer] }) hB rfl hI.good hknown results
      | shutdownSession sid =>
        refine runShutdown_goes (s := { s with tasks, ran := s.ran ++ [.shutdownSession sid] }) ⟨hB, fun e he => ?_⟩ sid
        show e.Good (carried e.sid (s.ran ++ [.shutdownSession sid]))
        rw [carried_append]
        exact (List.append_nil (carried e.sid s.ran)).symm ▸ hI.good e he
    · exact .inl rfl

end

theorem step_goes (hI : Inv s) (a : Action) : Goes (s.Once a) s (s.step a) := by
  cases a with
  | onAccept fd submits => exact onAccept_goes hI fd submits
  | onRead i result submits => exact onRead_goes hI i result submits
  | onWrite i results submits => exact onWrite_goes hI i results submits
  | executeTask results submits => exact executeTask_goes hI results submits
  | submitTask task =>
    unfold step
    dsimp only
    split
    · rename_i hknown
      refine .inr ⟨_, rfl, ⟨{ hI.toBase with known := fun t ht => ?_ }, hI.good⟩, (and_iff_left trivial).symm⟩
      rcases ht with ht | ht
      · rcases List.mem_append.mp ht with ht | ht
        · exact hI.known t (.inl ht)
        · exact of_decide_eq_true (List.all_eq_true.mp hknown t ht)
      · exact hI.known t (.inr ht)
    · exact .inl rfl

/-! #### Runs -/

theorem inv_init : Inv {} where
  seq i e h := by cases h
  seqId := rfl
  bound := by decide
  table sid i := iff_of_false List.not_mem_nil fun ⟨_, h, _⟩ => (by cases h)
  known task h := by rcases h with h | h <;> cases h
  good e he := by cases he

/-- No step of a run uses a deleted session, and the life of every session is as it should be in every state of it if and
    only if no write fails in a session that was closed. -/
theorem consistent_iff_once (as : List Action) :
    (∀ f, run step {} as = .error f → f = .disabled) ∧
      ∀ s, run step {} as = .ok s →
        ((∀ as' t, as' <+: as → run step {} as' = .ok t → t.Consistent) ↔ Along step Once {} as) := by
  have hstep : ∀ {s a t}, Inv s → step s a = .ok t → Inv t ∧ (t.EndedOnce ↔ s.EndedOnce ∧ s.Once a) := by
    intro s a t hI h
    rcases step_goes hI a with he | ⟨u, hu, hIu⟩
    · cases he.symm.trans h
    · cases hu.symm.trans h
      exact hIu
  have hstart : EndedOnce {} := fun e he => absurd he List.not_mem_nil
  have hinv : ∀ {as t}, run step {} as = .ok t → Inv t := fun h =>
    run_invariant (fun hI _ h => (hstep hI h).1) inv_init (along_true _ _) h
  have hended : ∀ {as t}, run step {} as = .ok t → (t.EndedOnce ↔ Along step Once {} as) := fun h =>
    (run_iff_along (fun hI h => (hstep hI h).1) (fun hI h => (hstep hI h).2) inv_init h).trans (and_iff_right hstart)
  refine ⟨fun f hf => ?_, fun s hs => ⟨fun hall => ?_, ?_⟩⟩
  · refine run_error (I := Inv) (E := (· = .disabled)) (fun hI _ h => (hstep hI h).1) ?_ inv_init (along_true _ _) hf
    intro s a e hI _ h
    rcases step_goes hI a with he | ⟨u, hu, -⟩
    · cases he.symm.trans h
      rfl
    · cases hu.symm.trans h
  · exact (hended hs).mp (hall as s List.prefix_rfl hs).ended
  · rintro halong as' t ⟨rest, rfl⟩ ht
    exact (hinv ht).consistent ((hended ht).mpr halong.of_append)

/-- The peer is slow to read, ends its stream and then resets the connection, while a write event is pending. -/
theorem close_twice : ∃ s e, run step {}
    [.onAccept 7 [], .submitTask (.send ⟨7, 1⟩ [1, 2]), .executeTask [.wrote 1, .again] [], .onRead 0 .noBytes [],
      .onWrite 0 [.failed] []] = .ok s ∧ s.made[0]? = some e ∧ e.ended = 2 := ⟨_, _, rfl, rfl, rfl⟩

end EventServer
end Zylib.Eventserver
