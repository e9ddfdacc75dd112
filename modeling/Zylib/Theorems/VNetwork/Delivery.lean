import Zylib.Theorems.VNetwork.TcpServer

/-! What is sent with `AsyncSend` is received in order, up to the first string that is longer than `MAX_BODY_LENGTH`. -/

namespace Zylib.VNetwork
open Framing LittleEndian Run
open KNet.MessageDecoder (memcpyAt)

/-! ### What is asked for and what is sent -/

namespace TcpServer
open ServerSession (frame)
open Session (frameOf)

variable {s t : TcpServer} {i : Nat}

/-- The message is that of the string. -/
def Created (data : Bytes) (msg : ChatMessage) : Prop := ChatMessage.create data .new = some msg

theorem frame_of_created {data : Bytes} {msg : ChatMessage} (hlen : data.length < 2 ^ 31) (h : Created data msg) :
    frame msg = frameOf data := by
  obtain ⟨m, hm, hbody, hbuffer⟩ := ChatMessage.create_eq data hlen .new
  cases h.symm.trans hm
  have hlength : msg.length = HEADER_LENGTH + data.length := by
    rw [ChatMessage.length, hbody, ChatMessage.toInt_ofNat hlen, toSizeT_of_nonneg (by omega) (by unfold HEADER_LENGTH; omega)]
    omega
  rw [frame, ChatMessage.data, hbuffer, hlength, List.take_of_length_le]
  · rfl
  · exact Nat.le_of_eq (by rw [List.length_append, ChatMessage.length_head])

/-- Each session has sent, or has posted, what it was asked to send, in order. -/
def Sends (past : List Action) (s : TcpServer) : Prop :=
  ∀ i, List.Forall₂ Created (asked i past) (((s.sessions[i]?.map (·.sent)).getD []) ++ pending i s.posted)

theorem asked_append (i : Nat) (past : List Action) (a : Action) : asked i (past ++ [a]) = asked i past ++ asked i [a] :=
  List.filterMap_append

theorem pending_append (i : Nat) (ps qs : List Posted) : pending i (ps ++ qs) = pending i ps ++ pending i qs :=
  List.filterMap_append

/-- What the sessions have sent after one of them has taken a step. -/
theorem Steps.sent {a : ServerSession.Action} (h : Steps s t i a) (j : Nat) : (t.sessions[j]?.map (·.sent)).getD [] =
    (s.sessions[j]?.map (·.sent)).getD [] ++ if i = j then ServerSession.queued a else [] := by
  obtain ⟨x, y, leaves, hi, hgoes, hset, -⟩ := h.session
  rw [hset]
  by_cases hij : i = j
  · subst hij
    rw [if_pos rfl, hi, List.getElem?_set_self (List.getElem?_eq_some_iff.mp hi).1]
    exact hgoes.sent
  · rw [if_neg hij, List.getElem?_set_ne hij, List.append_nil]

theorem StepCase.sends {past : List Action} {a : Action} (hcase : StepCase s t a) (h : Sends past s) : Sends (past ++ [a]) t := by
  intro j
  rw [asked_append]
  have hj := h j
  cases hcase with
  | accept ht =>
    subst ht
    have hsame : ((s.sessions ++ [ServerSession.started (s.indexGenerator + 1)])[j]?.map (·.sent)).getD [] =
        (s.sessions[j]?.map (·.sent)).getD [] := by
      rcases Nat.lt_trichotomy j s.sessions.length with hlt | rfl | hgt
      · rw [List.getElem?_append_left hlt]
      · rw [List.getElem?_concat_length, List.getElem?_eq_none (Nat.le_refl _)]
        rfl
      · rw [List.getElem?_eq_none (by rw [List.length_append]; exact hgt), List.getElem?_eq_none (Nat.le_of_lt hgt)]
    have hnone : asked j [Action.accept] = [] := rfl
    rw [hsame, hnone, List.append_nil]
    exact hj
  | session hs hqueued hact =>
    have hnone : asked j [a] = [] := by
      cases a <;> first | rfl | exact absurd rfl (hact _ _)
    rw [hs.sent j, hqueued, hs.posted, hnone, ite_self, List.append_nil, List.append_nil]
    exact hj
  | @asyncSend i data msg hi hmsg ht =>
    subst ht
    dsimp only
    rw [pending_append, ← List.append_assoc]
    refine List.rel_append hj ?_
    by_cases hij : i = j
    · simpa [asked, pending, hij] using show Created data msg from hmsg
    · simp [asked, pending, hij]
  | asyncClose hi ht =>
    subst ht
    dsimp only
    rw [pending_append]
    simpa [asked, pending] using hj
  | @runSend i msg posted hposted hs =>
    rw [hs.sent j, hs.posted, List.append_assoc]
    have hpending : pending j s.posted = (if i = j then [msg] else []) ++ pending j posted := by
      rw [hposted]
      by_cases hij : i = j <;> simp [pending, hij]
    rw [hpending] at hj
    simpa [asked, ServerSession.queued] using hj
  | @runClose i posted hposted hs =>
    rw [hs.sent j, hs.posted]
    rw [hposted] at hj
    simpa [asked, pending, ServerSession.queued] using hj

theorem sends_new : Sends [] {} := fun _ => .nil

theorem sends_of_run {as : List Action} (h : run step {} as = .ok s) : Inv s ∧ Sends as s := by
  have hstep : ∀ {past s a t}, Inv s ∧ Sends past s → True → step s a = .ok t → Inv t ∧ Sends (past ++ [a]) t := by
    intro past s a t hJ _ hs
    have hcase := step_case hJ.1 hs
    exact ⟨hcase.inv hJ.1, hcase.sends hJ.2⟩
  exact run_history (J := fun past s => Inv s ∧ Sends past s) (P := fun _ _ => True) [] hstep ⟨inv_new, sends_new⟩
    (along_true _ _) h

theorem stream_eq_of_created {bodies : List Bytes} {msgs : List ChatMessage} (h : List.Forall₂ Created bodies msgs)
    (hlen : ∀ body ∈ bodies, body.length < 2 ^ 31) : stream frame msgs = stream frameOf bodies := by
  induction h with
  | nil => rfl
  | @cons body msg bodies msgs hmsg _ ih =>
    rw [stream_cons, stream_cons, frame_of_created (hlen body List.mem_cons_self) hmsg,
      ih fun b hb => hlen b (List.mem_cons_of_mem _ hb)]

/-- What the socket of a session has taken is the beginning of the frames that the session was asked to send, and all of them
    when nothing is posted and the queue is empty. -/
theorem wire_prefix {as : List Action} (h : run step {} as = .ok s) {x : ServerSession} (hi : s.sessions[i]? = some x)
    (hlen : ∀ body ∈ asked i as, body.length < 2 ^ 31) : x.wire <+: stream frameOf (asked i as) ∧
      (s.posted = [] → x.writeMsgs = [] → x.wire = stream frameOf (asked i as)) := by
  obtain ⟨hI, hsends⟩ := sends_of_run h
  have hcreated := hsends i
  rw [hi] at hcreated
  obtain ⟨handed, hw⟩ := (hI x (List.mem_of_getElem? hi)).writes
  have hstream := stream_eq_of_created hcreated hlen
  rw [stream_append] at hstream
  refine ⟨hw.wire.trans ⟨_, hstream⟩, fun hposted hmsgs => ?_⟩
  have hidle : x.writing = none := by
    cases hwriting : x.writing with
    | none => rfl
    | some w =>
      obtain ⟨front, tail, hfront, -⟩ := hw.busy _ _ hwriting
      cases hmsgs.symm.trans hfront
  have hsent : x.sent = handed := by rw [hw.sent, hmsgs, List.append_nil]
  rw [← hstream, hposted, hw.done hidle hmsgs]
  exact (congrArg (stream frame) hsent.symm).trans (List.append_nil _).symm

/-- Two strings are sent, the second while the first is written. -/
def twoSends : List Action :=
  [.accept, .asyncSend 0 [7], .runPosted, .asyncSend 0 [], .takes 0 5, .runPosted, .takes 0 12, .runWrite 0, .takes 0 16, .runWrite 0]

/-- In every run of the server, however the handlers of its sessions come between each other: the event handler is told of just the
    messages that a reader receives that gets the bytes of the session one at a time, so that of the frames of a peer it is told of the
    bodies, in order, up to the first that is too long. -/
theorem told_of_frames (as : List Action) (h : run step {} as = .ok s) {x : ServerSession} (hi : s.sessions[i]? = some x) :
    x.received = (Session.read .serverSession x.input).received ∧ ∀ bodies, (∀ body ∈ bodies, body.length < 2 ^ 31) →
      x.input <+: stream frameOf bodies → x.received <+: bodies.takeWhile short ∧
        (x.input = stream frameOf bodies → x.received = bodies.takeWhile short) := by
  have hreceived := ((sends_of_run h).1 x (List.mem_of_getElem? hi)).follows.received
  refine ⟨hreceived, fun bodies hlen hprefix => ?_⟩
  rw [hreceived]
  exact Session.received_read .serverSession hlen hprefix

/-- A message of one byte is read. -/
def oneFrame : List Action :=
  [.accept, .readEnds 0 (.ok (ChatMessage.head 1)), .runRead 0, .readEnds 0 (.ok [7]), .runRead 0]

theorem told_of_frames_one : ∃ s x, run step {} oneFrame = .ok s ∧ s.sessions[0]? = some x ∧ x.received = [[7]] := by
  have hshort : ∀ body ∈ [[(7 : UInt8)]], body.length < 2 ^ 31 := by simp
  have hinput : (run step {} oneFrame).map (·.sessions.map (·.input)) = .ok [stream frameOf [[7]]] := by decide
  obtain ⟨s, hs, hsessions⟩ := map_eq_ok_iff.mp hinput
  obtain ⟨x, hx, hbytes⟩ := List.map_eq_singleton_iff.mp hsessions
  have hi : s.sessions[0]? = some x := by rw [hx]; rfl
  exact ⟨s, x, hs, hi, ((told_of_frames oneFrame hs hi).2 [[7]] hshort (hbytes ▸ List.prefix_rfl)).2 hbytes⟩

end TcpServer

end Zylib.VNetwork
