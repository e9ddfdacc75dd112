import Zylib.StreamServer.RWHandler
import Zylib.Lib.Run
import Zylib.Lib.Log
import Zylib.Lib.Lists

/-! The life of an `RWHandler`: the write list, whose front is the message that is being written, and the
    callbacks. The handler of a read does not look at `m_is_closed`, so what was read before the close may be
    handed on after it. -/

namespace Zylib.StreamServer.RWHandlerState
open Run Log Lists
open HandlerEvent (isEnding)

variable {Msg : Type}

/-! ### The callbacks -/

/-- `m_async_receive_mgs` is called only while the handler is not closed. -/
def ReceivedOpen (log : List (HandlerEvent Msg)) (e : HandlerEvent Msg) : Prop :=
  ∀ msgs, e = .asyncReceiveMsg msgs → ∀ type, .closed type ∉ log

structure Lifecycle (c : RWHandlerState Msg) : Prop where
  oneWrite : c.writes.length ≤ 1
  handed : c.handed <+: c.sent
  endedOnce : c.log.countP isEnding ≤ 1
  receivedOpen : Respects ReceivedOpen c.log

section
variable (decode : ByteBuffer.M (List Msg))

/-- What the handler of a successful read of `length` bytes hands to `m_async_receive_mgs`. -/
def received (c : RWHandlerState Msg) (length : Nat) : List Msg :=
  if length > 0 ∧ c.cb.asyncReceiveMsg then
    match ByteBuffer.append (some (c.readFixBuffer.take length)) c.readBuffer with
    | .error _ _ => []
    | .ok _ readBuffer =>
      match decode readBuffer with
      | .error _ _ => []
      | .ok msgs _ => msgs
  else []

/-- If the handler of a read that has ended with success runs after the close, there is no message in what
    was read. -/
def ReadStep (c : RWHandlerState Msg) : Action Msg → Prop
  | .runRead number => ∀ r ∈ c.reads.find? (·.number == number), ∀ out ∈ r.outcome, out.1 = 0 → c.isClosed = true →
    c.received decode out.2 = []
  | _ => True

instance (c : RWHandlerState Msg) : ∀ a, Decidable (ReadStep decode c a)
  | .runRead number => inferInstanceAs (Decidable (∀ r ∈ c.reads.find? (·.number == number), ∀ out ∈ r.outcome,
      out.1 = 0 → c.isClosed = true → c.received decode out.2 = []))
  | .sendMessage _ => .isTrue trivial
  | .shutdown => .isTrue trivial
  | .runPosted => .isTrue trivial
  | .writeEnds _ _ => .isTrue trivial
  | .runWrite _ => .isTrue trivial
  | .readEnds _ _ _ => .isTrue trivial
  | .timerExpires _ => .isTrue trivial
  | .runTimer _ => .isTrue trivial

end

/-! ### The invariant -/

/-- No write is under way, or one that writes the front of the list. -/
def Writing (c : RWHandlerState Msg) : Prop :=
  c.writes = [] ∨ ∃ w rest, c.writes = [w] ∧ c.writeBuffer = w.msg :: rest

/-- The messages that `sendMessage` has posted and whose handlers have not run. -/
def waiting (c : RWHandlerState Msg) : List Msg := c.posted.filterMap Posted.msg?

/-- What the log says of `m_is_closed`. -/
structure Logged (c : RWHandlerState Msg) : Prop where
  closed : c.isClosed = true ↔ ∃ type, .closed type ∈ c.log
  endings : c.log.countP isEnding ≤ if c.isClosed then 1 else 0

/-- All messages of the list but the front, and those after it, have not been handed to `async_write`. -/
structure Inv (c : RWHandlerState Msg) : Prop extends Logged c where
  writing : Writing c
  sent : c.sent = c.handed ++ (c.writeBuffer.tail ++ c.waiting)

/-- The events that a step adds to the log are not calls of `m_async_receive_mgs`. -/
def Quiet (c d : RWHandlerState Msg) : Prop := ∃ es, d.log = c.log ++ es ∧ ∀ msgs, .asyncReceiveMsg msgs ∉ es

/-- The step leads to a state that meets the invariant, without a call of `m_async_receive_mgs`, or it is not
    possible, or an exception leaves the handler. -/
def Keeps (c : RWHandlerState Msg) (r : Except Fault (RWHandlerState Msg)) : Prop :=
  (∃ d, r = .ok d ∧ Inv d ∧ Quiet c d) ∨ ∃ e, r = .error e ∧ e ≠ .emptyList

section
variable {c d e : RWHandlerState Msg}

theorem Quiet.of_eq (h : d.log = c.log) : Quiet c d := ⟨[], by simp [h], by simp⟩

theorem Quiet.received (h : Quiet c d) : Respects ReceivedOpen d.log ↔ Respects ReceivedOpen c.log := by
  obtain ⟨es, hes, hnot⟩ := h
  rw [hes]
  exact respects_append_free fun e he pre msgs heq => absurd (heq ▸ he) (hnot msgs)

theorem Inv.keeps (h : Inv d) (hlog : d.log = c.log) : Keeps c (.ok d) := Or.inl ⟨d, rfl, h, Quiet.of_eq hlog⟩

theorem keeps_disabled (c : RWHandlerState Msg) : Keeps c (.error .disabled) := Or.inr ⟨_, rfl, nofun⟩

/-- A step from a state with the same log. -/
theorem Keeps.of_log {r : Except Fault (RWHandlerState Msg)} (h : Keeps c r) (hlog : c.log = e.log) : Keeps e r := by
  rcases h with ⟨d, hr, hd, es, hes, hnot⟩ | herror
  · exact Or.inl ⟨d, hr, hd, es, hlog ▸ hes, hnot⟩
  · exact Or.inr herror

/-- Whatever touches neither the write list nor the log. -/
theorem Inv.of_eq (h : Inv c) (hwrites : d.writes = c.writes) (hbuffer : d.writeBuffer = c.writeBuffer)
    (hsent : d.sent = c.sent) (hhanded : d.handed = c.handed) (hposted : d.waiting = c.waiting)
    (hclosed : d.isClosed = c.isClosed) (hlog : d.log = c.log) : Inv d := by
  refine ⟨⟨?_, ?_⟩, ?_, ?_⟩
  · rw [hclosed, hlog]
    exact h.closed
  · rw [hclosed, hlog]
    exact h.endings
  · unfold Writing
    rw [hwrites, hbuffer]
    exact h.writing
  · rw [hsent, hhanded, hbuffer, hposted]
    exact h.sent

/-! ### Closing -/

/-- A handler is closed once, and then one callback is called at most, which says so. -/
theorem doClosed_cases (c : RWHandlerState Msg) (type : ClosedType) :
    (c.isClosed = true ∧ c.doClosed type = c) ∨
    (c.isClosed = false ∧ ∃ es, es.length ≤ 1 ∧ (∀ e ∈ es, isEnding e = true) ∧
      c.doClosed type = { c with isClosed := true, log := c.log ++ .closed type :: es }) := by
  unfold doClosed
  cases hclosed : c.isClosed with
  | true => exact Or.inl ⟨rfl, rfl⟩
  | false =>
    have hnone : ∀ type, ({ c with isClosed := true } : RWHandlerState Msg).emit (.closed type) =
        { c with isClosed := true, log := c.log ++ .closed type :: [] } := fun _ => rfl
    have hone : ∀ type e, (({ c with isClosed := true } : RWHandlerState Msg).emit (.closed type)).emit e =
        { c with isClosed := true, log := c.log ++ .closed type :: [e] } := by
      intro type e
      simp [emit]
    refine Or.inr ⟨rfl, ?_⟩
    cases type with
    | normal =>
      simp only [Bool.false_eq_true, if_false]
      split
      · exact ⟨[.asyncClosed], Nat.le_refl 1, by simp [isEnding], hone _ _⟩
      · exact ⟨[], Nat.zero_le 1, by simp, hnone _⟩
    | timeout =>
      simp only [Bool.false_eq_true, if_false]
      split
      · exact ⟨[.asyncTimeout], Nat.le_refl 1, by simp [isEnding], hone _ _⟩
      · exact ⟨[], Nat.zero_le 1, by simp, hnone _⟩
    | activity => exact ⟨[], Nat.zero_le 1, by simp, hnone _⟩

theorem doClosed_keeps (h : Inv c) (type : ClosedType) : Keeps c (.ok (c.doClosed type)) := by
  rcases doClosed_cases c type with ⟨-, hsame⟩ | ⟨hopen, es, hlen, hes, heq⟩
  · rw [hsame]
    exact h.keeps rfl
  · rw [heq]
    refine Or.inl ⟨_, rfl, ⟨⟨?_, ?_⟩, h.writing, h.sent⟩, .closed type :: es, rfl, fun msgs hmem => ?_⟩
    · exact iff_of_true rfl ⟨type, List.mem_append_right _ List.mem_cons_self⟩
    · have hold := h.endings
      rw [hopen] at hold
      have hzero : c.log.countP isEnding = 0 := Nat.le_zero.mp hold
      have hone : (HandlerEvent.closed type :: es).countP isEnding ≤ 1 := by
        rw [List.countP_cons_of_neg (by simp [isEnding])]
        exact Nat.le_trans List.countP_le_length hlen
      rw [List.countP_append, hzero, Nat.zero_add]
      exact hone
    · rcases List.mem_cons.mp hmem with hmem | hmem
      · cases hmem
      · cases hes _ hmem

/-! ### Writing -/

/-- `doWrite` when no write is under way and the front has not been handed to `async_write`. -/
theorem doWrite_keeps (hlogged : Logged c) (hwrites : c.writes = []) (hbuffer : c.writeBuffer ≠ [])
    (hsent : c.sent = c.handed ++ (c.writeBuffer ++ c.waiting)) : Keeps c c.doWrite := by
  obtain ⟨msg, rest, hmsg⟩ := List.exists_cons_of_ne_nil hbuffer
  rw [hmsg] at hsent
  unfold doWrite
  rw [hmsg]
  refine Or.inl ⟨_, rfl, ⟨⟨hlogged.closed, hlogged.endings⟩, Or.inr ⟨{ number := c.made, msg }, rest, ?_, rfl⟩, ?_⟩,
    Quiet.of_eq rfl⟩
  · rw [hwrites]
    rfl
  · simp [hsent, waiting]

theorem sendHandler_keeps {msg : Msg} (hlogged : Logged c) (hwriting : Writing c)
    (hsent : c.sent = c.handed ++ (c.writeBuffer.tail ++ msg :: c.waiting)) : Keeps c (c.sendHandler msg) := by
  have hlogged' : Logged { c with writeBuffer := c.writeBuffer ++ [msg] } := ⟨hlogged.closed, hlogged.endings⟩
  unfold sendHandler
  dsimp only
  split
  · rename_i hempty
    have hempty : c.writeBuffer = [] := Classical.not_not.mp hempty
    have hwrites : c.writes = [] := by
      rcases hwriting with hwrites | ⟨w, rest, -, hbuffer⟩
      · exact hwrites
      · rw [hempty] at hbuffer
        cases hbuffer
    exact Keeps.of_log (doWrite_keeps hlogged' hwrites (by simp) (by simpa [waiting, hempty] using hsent)) rfl
  · rename_i hwait
    have hwait : c.writeBuffer ≠ [] := Classical.not_not.mp hwait
    obtain ⟨front, rest, hbuffer⟩ := List.exists_cons_of_ne_nil hwait
    refine Inv.keeps ⟨hlogged', ?_, ?_⟩ rfl
    · rcases hwriting with hwrites | ⟨w, rest', hwrites, hbuffer'⟩
      · exact Or.inl hwrites
      · exact Or.inr ⟨w, rest' ++ [msg], hwrites, by simp [hbuffer']⟩
    · rw [hbuffer] at hsent
      simpa [waiting, hbuffer] using hsent

/-- The handler of the only write: the front of the list is the message that was written. -/
theorem doWriteCallback_keeps {front : Msg} {rest : List Msg} (hlogged : Logged c) (hwrites : c.writes = [])
    (hbuffer : c.writeBuffer = front :: rest) (hsent : c.sent = c.handed ++ (rest ++ c.waiting)) (ec : ErrorCode) :
    Keeps c (c.doWriteCallback ec) := by
  unfold doWriteCallback
  split
  · refine doClosed_keeps ⟨hlogged, Or.inl hwrites, ?_⟩ .normal
    rw [hbuffer]
    exact hsent
  · simp only [hbuffer]
    have hlogged' : Logged { c with writeBuffer := rest } := ⟨hlogged.closed, hlogged.endings⟩
    split
    · rename_i hrest
      exact Keeps.of_log (doWrite_keeps (c := { c with writeBuffer := rest }) hlogged' hwrites hrest hsent) rfl
    · rename_i hrest
      have hrest : rest = [] := Classical.not_not.mp hrest
      subst hrest
      exact Inv.keeps (d := { c with writeBuffer := [] }) ⟨hlogged', Or.inl hwrites, hsent⟩ rfl

/-! ### Reading -/

theorem inv_timeoutCancel (h : Inv c) (timer : Option Nat) : Inv (c.timeoutCancel timer) :=
  h.of_eq rfl rfl rfl rfl rfl rfl rfl

theorem doRead_eq (c : RWHandlerState Msg) : ∃ timers reads made, c.doRead = { c with timers, reads, made } := by
  unfold doRead setTimeoutTimer
  by_cases hseconds : c.opt.readTimeoutSeconds > 0
  · rw [if_pos hseconds]
    exact ⟨_, _, _, rfl⟩
  · rw [if_neg hseconds]
    exact ⟨_, _, _, rfl⟩

theorem inv_doRead (h : Inv c) : Inv c.doRead ∧ c.doRead.log = c.log := by
  obtain ⟨timers, reads, made, heq⟩ := doRead_eq c
  rw [heq]
  exact ⟨h.of_eq rfl rfl rfl rfl rfl rfl rfl, rfl⟩

/-- The handler of a read that has failed. -/
theorem doReadCallback_error (h : Inv c) (decode : ByteBuffer.M (List Msg)) (timer : Option Nat) {ec : ErrorCode}
    (hec : ec ≠ 0) (length : Nat) : Keeps c (c.doReadCallback decode timer ec length) := by
  unfold doReadCallback
  simp only [hec, ne_eq, not_false_eq_true, if_true]
  exact Keeps.of_log (doClosed_keeps (inv_timeoutCancel h timer) .normal) rfl

/-- A call of `m_async_receive_mgs`, if there is a message. -/
def receivedEvent (msgs : List Msg) : List (HandlerEvent Msg) := if msgs = [] then [] else [.asyncReceiveMsg msgs]

theorem Inv.receive (h : Inv c) (msgs : List Msg) : Inv { c with log := c.log ++ receivedEvent msgs } := by
  have hclosed : (∃ type, .closed type ∈ c.log ++ receivedEvent msgs) ↔ ∃ type, .closed type ∈ c.log := by
    unfold receivedEvent
    split <;> simp
  have hendings : (c.log ++ receivedEvent msgs).countP isEnding = c.log.countP isEnding := by
    unfold receivedEvent
    split <;> simp [isEnding]
  exact ⟨⟨h.closed.trans hclosed.symm, hendings ▸ h.endings⟩, h.writing, h.sent⟩

theorem asyncReceiveMsg_eq (c : RWHandlerState Msg) (msgs : List Msg) : c.asyncReceiveMsg msgs =
    { c with log := c.log ++ receivedEvent (if c.cb.asyncReceiveMsg then msgs else []) } := by
  unfold asyncReceiveMsg receivedEvent
  by_cases hset : c.cb.asyncReceiveMsg = true
  · by_cases hmsgs : msgs = []
    · simp [hset, hmsgs]
    · simp [hset, hmsgs, emit]
  · simp [hset]

/-- The handler of a read that has ended with success. -/
theorem doReadCallback_success (h : Inv c) (decode : ByteBuffer.M (List Msg)) (timer : Option Nat) (length : Nat) :
    (∃ d, c.doReadCallback decode timer 0 length = .ok d ∧ Inv d ∧
      ∃ c', c'.log = c.log ++ receivedEvent (c.received decode length) ∧ Quiet c' d) ∨
    ∃ e, c.doReadCallback decode timer 0 length = .error e ∧ e ≠ .emptyList := by
  have hcancel : ∀ readBuffer, Inv { c.timeoutCancel timer with readBuffer } := fun readBuffer =>
    h.of_eq rfl rfl rfl rfl rfl rfl rfl
  have hread : ∀ {d : RWHandlerState Msg}, Inv d → d.log = c.log ++ receivedEvent (c.received decode length) →
      ∃ d', Except.ok (ε := Fault) d.doRead = .ok d' ∧ Inv d' ∧
        ∃ c', c'.log = c.log ++ receivedEvent (c.received decode length) ∧ Quiet c' d' := fun {d} hd hlog =>
    ⟨d.doRead, rfl, (inv_doRead hd).1, d, hlog, Quiet.of_eq (inv_doRead hd).2⟩
  unfold doReadCallback
  simp only [ne_eq, not_true_eq_false, if_false]
  by_cases hlength : length > 0
  · rw [if_pos hlength]
    have hfix : (c.timeoutCancel timer).readFixBuffer = c.readFixBuffer := rfl
    have hbuffer : (c.timeoutCancel timer).readBuffer = c.readBuffer := rfl
    rw [hfix, hbuffer]
    cases happend : ByteBuffer.append (some (c.readFixBuffer.take length)) c.readBuffer with
    | error e b => exact Or.inr ⟨_, rfl, nofun⟩
    | ok _ b =>
      dsimp only
      cases hdecode : decode b with
      | error e b' =>
        have hnone : c.received decode length = [] := by
          unfold received
          split
          · rw [happend]
            simp only [hdecode]
          · rfl
        rcases doClosed_keeps (hcancel b') .normal with ⟨d, hd, hinv, hquiet⟩ | ⟨e, he, -⟩
        · refine Or.inl ⟨d, hd, hinv, _, ?_, hquiet⟩
          rw [hnone, receivedEvent, if_pos rfl]
          exact (List.append_nil _).symm
        · cases he
      | ok msgs b' =>
        have hreceived : c.received decode length = if c.cb.asyncReceiveMsg then msgs else [] := by
          unfold received
          rw [happend]
          simp only [hdecode, hlength, true_and]
        have hinv := (hcancel b').receive (c.received decode length)
        dsimp only
        rw [asyncReceiveMsg_eq]
        cases hshrink : shrinkToFit b' with
        | error e b'' => exact Or.inr ⟨_, rfl, nofun⟩
        | ok _ b'' =>
          rw [hreceived] at hinv hread ⊢
          exact Or.inl (hread (hinv.of_eq rfl rfl rfl rfl rfl rfl rfl) rfl)
  · rw [if_neg hlength]
    have hnone : c.received decode length = [] := by
      unfold received
      rw [if_neg fun hpos => hlength hpos.1]
    refine Or.inl (hread (inv_timeoutCancel h timer) ?_)
    rw [hnone, receivedEvent, if_pos rfl]
    exact (List.append_nil _).symm

/-- The handler is open when it calls `m_async_receive_mgs`, or there is nothing to call it with. -/
theorem respects_receivedEvent (h : Inv c) (msgs : List Msg) :
    Respects ReceivedOpen (c.log ++ receivedEvent msgs) ↔ Respects ReceivedOpen c.log ∧ (c.isClosed = true → msgs = []) := by
  unfold receivedEvent
  split
  · rename_i hmsgs
    rw [List.append_nil]
    exact (and_iff_left fun _ => hmsgs).symm
  · rename_i hmsgs
    rw [respects_concat]
    refine and_congr_right fun _ => ⟨fun hok hclosed => ?_, fun hok _ _ type hmem => ?_⟩
    · obtain ⟨type, hmem⟩ := h.closed.mp hclosed
      exact absurd hmem (hok msgs rfl type)
    · exact hmsgs (hok (h.closed.mpr ⟨type, hmem⟩))

/-! ### Steps -/

theorem runPosted_keeps (h : Inv c) : Keeps c c.runPosted := by
  unfold runPosted
  have hsent := h.sent
  split
  · exact keeps_disabled c
  · rename_i msg posted hposted
    rw [waiting, hposted] at hsent
    exact (sendHandler_keeps (c := { c with posted }) ⟨h.closed, h.endings⟩ h.writing hsent).of_log rfl
  · rename_i posted hposted
    rw [waiting, hposted] at hsent
    exact (doClosed_keeps (c := { c with posted }) ⟨⟨h.closed, h.endings⟩, h.writing, hsent⟩ .activity).of_log rfl

theorem runWrite_keeps (h : Inv c) (number : Nat) : Keeps c (c.runWrite number) := by
  unfold runWrite
  split
  · exact keeps_disabled c
  · rename_i w hfind
    split
    · exact keeps_disabled c
    · rename_i ec houtcome
      rcases h.writing with hwrites | ⟨w', rest, hwrites, hbuffer⟩
      · rw [hwrites] at hfind
        cases hfind
      · have hone : c.writes.length = 1 := congrArg List.length hwrites
        have hnil : c.writes.eraseP (·.number == number) = [] := by
          rw [(perm_of_find? hfind).length_eq, List.length_cons] at hone
          exact List.length_eq_zero_iff.mp (Nat.succ.inj hone)
        have hsent := h.sent
        rw [hbuffer] at hsent
        exact (doWriteCallback_keeps (c := { c with writes := c.writes.eraseP (·.number == number) })
          ⟨h.closed, h.endings⟩ hnil hbuffer hsent ec).of_log rfl

theorem runTimer_keeps (h : Inv c) (number : Nat) : Keeps c (c.runTimer number) := by
  have hinv : Inv { c with timers := c.timers.eraseP (·.number == number) } := h.of_eq rfl rfl rfl rfl rfl rfl rfl
  unfold runTimer
  split
  · exact keeps_disabled c
  · dsimp only
    split
    · exact keeps_disabled c
    · exact hinv.keeps rfl
    · exact (doClosed_keeps hinv .timeout).of_log rfl

theorem writeEnds_keeps (h : Inv c) (number : Nat) (ec : ErrorCode) : Keeps c (c.writeEnds number ec) := by
  unfold writeEnds
  split
  · exact keeps_disabled c
  · split
    · refine Inv.keeps ⟨⟨h.closed, h.endings⟩, ?_, h.sent⟩ rfl
      rcases h.writing with hwrites | ⟨w, rest, hwrites, hbuffer⟩
      · left
        simp only [hwrites, List.map_nil]
      · right
        refine ⟨if w.number = number then { w with outcome := some ec } else w, rest, ?_, ?_⟩
        · simp only [hwrites, List.map_cons, List.map_nil]
        · rw [hbuffer]
          split <;> rfl
    · exact keeps_disabled c

theorem readEnds_keeps (h : Inv c) (number : Nat) (ec : ErrorCode) (bytes : Bytes) : Keeps c (c.readEnds number ec bytes) := by
  unfold readEnds
  split
  · exact keeps_disabled c
  · split
    · exact Inv.keeps (h.of_eq rfl rfl rfl rfl rfl rfl rfl) rfl
    · exact keeps_disabled c

theorem timerExpires_keeps (h : Inv c) (number : Nat) : Keeps c (c.timerExpires number) := by
  unfold timerExpires
  split
  · exact keeps_disabled c
  · split
    · exact Inv.keeps (h.of_eq rfl rfl rfl rfl rfl rfl rfl) rfl
    · exact keeps_disabled c

/-- A handler that is posted waits with its message, if it has one. -/
theorem Inv.post (h : Inv c) (p : Posted Msg) :
    Inv { c with posted := c.posted ++ [p], sent := c.sent ++ p.msg?.toList } := by
  refine ⟨⟨h.closed, h.endings⟩, h.writing, ?_⟩
  have hwaiting : (c.posted ++ [p]).filterMap Posted.msg? = c.waiting ++ p.msg?.toList := by
    rw [List.filterMap_append, waiting]
    cases p <;> rfl
  show c.sent ++ p.msg?.toList = c.handed ++ (c.writeBuffer.tail ++ (c.posted ++ [p]).filterMap Posted.msg?)
  rw [hwaiting, h.sent, List.append_assoc, List.append_assoc]

theorem sendMessage_keeps (h : Inv c) (msg : Msg) : Keeps c (.ok (c.sendMessage msg)) :=
  (h.post (.sendMessage msg)).keeps rfl

theorem shutdown_keeps (h : Inv c) : Keeps c (.ok c.shutdown) := by
  unfold shutdown
  split
  · exact h.keeps rfl
  · have hpost := h.post .shutdown
    rw [Posted.msg?, Option.toList_none, List.append_nil] at hpost
    exact hpost.keeps rfl

/-- The step keeps the invariant, and the order of the callbacks if and only if it meets `P`; it does not use the front of
    an empty list. -/
structure Steps (c : RWHandlerState Msg) (P : Prop) (r : Except Fault (RWHandlerState Msg)) : Prop where
  inv : ∀ {d}, r = .ok d → Inv d
  received : ∀ {d}, r = .ok d → (Respects ReceivedOpen d.log ↔ Respects ReceivedOpen c.log ∧ P)
  ne_emptyList : r ≠ .error .emptyList

theorem Keeps.steps {P : Prop} {r : Except Fault (RWHandlerState Msg)} (h : Keeps c r) (hP : P) : Steps c P r := by
  rcases h with ⟨d, rfl, hinv, hquiet⟩ | ⟨e, rfl, hne⟩
  · refine ⟨fun hd => ?_, fun hd => ?_, nofun⟩ <;> cases hd
    · exact hinv
    · exact hquiet.received.trans (and_iff_left hP).symm
  · refine ⟨nofun, nofun, fun he => ?_⟩
    cases he
    exact hne rfl

theorem runRead_steps (h : Inv c) (decode : ByteBuffer.M (List Msg)) (number : Nat) :
    Steps c (ReadStep decode c (.runRead number)) (c.runRead decode number) := by
  unfold runRead
  split
  · rename_i hfind
    refine (keeps_disabled c).steps fun r hfind' => ?_
    cases hfind.symm.trans hfind'
  · rename_i r hfind
    split
    · rename_i houtcome
      refine (keeps_disabled c).steps fun r' hfind' out hout => ?_
      cases hfind.symm.trans hfind'
      cases houtcome.symm.trans hout
    · rename_i ec length houtcome
      have hinv : Inv { c with reads := c.reads.eraseP (·.number == number) } := h.of_eq rfl rfl rfl rfl rfl rfl rfl
      by_cases hec : ec = 0
      · subst hec
        have hstep : ReadStep decode c (.runRead number) ↔ (c.isClosed = true → c.received decode length = []) := by
          refine ⟨fun hread => hread r hfind (0, length) houtcome rfl, fun hread r' hfind' out hout _ => ?_⟩
          cases hfind.symm.trans hfind'
          cases houtcome.symm.trans hout
          exact hread
        rcases doReadCallback_success hinv decode r.timer length with ⟨d, hd, hd', c', hlog, hquiet⟩ | ⟨e, he, hne⟩
        · refine ⟨fun heq => ?_, fun heq => ?_, fun heq => ?_⟩ <;> cases hd.symm.trans heq
          · exact hd'
          · rw [hstep, hquiet.received, hlog]
            exact respects_receivedEvent hinv _
        · refine ⟨fun heq => ?_, fun heq => ?_, fun heq => ?_⟩ <;> cases he.symm.trans heq
          exact hne rfl
      · refine Keeps.steps ((doReadCallback_error hinv decode r.timer hec length).of_log rfl)
          fun r' hfind' out hout hzero => ?_
        cases hfind.symm.trans hfind'
        cases houtcome.symm.trans hout
        exact absurd hzero hec

theorem step_steps (h : Inv c) (decode : ByteBuffer.M (List Msg)) (a : Action Msg) :
    Steps c (ReadStep decode c a) (step decode c a) := by
  cases a with
  | sendMessage msg => exact (sendMessage_keeps h msg).steps trivial
  | shutdown => exact (shutdown_keeps h).steps trivial
  | runPosted => exact (runPosted_keeps h).steps trivial
  | writeEnds number ec => exact (writeEnds_keeps h number ec).steps trivial
  | runWrite number => exact (runWrite_keeps h number).steps trivial
  | readEnds number ec bytes => exact (readEnds_keeps h number ec bytes).steps trivial
  | runRead number => exact runRead_steps h decode number
  | timerExpires number => exact (timerExpires_keeps h number).steps trivial
  | runTimer number => exact (runTimer_keeps h number).steps trivial

theorem inv_init (opt : HandlerOption) (cb : HandlerCallbacks) :
    Inv (init opt cb : RWHandlerState Msg) ∧ (init opt cb : RWHandlerState Msg).log = [] := by
  have hnew : Inv ({ opt, cb } : RWHandlerState Msg) :=
    ⟨⟨iff_of_false Bool.false_ne_true (by simp), Nat.le_refl 0⟩, Or.inl rfl, rfl⟩
  exact inv_doRead hnew

end

/-! ### Runs -/

/-- In whatever order handlers are posted and run and operations and timers end, no handler uses the front of an empty
    list. -/
theorem ne_emptyList (opt : HandlerOption) (cb : HandlerCallbacks) (decode : ByteBuffer.M (List Msg)) (as : List (Action Msg)) :
    run (step decode) (init opt cb) as ≠ .error .emptyList := by
  refine (run_ne_error_iff_along (P := fun _ _ => True) (fun hI h => (step_steps hI decode _).inv h) (fun hI => ?_)
    (inv_init opt cb).1).mpr (along_true _ _)
  exact iff_of_true (step_steps hI decode _).ne_emptyList trivial

/-- One write at most is under way, the messages are written in the order of their posting and the callbacks of the
    end are called once at most, in every run; and `m_async_receive_mgs` is not called after the close if and only
    if no handler of a successful read that runs after the close finds a message. -/
theorem lifecycle_iff (opt : HandlerOption) (cb : HandlerCallbacks) (decode : ByteBuffer.M (List Msg)) (as : List (Action Msg))
    {c : RWHandlerState Msg} (h : run (step decode) (init opt cb) as = .ok c) :
    Lifecycle c ↔ Along (step decode) (ReadStep decode) (init opt cb) as := by
  have hinv : Inv c := run_invariant (P := fun _ _ => True) (fun hI _ hs => (step_steps hI decode _).inv hs) (inv_init opt cb).1
    (along_true _ _) h
  have hreceived : Respects ReceivedOpen c.log ↔ Along (step decode) (ReadStep decode) (init opt cb) as := by
    refine (run_iff_along (fun hI hs => (step_steps hI decode _).inv hs) (fun hI hs => (step_steps hI decode _).received hs)
      (inv_init opt cb).1 h).trans (and_iff_right ?_)
    rw [(inv_init opt cb).2]
    exact respects_nil
  refine ⟨fun hlife => hreceived.mp hlife.receivedOpen, fun halong => ⟨?_, ?_, ?_, hreceived.mpr halong⟩⟩
  · rcases hinv.writing with hwrites | ⟨w, rest, hwrites, -⟩ <;> simp [hwrites]
  · rw [hinv.sent]
    exact List.prefix_append _ _
  · refine Nat.le_trans hinv.endings ?_
    split
    · exact Nat.le_refl 1
    · exact Nat.zero_le 1

/-- A decoder of messages of one byte. -/
def byteDecoder : ByteBuffer.M (List UInt8) := do
  let bytes ← ByteBuffer.readBytes (← ByteBuffer.byteSize)
  ByteBuffer.readSkip bytes.length
  return bytes

/-- A byte that is read and decoded before `shutdown`, and one that was to be written. -/
theorem lifecycle_iff_read :
    let as : List (Action UInt8) := [.sendMessage 5, .runPosted, .readEnds 0 0 [7], .runRead 0, .shutdown, .runPosted,
      .writeEnds 1 9, .runWrite 1]
    ∃ c, run (step byteDecoder) (init {} {}) as = .ok c ∧ Lifecycle c := by
  intro as
  have halong : Along (step byteDecoder) (ReadStep byteDecoder) (init {} {}) as := by decide
  exact ⟨_, rfl, (lifecycle_iff {} {} byteDecoder as rfl).mpr halong⟩

/-- A byte that was read before `shutdown`, and whose handler runs after it. -/
theorem receiveMsg_after_closed : ¬∀ (decode : ByteBuffer.M (List UInt8)) (as : List (Action UInt8)) c,
    run (step decode) (init {} {}) as = .ok c → Respects ReceivedOpen c.log := by
  intro h
  have hrespects := h byteDecoder [.shutdown, .readEnds 0 0 [7], .runPosted, .runRead 0] _ rfl
  exact hrespects [.closed .activity] (.asyncReceiveMsg [7]) List.prefix_rfl [7] rfl .activity (List.mem_singleton_self _)

end Zylib.StreamServer.RWHandlerState
