import Zylib.StreamServer.StreamServer
import Zylib.Lib.Run
import Zylib.Lib.Lists

/-! The connections that a `StreamServer` counts. A handler leaves `m_handlers` with its closed or its timeout
    callback; one that `shutdown` closes has no callback and stays in the set. -/

namespace Zylib.StreamServer

variable {Msg : Type}

/-! ### What a step of a handler closes -/

namespace RWHandlerState
open HandlerEvent (isEnding)

/-- The step does not close the handler and makes none of the callbacks of the end. -/
structure Frame (c d : RWHandlerState Msg) : Prop where
  isClosed : d.isClosed = c.isClosed
  endings : d.log.countP isEnding = c.log.countP isEnding
  cb : d.cb = c.cb

/-- The step closes the handler, and makes one callback unless the handler is closed by `shutdown`. -/
structure Closing (c d : RWHandlerState Msg) (type : ClosedType) : Prop where
  before : c.isClosed = false
  after : d.isClosed = true
  endings : d.log.countP isEnding = c.log.countP isEnding + if type = .activity then 0 else 1
  cb : d.cb = c.cb

section
variable {c d e : RWHandlerState Msg}

theorem Frame.refl (c : RWHandlerState Msg) : Frame c c := ⟨rfl, rfl, rfl⟩

theorem Frame.trans (h : Frame c d) (h' : Frame d e) : Frame c e :=
  ⟨h'.isClosed.trans h.isClosed, h'.endings.trans h.endings, h'.cb.trans h.cb⟩

theorem Frame.closing {type : ClosedType} (h : Frame c d) (h' : Closing d e type) : Closing c e type :=
  ⟨h.isClosed ▸ h'.before, h'.after, h.endings ▸ h'.endings, h'.cb.trans h.cb⟩

/-- What a step does to a handler that is closed by no other type than `types`. -/
def Follows (c : RWHandlerState Msg) (types : ClosedType → Prop) (d : RWHandlerState Msg) : Prop :=
  Frame c d ∨ ∃ type, types type ∧ Closing c d type

variable {types : ClosedType → Prop}

theorem Frame.follows (h : Frame c d) : Follows c types d := Or.inl h

theorem Frame.then (h : Frame c d) (h' : Follows d types e) : Follows c types e :=
  h'.imp (h.trans ·) fun ⟨type, htype, hclosing⟩ => ⟨type, htype, h.closing hclosing⟩

theorem doClosed_follows (hcb : c.cb = {}) {type : ClosedType} (htype : types type) : Follows c types (c.doClosed type) := by
  unfold doClosed
  cases hclosed : c.isClosed with
  | true => exact (Frame.refl c).follows
  | false =>
    refine Or.inr ⟨type, htype, ?_⟩
    simp only [Bool.false_eq_true, if_false]
    cases type <;> refine ⟨hclosed, ?_, ?_, ?_⟩ <;> simp [emit, hcb, isEnding]

theorem doWrite_frame (h : c.doWrite = .ok d) : Frame c d := by
  unfold doWrite at h
  split at h <;> cases h
  exact ⟨rfl, rfl, rfl⟩

theorem doRead_frame (c : RWHandlerState Msg) : Frame c c.doRead := by
  unfold doRead setTimeoutTimer
  by_cases hseconds : c.opt.readTimeoutSeconds > 0
  · rw [if_pos hseconds]
    exact ⟨rfl, rfl, rfl⟩
  · rw [if_neg hseconds]
    exact ⟨rfl, rfl, rfl⟩

theorem sendHandler_frame {msg : Msg} (h : c.sendHandler msg = .ok d) : Frame c d := by
  have happend : Frame c { c with writeBuffer := c.writeBuffer ++ [msg] } := ⟨rfl, rfl, rfl⟩
  unfold sendHandler at h
  dsimp only at h
  split at h
  · exact happend.trans (doWrite_frame h)
  · cases h
    exact happend

theorem asyncReceiveMsg_frame (c : RWHandlerState Msg) (msgs : List Msg) : Frame c (c.asyncReceiveMsg msgs) := by
  unfold asyncReceiveMsg
  split
  · split
    · exact ⟨rfl, by simp [emit, isEnding], rfl⟩
    · exact Frame.refl c
  · exact Frame.refl c

theorem doWriteCallback_follows (hcb : c.cb = {}) {ec : ErrorCode} (htype : types .normal)
    (h : c.doWriteCallback ec = .ok d) : Follows c types d := by
  unfold doWriteCallback at h
  split at h
  · cases h
    exact doClosed_follows hcb htype
  · split at h
    · cases h
    · rename_i front rest _
      have hpop : Frame c { c with writeBuffer := rest } := ⟨rfl, rfl, rfl⟩
      dsimp only at h
      split at h
      · exact (hpop.trans (doWrite_frame h)).follows
      · cases h
        exact hpop.follows

theorem doReadCallback_follows {decode : ByteBuffer.M (List Msg)} (hcb : c.cb = {}) {timer : Option Nat} {ec : ErrorCode}
    {length : Nat} (htype : types .normal) (h : c.doReadCallback decode timer ec length = .ok d) : Follows c types d := by
  have htimer : Frame c (c.timeoutCancel timer) := ⟨rfl, rfl, rfl⟩
  have hcancel : ∀ readBuffer, Frame c { c.timeoutCancel timer with readBuffer } := fun _ => ⟨rfl, rfl, rfl⟩
  unfold doReadCallback at h
  dsimp only at h
  split at h
  · cases h
    exact htimer.then (doClosed_follows (htimer.cb.trans hcb) htype)
  · split at h
    · split at h
      · cases h
      · split at h
        · cases h
          exact (hcancel _).then (doClosed_follows ((hcancel _).cb.trans hcb) htype)
        · rename_i msgs readBuffer _
          have hreceive := (hcancel readBuffer).trans
            (asyncReceiveMsg_frame { c.timeoutCancel timer with readBuffer := readBuffer } msgs)
          split at h
          · cases h
          · cases h
            refine (Frame.trans ?_ (doRead_frame _)).follows
            exact ⟨hreceive.isClosed, hreceive.endings, hreceive.cb⟩
    · cases h
      exact (htimer.trans (doRead_frame _)).follows

/-- The handler that `shutdown` has posted runs. -/
def ShutdownRuns (c : RWHandlerState Msg) : Action Msg → Prop
  | .runPosted => c.posted.head?.any (fun p => p matches .shutdown) = true
  | _ => False

instance (c : RWHandlerState Msg) : ∀ a, Decidable (ShutdownRuns c a)
  | .runPosted => inferInstanceAs (Decidable (_ = true))
  | .sendMessage _ => .isFalse id
  | .shutdown => .isFalse id
  | .writeEnds _ _ => .isFalse id
  | .runWrite _ => .isFalse id
  | .readEnds _ _ _ => .isFalse id
  | .runRead _ => .isFalse id
  | .timerExpires _ => .isFalse id
  | .runTimer _ => .isFalse id

/-- Only the handler that `shutdown` has posted closes without a callback. -/
theorem step_follows {decode : ByteBuffer.M (List Msg)} {a : Action Msg} (hcb : c.cb = {}) (h : c.step decode a = .ok d) :
    Follows c (fun type => type = .activity ↔ ShutdownRuns c a) d := by
  have hframe : ∀ {e : RWHandlerState Msg}, e.isClosed = c.isClosed → e.log = c.log → e.cb = c.cb → Frame c e :=
    fun hclosed hlog hcb => ⟨hclosed, by rw [hlog], hcb⟩
  cases a with
  | sendMessage msg =>
    cases h
    exact (hframe (e := c.sendMessage msg) rfl rfl rfl).follows
  | shutdown =>
    cases h
    unfold shutdown
    split
    · exact (Frame.refl c).follows
    · exact (hframe (e := { c with posted := c.posted ++ [.shutdown] }) rfl rfl rfl).follows
  | runPosted =>
    unfold step runPosted at h
    dsimp only at h
    split at h
    · cases h
    · rename_i msg posted hposted
      exact ((hframe (e := { c with posted }) rfl rfl rfl).trans (sendHandler_frame h)).follows
    · rename_i posted hposted
      cases h
      have htaken : Frame c { c with posted } := hframe rfl rfl rfl
      refine htaken.then (doClosed_follows (htaken.cb.trans hcb) ?_)
      exact iff_of_true rfl (by rw [ShutdownRuns, hposted]; rfl)
  | writeEnds number ec =>
    unfold step writeEnds at h
    dsimp only at h
    split at h
    · cases h
    · split at h <;> cases h
      refine (hframe ?_ ?_ ?_).follows <;> rfl
  | runWrite number =>
    unfold step runWrite at h
    dsimp only at h
    split at h
    · cases h
    · split at h
      · cases h
      · have htaken : Frame c { c with writes := c.writes.eraseP (·.number == number) } := hframe rfl rfl rfl
        exact htaken.then (doWriteCallback_follows hcb (iff_of_false nofun id) h)
  | readEnds number ec bytes =>
    unfold step readEnds at h
    dsimp only at h
    split at h
    · cases h
    · split at h <;> cases h
      refine (hframe ?_ ?_ ?_).follows <;> rfl
  | runRead number =>
    unfold step runRead at h
    dsimp only at h
    split at h
    · cases h
    · split at h
      · cases h
      · have htaken : Frame c { c with reads := c.reads.eraseP (·.number == number) } := hframe rfl rfl rfl
        exact htaken.then (doReadCallback_follows hcb (iff_of_false nofun id) h)
  | timerExpires number =>
    unfold step timerExpires at h
    dsimp only at h
    split at h
    · cases h
    · split at h <;> cases h
      refine (hframe ?_ ?_ ?_).follows <;> rfl
  | runTimer number =>
    unfold step runTimer at h
    dsimp only at h
    split at h
    · cases h
    · split at h
      · cases h
      · cases h
        refine (hframe ?_ ?_ ?_).follows <;> rfl
      · cases h
        have htaken : Frame c { c with timers := c.timers.eraseP (·.number == number) } := hframe rfl rfl rfl
        exact htaken.then (doClosed_follows (htaken.cb.trans hcb) (iff_of_false nofun id))

/-- It does so in an open handler. -/
theorem shutdownRuns_closes {decode : ByteBuffer.M (List Msg)} {a : Action Msg} (hruns : c.ShutdownRuns a)
    (hopen : c.isClosed = false) (h : c.step decode a = .ok d) :
    d.isClosed = true ∧ d.log.countP isEnding = c.log.countP isEnding := by
  cases a with
  | runPosted =>
    unfold step runPosted at h
    unfold ShutdownRuns at hruns
    dsimp only at h
    split at h
    · cases h
    · rename_i msg posted hposted
      rw [hposted] at hruns
      cases hruns
    · cases h
      simp [doClosed, hopen, emit, isEnding]
  | _ => exact hruns.elim

end

end RWHandlerState

/-! ### The accounts -/

namespace StreamServerState
open Run Lists
open HandlerEvent (isEnding)

/-- The handler was created and is not closed. -/
def IsOpen (s : StreamServerState Msg) (hdl : ℕ) : Prop := s.created[hdl]?.map RWHandlerState.isClosed = some false

instance (s : StreamServerState Msg) : DecidablePred s.IsOpen := fun _ => inferInstanceAs (Decidable (_ = _))

def openHandlers (s : StreamServerState Msg) : Finset ℕ := (Finset.range s.created.length).filter s.IsOpen

structure Accounted (s : StreamServerState Msg) : Prop where
  handlers : s.handlers = s.openHandlers
  limit : s.opt.maxConnection ≠ 0 → s.handlers.card ≤ s.opt.maxConnection
  refused : s.createHandler.1 = none → s.openHandlers.card = s.opt.maxConnection
  oneAccept : s.acceptorOpen = true → s.accepts.length = 1

/-- The step does not run a handler that `shutdown` has posted for a connection that is still open. -/
def NoShutdown (s : StreamServerState Msg) : Action Msg → Prop
  | .handler hdl a => ∀ c ∈ s.created[hdl]?, c.ShutdownRuns a → c.isClosed = true
  | _ => True

instance (s : StreamServerState Msg) : ∀ a, Decidable (s.NoShutdown a)
  | .handler hdl a => inferInstanceAs (Decidable (∀ c ∈ s.created[hdl]?, c.ShutdownRuns a → c.isClosed = true))
  | .acceptEnds _ _ => .isTrue trivial
  | .runAccept _ => .isTrue trivial
  | .stop => .isTrue trivial

/-- What the set of the handlers says of those that were created. -/
structure Counted (s : StreamServerState Msg) : Prop where
  handlers : s.handlers = s.openHandlers
  limit : s.opt.maxConnection ≠ 0 → s.handlers.card ≤ s.opt.maxConnection
  cb : ∀ c ∈ s.created, c.cb = {}

structure Inv (s : StreamServerState Msg) : Prop extends Counted s where
  oneAccept : s.acceptorOpen = true → s.accepts.length = 1

section
variable {s t : StreamServerState Msg}

theorem mem_openHandlers {hdl : ℕ} : hdl ∈ s.openHandlers ↔ s.IsOpen hdl := by
  rw [openHandlers, Finset.mem_filter, Finset.mem_range]
  refine and_iff_right_of_imp fun h => ?_
  obtain ⟨c, hc, -⟩ := Option.map_eq_some_iff.mp h
  exact (List.getElem?_eq_some_iff.mp hc).1

theorem Inv.accounted (hI : Inv s) : Accounted s := by
  refine ⟨hI.handlers, hI.limit, fun hnone => ?_, hI.oneAccept⟩
  unfold createHandler at hnone
  split at hnone
  · rename_i hfull
    rw [← hI.handlers]
    exact Nat.le_antisymm (hI.limit hfull.1) hfull.2
  · cases hnone

/-- A step that changes nothing but the acceptor and the accepts. -/
theorem Counted.of_eq (hC : Counted s) (hopt : t.opt = s.opt) (hhandlers : t.handlers = s.handlers)
    (hcreated : t.created = s.created) : Counted t := by
  refine ⟨?_, ?_, hcreated ▸ hC.cb⟩
  · rw [hhandlers, hC.handlers]
    refine Finset.ext fun hdl => ?_
    rw [mem_openHandlers, mem_openHandlers, IsOpen, IsOpen, hcreated]
  · rw [hopt, hhandlers]
    exact hC.limit

/-! ### Accepting -/

theorem Counted.createHandler (hC : Counted s) : Counted s.createHandler.2 := by
  unfold StreamServerState.createHandler
  split
  · exact hC
  · rename_i hroom
    have hinit : (RWHandlerState.init ⟨s.opt.timeoutSeconds⟩ {} : RWHandlerState Msg).isClosed = false ∧
        (RWHandlerState.init ⟨s.opt.timeoutSeconds⟩ {} : RWHandlerState Msg).cb = {} := by
      have hframe := RWHandlerState.doRead_frame ({ opt := ⟨s.opt.timeoutSeconds⟩, cb := {} } : RWHandlerState Msg)
      exact ⟨hframe.isClosed, hframe.cb⟩
    refine ⟨Finset.ext fun hdl => ?_, fun hmax => ?_, fun c hc => ?_⟩
    · rw [Finset.mem_insert, hC.handlers, mem_openHandlers, mem_openHandlers, IsOpen, IsOpen]
      rcases Nat.lt_trichotomy hdl s.created.length with hlt | heq | hgt
      · rw [List.getElem?_append_left hlt]
        exact or_iff_right (Nat.ne_of_lt hlt)
      · subst heq
        simp [hinit.1]
      · have hlen : (s.created ++ [RWHandlerState.init ⟨s.opt.timeoutSeconds⟩ {}]).length ≤ hdl := by
          rw [List.length_append, List.length_singleton]
          exact hgt
        rw [List.getElem?_eq_none hlen, List.getElem?_eq_none (Nat.le_of_lt hgt)]
        exact or_iff_right (Nat.ne_of_gt hgt)
    · have hlt : s.handlers.card < s.opt.maxConnection := by
        by_contra hge
        exact hroom ⟨hmax, Nat.not_lt.mp hge⟩
      exact (Finset.card_insert_le _ _).trans hlt
    · rcases List.mem_append.mp hc with hc | hc
      · exact hC.cb c hc
      · cases List.mem_singleton.mp hc
        exact hinit.2

theorem createHandler_accepts (s : StreamServerState Msg) :
    s.createHandler.2.accepts = s.accepts ∧ s.createHandler.2.acceptorOpen = s.acceptorOpen := by
  unfold createHandler
  split <;> exact ⟨rfl, rfl⟩

theorem inv_acceptEnds (hI : Inv s) {number : Nat} {ec : ErrorCode} (h : s.acceptEnds number ec = .ok t) : Inv t := by
  unfold acceptEnds at h
  split at h
  · cases h
  · split at h <;> cases h
    exact ⟨hI.toCounted.of_eq rfl rfl rfl, fun hopen => (List.length_map _).trans (hI.oneAccept hopen)⟩

theorem inv_runAccept (hI : Inv s) {number : Nat} (h : s.runAccept number = .ok t) : Inv t := by
  unfold runAccept at h
  split at h
  · cases h
  rename_i a hfind
  split at h <;> cases h
  rename_i ec _
  have hrest : s.acceptorOpen = true → s.accepts.eraseP (·.number == number) = [] := by
    intro hopen
    have hone := hI.oneAccept hopen
    rw [(perm_of_find? hfind).length_eq, List.length_cons] at hone
    exact List.length_eq_zero_iff.mp (Nat.succ.inj hone)
  have hcounted : Counted { s with accepts := s.accepts.eraseP (·.number == number) } := hI.toCounted.of_eq rfl rfl rfl
  unfold acceptCallback
  split
  · obtain ⟨haccepts, hsame⟩ := createHandler_accepts { s with accepts := s.accepts.eraseP (·.number == number) }
    refine ⟨hcounted.createHandler.of_eq rfl rfl rfl, fun hopen => ?_⟩
    rw [accept, haccepts, hrest (hsame ▸ hopen)]
    rfl
  · exact ⟨hcounted.of_eq rfl rfl rfl, nofun⟩

/-! ### The handlers -/

theorem isOpen_set {hdl : ℕ} {c d : RWHandlerState Msg} (hc : s.created[hdl]? = some c) (hdl' : ℕ) :
    IsOpen { s with created := s.created.set hdl d } hdl' ↔ if hdl' = hdl then d.isClosed = false else s.IsOpen hdl' := by
  have hlt : hdl < s.created.length := (List.getElem?_eq_some_iff.mp hc).1
  unfold IsOpen
  split
  · rename_i heq
    rw [heq, List.getElem?_set_self hlt, Option.map_some, Option.some.injEq]
  · rename_i hne
    rw [List.getElem?_set_ne (Ne.symm hne)]

theorem isOpen_iff {hdl : ℕ} {c : RWHandlerState Msg} (hc : s.created[hdl]? = some c) : s.IsOpen hdl ↔ c.isClosed = false := by
  rw [IsOpen, hc, Option.map_some, Option.some.injEq]

/-- The step of a handler, in the state and with the set that it leads to. -/
theorem handlerStep_ok {decode : ByteBuffer.M (List Msg)} {hdl : ℕ} {a : RWHandlerState.Action Msg}
    (h : s.handlerStep decode hdl a = .ok t) : ∃ c d, s.created[hdl]? = some c ∧ c.step decode a = .ok d ∧
      t = { s with
        created := s.created.set hdl d
        handlers := if c.log.countP isEnding < d.log.countP isEnding then s.handlers.erase hdl else s.handlers } := by
  unfold handlerStep at h
  split at h
  · cases h
  · rename_i c hc
    split at h
    · cases h
    · rename_i d hd
      refine ⟨c, d, hc, hd, ?_⟩
      cases h
      split <;> rfl

theorem inv_handlerStep (hI : Inv s) {decode : ByteBuffer.M (List Msg)} {hdl : ℕ} {a : RWHandlerState.Action Msg}
    (hP : s.NoShutdown (.handler hdl a)) (h : s.handlerStep decode hdl a = .ok t) : Inv t := by
  obtain ⟨c, d, hc, hd, rfl⟩ := handlerStep_ok h
  have hcb := hI.cb c (List.mem_of_getElem? hc)
  have hfollows := RWHandlerState.step_follows hcb hd
  have hdcb : d.cb = c.cb := hfollows.elim RWHandlerState.Frame.cb fun ⟨_, _, hclosing⟩ => hclosing.cb
  have hcbs : ∀ c' ∈ s.created.set hdl d, c'.cb = {} := by
    intro c' hc'
    rcases List.mem_or_eq_of_mem_set hc' with hc' | rfl
    · exact hI.cb c' hc'
    · exact hdcb.trans hcb
  have hcard : (if c.log.countP isEnding < d.log.countP isEnding then s.handlers.erase hdl else s.handlers) ⊆ s.handlers := by
    split
    · exact Finset.erase_subset _ _
    · exact Finset.Subset.refl _
  refine ⟨⟨Finset.ext fun hdl' => ?_, fun hmax => (Finset.card_le_card hcard).trans (hI.limit hmax), hcbs⟩, hI.oneAccept⟩
  have hmem : ∀ hdl', hdl' ∈ s.handlers ↔ s.IsOpen hdl' := fun hdl' => by rw [hI.handlers, mem_openHandlers]
  rw [mem_openHandlers]
  refine Iff.trans ?_ (isOpen_set (s := { s with handlers := _ }) hc hdl').symm
  rcases hfollows with hframe | ⟨type, htype, hclosing⟩
  · rw [hframe.endings, if_neg (Nat.lt_irrefl _), hmem]
    split
    · rename_i heq
      rw [heq, isOpen_iff hc, hframe.isClosed]
    · exact Iff.rfl
  · have hcallback : type ≠ .activity := fun hactivity =>
      absurd (hP c hc (htype.mp hactivity)) (Bool.not_eq_true _ ▸ hclosing.before)
    rw [hclosing.endings, if_neg hcallback, if_pos (Nat.lt_succ_self _), Finset.mem_erase, hmem]
    split
    · rename_i heq
      exact iff_of_false (fun hne => hne.1 heq) (by rw [hclosing.after]; exact Bool.noConfusion)
    · rename_i hne
      exact and_iff_right hne

theorem handlerStep_bad (hI : Inv s) {decode : ByteBuffer.M (List Msg)} {hdl : ℕ} {a : RWHandlerState.Action Msg}
    (h : s.handlerStep decode hdl a = .ok t) (hA : Accounted t) : s.NoShutdown (.handler hdl a) := by
  obtain ⟨c, d, hc, hd, rfl⟩ := handlerStep_ok h
  intro c' hc' hruns
  cases hc.symm.trans hc'
  by_contra hclosed
  have hopen : c.isClosed = false := Bool.not_eq_true _ ▸ hclosed
  obtain ⟨hafter, hendings⟩ := RWHandlerState.shutdownRuns_closes hruns hopen hd
  have hmem : hdl ∈ s.handlers := by
    rw [hI.handlers, mem_openHandlers, isOpen_iff hc]
    exact hopen
  have hstays := hA.handlers
  rw [hendings, if_neg (Nat.lt_irrefl _)] at hstays
  dsimp only at hstays
  rw [hstays, mem_openHandlers] at hmem
  have hstill := (isOpen_set (s := { s with handlers := _ }) hc hdl).mp hmem
  rw [if_pos rfl, hafter] at hstill
  cases hstill

/-! ### Runs -/

theorem inv_start (opt : ServerOption) : Inv (start opt : StreamServerState Msg) :=
  ⟨⟨rfl, fun _ => Nat.zero_le _, fun _ hc => (List.not_mem_nil hc).elim⟩, fun _ => rfl⟩

theorem inv_step {decode : ByteBuffer.M (List Msg)} {a : Action Msg} (hI : Inv s) (hP : s.NoShutdown a)
    (h : step decode s a = .ok t) : Inv t := by
  cases a with
  | acceptEnds number ec => exact inv_acceptEnds hI h
  | runAccept number => exact inv_runAccept hI h
  | handler hdl a => exact inv_handlerStep hI hP h
  | stop =>
    cases h
    exact ⟨hI.toCounted.of_eq rfl rfl rfl, nofun⟩

theorem noShutdown_of_accounted {decode : ByteBuffer.M (List Msg)} {a : Action Msg} (hI : Inv s)
    (h : step decode s a = .ok t) (hA : Accounted t) : s.NoShutdown a := by
  cases a with
  | handler hdl a => exact handlerStep_bad hI h hA
  | _ => trivial

end

/-- In whatever order connections are accepted and handlers take their steps, in every state the set has the handlers that
    are open and no others, there are not more than the limit, a connection is refused only at the limit and one accept is
    under way until the acceptor is closed, if and only if no handler that is open is closed by `shutdown`. -/
theorem accounted_iff (opt : ServerOption) (decode : ByteBuffer.M (List Msg)) {as : List (Action Msg)} {t : StreamServerState Msg}
    (h : run (step decode) (start opt) as = .ok t) :
    (∀ past s, past <+: as → run (step decode) (start opt) past = .ok s → Accounted s) ↔
      Along (step decode) NoShutdown (start opt) as :=
  forall_prefix_iff_along (J := fun _ => Inv) (Q := fun _ => Accounted) [] Inv.accounted inv_step noShutdown_of_accounted
    (inv_start opt) h

/-- A connection is refused while another is open; a third takes the place of that one, which a read error has closed before
    the handler of `shutdown` runs. -/
theorem accounted_iff_refused :
    let as : List (Action UInt8) := [.acceptEnds 0 0, .runAccept 0, .acceptEnds 1 0, .runAccept 1, .handler 0 .shutdown,
      .handler 0 (.readEnds 0 2 []), .handler 0 (.runRead 0), .handler 0 .runPosted, .acceptEnds 2 0, .runAccept 2, .stop]
    ∃ s, run (step (pure [])) (start { maxConnection := 1 }) as = .ok s ∧ Accounted s := by
  intro as
  have halong : Along (step (pure [])) NoShutdown (start { maxConnection := 1 }) as := by decide
  exact ⟨_, rfl, (accounted_iff { maxConnection := 1 } (pure []) rfl).mpr halong as _ (List.prefix_refl as) rfl⟩

/-- A connection that `shutdown` has closed stays in the set. -/
theorem shutdown_stays : ¬∀ (as : List (Action UInt8)) s,
    run (step (pure [])) (start { maxConnection := 1 }) as = .ok s → Accounted s := by
  intro h
  have hA := h [.acceptEnds 0 0, .runAccept 0, .handler 0 .shutdown, .handler 0 .runPosted] _ rfl
  exact absurd hA.handlers (by decide)

end StreamServerState

end Zylib.StreamServer
