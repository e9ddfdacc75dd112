import Zylib.ZySoft.Channel
import Zylib.Lib.Run
import Zylib.Lib.Log
import Zylib.Lib.Lists

/-! The write queue of a `Channel`. Nothing says that a write is under way but the list, which is then not
    empty: the front is the message that is being written, or one that could not be written. -/

namespace Zylib.ZySoft.ChannelState
open Run Log Lists

/-! ### Closings -/

/-- Whether the last `Init` or `OnClosed` is an `Init`. -/
def openAt (log : List ChannelEvent) : Bool :=
  log.foldl (fun o e => match e with | .init => true | .onClosed _ => false | _ => o) false

/-- `OnClosed` is called only while the channel is open. -/
def ClosedOpen (log : List ChannelEvent) (e : ChannelEvent) : Prop := ∀ type, e = .onClosed type → openAt log = true

theorem openAt_concat (log : List ChannelEvent) (e : ChannelEvent) :
    openAt (log ++ [e]) = match e with | .init => true | .onClosed _ => false | _ => openAt log := by
  rw [openAt, List.foldl_append]
  rfl

theorem openAt_append {log mid : List ChannelEvent} (hmid : .init ∉ mid) (h : openAt (log ++ mid) = true) :
    openAt log = true := by
  induction mid using List.reverseRecOn with
  | nil => simpa using h
  | append_singleton mid e ih =>
    rw [← List.append_assoc, openAt_concat] at h
    refine ih (fun hinit => hmid (List.mem_append_left _ hinit)) ?_
    cases e with
    | init => exact absurd (List.mem_append_right _ (List.mem_singleton_self _)) hmid
    | onClosed type => cases h
    | _ => exact h

/-- Between two calls of `OnClosed` there is an `Init`. -/
theorem init_between {log : List ChannelEvent} (h : Respects ClosedOpen log) {pre mid post : List ChannelEvent}
    {type type' : CloseType} (hlog : log = pre ++ .onClosed type :: (mid ++ .onClosed type' :: post)) : .init ∈ mid := by
  by_contra hmid
  have hprefix : (pre ++ .onClosed type :: mid) ++ [.onClosed type'] <+: log := ⟨post, by rw [hlog]; simp⟩
  have hopen := h _ _ hprefix type' rfl
  rw [List.append_cons] at hopen
  have hclosed := openAt_append hmid hopen
  rw [openAt_concat] at hclosed
  cases hclosed

/-! ### The invariant -/

structure Base (c : ChannelState) : Prop where
  started : c.socket = none → c.opened = false ∧ c.posted = [] ∧ c.writes = [] ∧ c.reads = [] ∧ c.timers = []
  log : Respects ClosedOpen c.log
  openAt : openAt c.log = c.opened

/-- No write is under way, or one that writes the front of the list. -/
def Writing (c : ChannelState) : Prop :=
  c.writes = [] ∨ ∃ w rest, c.writes = [w] ∧ c.writeBuffer = ⟨w.node, w.msg⟩ :: rest

/-- The messages that `SendMsg` has posted and whose handlers have not run. -/
def waiting (c : ChannelState) : List Message := c.posted.filterMap Posted.msg?

/-- All messages of the list but the front, and those after it, have not been handed to `async_write`. -/
structure Inv (c : ChannelState) : Prop extends Base c where
  writing : Writing c
  sent : c.sent = c.handed ++ (c.writeBuffer.tail.map Node.msg ++ c.waiting)

/-- The step leads to a state that meets the invariant, or is not possible. -/
def Keeps (r : Except Fault ChannelState) : Prop := (∃ c, r = .ok c ∧ Inv c) ∨ r = .error .disabled

section
variable {c : ChannelState}

theorem Inv.keeps (h : Inv c) : Keeps (.ok c) := Or.inl ⟨c, rfl, h⟩

theorem Keeps.inv (h : Keeps (.ok c)) : Inv c := by
  rcases h with ⟨d, heq, hd⟩ | heq
  · cases heq
    exact hd
  · cases heq

theorem keeps_disabled : Keeps (.error .disabled) := Or.inr rfl

/-- An event other than `Init` and `OnClosed`. -/
theorem Base.emit (h : Base c) {e : ChannelEvent} (hinit : e ≠ .init) (hclosed : ∀ type, e ≠ .onClosed type) :
    Base (c.emit e) := by
  refine ⟨h.started, respects_concat.mpr ⟨h.log, fun type he => absurd he (hclosed type)⟩, ?_⟩
  rw [ChannelState.emit, openAt_concat]
  cases e with
  | init => exact absurd rfl hinit
  | onClosed type => exact absurd rfl (hclosed type)
  | _ => exact h.openAt

/-! ### Timers, closing and reading -/

theorem createTimer_eq (c : ChannelState) (seconds : Nat) (read : Bool) :
    ∃ timers made, (c.createTimer seconds read).2 = { c with timers, made } := by
  unfold createTimer
  split
  · exact ⟨c.timers, c.made, rfl⟩
  · exact ⟨_, _, rfl⟩

theorem Base.timerCancel (h : Base c) (timer : Option Nat) : Base (c.timerCancel timer) := by
  refine ⟨fun hs => ?_, h.log, h.openAt⟩
  obtain ⟨hopened, hposted, hwrites, hreads, htimers⟩ := h.started hs
  refine ⟨hopened, hposted, hwrites, hreads, ?_⟩
  simp only [ChannelState.timerCancel, htimers, List.map_nil]

theorem doClosed_keeps (h : Inv c) (type : CloseType) : Keeps (c.doClosed type) := by
  unfold doClosed
  split
  · rename_i hopened
    split
    · rename_i hs
      rw [(h.started hs).1] at hopened
      cases hopened
    · rename_i connection hs
      refine Inv.keeps ⟨⟨fun hs' => ?_, ?_, ?_⟩, h.writing, h.sent⟩
      · cases hs.symm.trans hs'
      · exact respects_concat.mpr ⟨h.log, fun type _ => h.openAt.trans hopened⟩
      · exact openAt_concat _ _
  · exact h.keeps

theorem doRead_keeps (h : Inv c) (hs : c.socket ≠ none) : Keeps c.doRead := by
  obtain ⟨connection, hconnection⟩ := Option.ne_none_iff_exists'.mp hs
  obtain ⟨timers, made, htimer⟩ := createTimer_eq c c.opt.readTimeoutSeconds true
  unfold doRead
  simp only [htimer, hconnection]
  exact Inv.keeps ⟨⟨nofun, h.log, h.openAt⟩, h.writing, h.sent⟩

/-! ### Writing -/

/-- `DoWrite` when no write is under way and the front has not been handed to `async_write`. -/
theorem doWrite_keeps (h : Base c) (hs : c.socket ≠ none) (hwrites : c.writes = []) (hbuffer : c.writeBuffer ≠ [])
    (hsent : c.sent = c.handed ++ (c.writeBuffer.map Node.msg ++ c.waiting)) : Keeps c.doWrite := by
  obtain ⟨connection, hconnection⟩ := Option.ne_none_iff_exists'.mp hs
  obtain ⟨timers, made, htimer⟩ := createTimer_eq c c.opt.writeTimeoutSeconds false
  obtain ⟨node, rest, hnode⟩ := List.exists_cons_of_ne_nil hbuffer
  unfold doWrite
  simp only [htimer, hconnection, hnode]
  let w : WriteOp := ⟨made, connection, node.number, node.msg, (c.createTimer c.opt.writeTimeoutSeconds false).1, none⟩
  refine Inv.keeps ⟨⟨nofun, h.log, h.openAt⟩, Or.inr ⟨w, rest, ?_, rfl⟩, ?_⟩
  · rw [hwrites]
    rfl
  · rw [hnode] at hsent
    rw [hsent]
    simp [waiting]

theorem sendHandler_keeps {msg : Message} (h : Base c) (hs : c.socket ≠ none) (hwriting : Writing c)
    (hsent : c.sent = c.handed ++ (c.writeBuffer.tail.map Node.msg ++ msg :: c.waiting)) : Keeps (c.sendHandler msg) := by
  have hbase : Base { c with writeBuffer := c.writeBuffer ++ [⟨c.made, msg⟩], made := c.made + 1 } :=
    ⟨fun hs' => absurd hs' hs, h.log, h.openAt⟩
  unfold sendHandler
  dsimp only
  split
  · rename_i hempty
    have hempty : c.writeBuffer = [] := Classical.not_not.mp hempty
    refine doWrite_keeps hbase hs ?_ (by simp) ?_
    · rcases hwriting with hwrites | ⟨w, rest, -, hbuffer⟩
      · exact hwrites
      · rw [hempty] at hbuffer
        cases hbuffer
    · simpa [waiting, hempty] using hsent
  · rename_i hwait
    have hwait : c.writeBuffer ≠ [] := Classical.not_not.mp hwait
    obtain ⟨front, rest, hbuffer⟩ := List.exists_cons_of_ne_nil hwait
    refine Inv.keeps ⟨hbase, ?_, ?_⟩
    · rcases hwriting with hwrites | ⟨w, rest', hwrites, hbuffer'⟩
      · exact Or.inl hwrites
      · exact Or.inr ⟨w, rest' ++ [⟨c.made, msg⟩], hwrites, by simp [hbuffer']⟩
    · rw [hbuffer] at hsent
      simpa [waiting, hbuffer] using hsent

/-- The handler of the only write: the front of the list is the message that was written. -/
theorem writeHandler_keeps {front : Node} {rest : List Node} (h : Base c) (hs : c.socket ≠ none) (hwrites : c.writes = [])
    (hbuffer : c.writeBuffer = front :: rest) (hsent : c.sent = c.handed ++ (rest.map Node.msg ++ c.waiting))
    (timer : Option Nat) (ec : ErrorCode) (length : Nat) : Keeps (c.writeHandler timer ec length) := by
  have htimer := h.timerCancel timer
  have hbuffer' : (c.timerCancel timer).writeBuffer = front :: rest := hbuffer
  unfold writeHandler
  simp only [hbuffer']
  have hbase : ∀ buffer : List Node, Base ({ c.timerCancel timer with writeBuffer := buffer }.emit (.onWrite ec length front.msg)) :=
    fun buffer =>
      have hbuffer : Base { c.timerCancel timer with writeBuffer := buffer } := ⟨htimer.started, htimer.log, htimer.openAt⟩
      hbuffer.emit nofun nofun
  split
  · exact doClosed_keeps ⟨hbase ({ front with msg := .empty } :: rest), Or.inl hwrites, hsent⟩ .write
  · split
    · rename_i hrest
      exact doWrite_keeps (hbase rest) hs hwrites hrest hsent
    · rename_i hrest
      have hrest : rest = [] := Classical.not_not.mp hrest
      subst hrest
      exact Inv.keeps ⟨hbase [], Or.inl hwrites, hsent⟩

/-! ### Steps -/

/-- Whatever only touches the timers, the reads and the read buffers. -/
theorem Inv.of_eq {d : ChannelState} (h : Inv c) (hsocket : d.socket = c.socket) (hopened : d.opened = c.opened)
    (hposted : d.posted = c.posted) (hwrites : d.writes = c.writes) (hbuffer : d.writeBuffer = c.writeBuffer)
    (hsent : d.sent = c.sent) (hhanded : d.handed = c.handed) (hlog : d.log = c.log)
    (hidle : c.socket = none → d.reads = [] ∧ d.timers = []) : Inv d := by
  refine ⟨⟨fun hs => ?_, hlog ▸ h.log, ?_⟩, ?_, ?_⟩
  · obtain ⟨ho, hp, hw, -, -⟩ := h.started (hsocket ▸ hs)
    exact ⟨hopened ▸ ho, hposted ▸ hp, hwrites ▸ hw, hidle (hsocket ▸ hs)⟩
  · rw [hlog, hopened]
    exact h.openAt
  · unfold Writing
    rw [hwrites, hbuffer]
    exact h.writing
  · unfold waiting
    rw [hsent, hhanded, hbuffer, hposted]
    exact h.sent

/-- Before the first `Init` no handler is posted and no operation is under way. -/
theorem Base.socket_ne (h : Base c) (hbusy : c.posted ≠ [] ∨ c.writes ≠ [] ∨ c.reads ≠ []) : c.socket ≠ none := by
  intro hs
  obtain ⟨-, hposted, hwrites, hreads, -⟩ := h.started hs
  rcases hbusy with hbusy | hbusy | hbusy
  · exact hbusy hposted
  · exact hbusy hwrites
  · exact hbusy hreads

theorem init_keeps (h : Inv c) : Keeps c.init := by
  have hbase : Base ({ c with opened := true, socket := some c.made, made := c.made + 1 }.emit .init) := by
    refine ⟨fun hs => (by cases hs), respects_concat.mpr ⟨h.log, fun type he => (by cases he)⟩, openAt_concat _ _⟩
  exact doRead_keeps ⟨hbase, h.writing, h.sent⟩ (Option.some_ne_none _)

theorem runPosted_keeps (h : Inv c) : Keeps c.runPosted := by
  unfold runPosted
  split
  · exact keeps_disabled
  · rename_i msg posted hposted
    have hs : c.socket ≠ none := h.socket_ne (Or.inl (hposted ▸ List.cons_ne_nil _ _))
    have hsent := h.sent
    rw [waiting, hposted] at hsent
    exact sendHandler_keeps (c := { c with posted }) ⟨fun hs' => absurd hs' hs, h.log, h.openAt⟩ hs h.writing hsent
  · rename_i posted hposted
    have hs : c.socket ≠ none := h.socket_ne (Or.inl (hposted ▸ List.cons_ne_nil _ _))
    have hsent := h.sent
    rw [waiting, hposted] at hsent
    exact doClosed_keeps (c := { c with posted }) ⟨⟨fun hs' => absurd hs' hs, h.log, h.openAt⟩, h.writing, hsent⟩ _

theorem runWrite_keeps (h : Inv c) (number : Nat) : Keeps (c.runWrite number) := by
  unfold runWrite
  split
  · exact keeps_disabled
  · rename_i w hfind
    have hs := h.socket_ne (Or.inr (Or.inl (ne_nil_of_find? hfind)))
    split
    · exact keeps_disabled
    · rename_i ec length houtcome
      rcases h.writing with hwrites | ⟨w', rest, hwrites, hbuffer⟩
      · rw [hwrites] at hfind
        cases hfind
      · have hperm := perm_of_find? hfind
        have hone : c.writes.length = 1 := congrArg List.length hwrites
        have hnil : c.writes.eraseP (·.number == number) = [] := by
          rw [hperm.length_eq, List.length_cons] at hone
          exact List.length_eq_zero_iff.mp (Nat.succ.inj hone)
        refine writeHandler_keeps (c := { c with writes := c.writes.eraseP (·.number == number) })
          ⟨fun hs' => absurd hs' hs, h.log, h.openAt⟩
          hs hnil hbuffer ?_ w.timer ec length
        have hsent := h.sent
        rw [hbuffer] at hsent
        exact hsent

theorem Inv.tryDecode (h : Inv c) (decode : FlatBuffer → List Message × FlatBuffer) :
    Inv (c.tryDecode decode) ∧ (c.tryDecode decode).socket = c.socket := by
  have hbase : Base { c with readBuffer := (decode c.readBuffer).2 } := ⟨h.started, h.log, h.openAt⟩
  unfold ChannelState.tryDecode
  dsimp only
  split
  · exact ⟨⟨hbase, h.writing, h.sent⟩, rfl⟩
  · exact ⟨⟨hbase.emit nofun nofun, h.writing, h.sent⟩, rfl⟩

theorem readHandler_keeps (h : Inv c) (hs : c.socket ≠ none) (decode : FlatBuffer → List Message × FlatBuffer)
    (timer : Option Nat) (ec : ErrorCode) (length : Nat) : Keeps (c.readHandler decode timer ec length) := by
  have htimer := h.toBase.timerCancel timer
  have hread : ∀ readBuffer, Inv ({ c.timerCancel timer with readBuffer }.emit (.onRead ec length)) := fun readBuffer =>
    have hbase : Base { c.timerCancel timer with readBuffer } := ⟨htimer.started, htimer.log, htimer.openAt⟩
    ⟨hbase.emit nofun nofun, h.writing, h.sent⟩
  unfold readHandler
  dsimp only
  split
  · exact doClosed_keeps (hread _) _
  · obtain ⟨hinv, hsocket⟩ := (hread _).tryDecode decode
    exact doRead_keeps hinv (by rw [hsocket]; exact hs)

theorem runRead_keeps (h : Inv c) (decode : FlatBuffer → List Message × FlatBuffer) (number : Nat) :
    Keeps (c.runRead decode number) := by
  unfold runRead
  split
  · exact keeps_disabled
  · rename_i r hfind
    have hs := h.socket_ne (Or.inr (Or.inr (ne_nil_of_find? hfind)))
    split
    · exact keeps_disabled
    · exact readHandler_keeps (c := { c with reads := c.reads.eraseP (·.number == number) })
        ⟨⟨fun hs' => absurd hs' hs, h.log, h.openAt⟩, h.writing, h.sent⟩ hs decode _ _ _

theorem writeEnds_keeps (h : Inv c) (number : Nat) (ec : ErrorCode) (length : Nat) : Keeps (c.writeEnds number ec length) := by
  unfold writeEnds
  split
  · exact keeps_disabled
  · rename_i w hfind
    have hs := h.socket_ne (Or.inr (Or.inl (ne_nil_of_find? hfind)))
    split
    · refine Inv.keeps ⟨⟨fun hs' => absurd hs' hs, h.log, h.openAt⟩, ?_, h.sent⟩
      rcases h.writing with hwrites | ⟨w, rest, hwrites, hbuffer⟩
      · left
        simp only [hwrites, List.map_nil]
      · right
        refine ⟨if w.number = number then { w with outcome := some (ec, length) } else w, rest, ?_, ?_⟩
        · simp only [hwrites, List.map_cons, List.map_nil]
        · rw [hbuffer]
          split <;> rfl
    · exact keeps_disabled

theorem readEnds_keeps (h : Inv c) (number : Nat) (ec : ErrorCode) (bytes : Bytes) : Keeps (c.readEnds number ec bytes) := by
  unfold readEnds
  split
  · exact keeps_disabled
  · split
    · apply Inv.keeps
      refine h.of_eq rfl rfl rfl rfl rfl rfl rfl rfl fun hs => ?_
      obtain ⟨-, -, -, hreads, htimers⟩ := h.started hs
      exact ⟨by simp only [hreads, List.map_nil], htimers⟩
    · exact keeps_disabled

theorem timerExpires_keeps (h : Inv c) (number : Nat) : Keeps (c.timerExpires number) := by
  unfold timerExpires
  split
  · exact keeps_disabled
  · split
    · apply Inv.keeps
      refine h.of_eq rfl rfl rfl rfl rfl rfl rfl rfl fun hs => ?_
      obtain ⟨-, -, -, hreads, htimers⟩ := h.started hs
      exact ⟨hreads, by simp only [htimers, List.map_nil]⟩
    · exact keeps_disabled

theorem runTimer_keeps (h : Inv c) (number : Nat) : Keeps (c.runTimer number) := by
  have hinv : Inv { c with timers := c.timers.eraseP (·.number == number) } := by
    refine h.of_eq rfl rfl rfl rfl rfl rfl rfl rfl fun hs => ?_
    obtain ⟨-, -, -, hreads, htimers⟩ := h.started hs
    exact ⟨hreads, by simp only [htimers, List.eraseP_nil]⟩
  unfold runTimer
  split
  · exact keeps_disabled
  · dsimp only
    split
    · exact keeps_disabled
    · exact hinv.keeps
    · exact doClosed_keeps hinv _

/-- A handler that is posted waits with its message, if it has one. -/
theorem Inv.post (h : Inv c) (hs : c.socket ≠ none) (p : Posted) :
    Inv { c with posted := c.posted ++ [p], sent := c.sent ++ p.msg?.toList } := by
  refine ⟨⟨fun hs' => absurd hs' hs, h.log, h.openAt⟩, h.writing, ?_⟩
  have hwaiting : (c.posted ++ [p]).filterMap Posted.msg? = c.waiting ++ p.msg?.toList := by
    rw [List.filterMap_append, waiting]
    cases p <;> rfl
  show c.sent ++ p.msg?.toList = c.handed ++ (c.writeBuffer.tail.map Node.msg ++ (c.posted ++ [p]).filterMap Posted.msg?)
  rw [hwaiting, h.sent, List.append_assoc, List.append_assoc]

theorem Inv.sendMsg (h : Inv c) (msg : Message) : Inv (c.sendMsg msg) := by
  unfold ChannelState.sendMsg
  split
  · exact h
  · rename_i hs
    exact h.post (hs ▸ Option.some_ne_none _) (.sendMsg msg)

theorem Inv.shutdown (h : Inv c) : Inv c.shutdown := by
  unfold ChannelState.shutdown
  split
  · exact h
  · rename_i hs
    have hpost := h.post (hs ▸ Option.some_ne_none _) .shutdown
    rw [Posted.msg?, Option.toList_none, List.append_nil] at hpost
    exact hpost

theorem step_keeps (h : Inv c) (decode : FlatBuffer → List Message × FlatBuffer) (a : Action) : Keeps (step decode c a) := by
  cases a with
  | init => exact init_keeps h
  | sendMsg msg => exact (h.sendMsg msg).keeps
  | shutdown => exact h.shutdown.keeps
  | runPosted => exact runPosted_keeps h
  | writeEnds number ec length => exact writeEnds_keeps h number ec length
  | runWrite number => exact runWrite_keeps h number
  | readEnds number ec bytes => exact readEnds_keeps h number ec bytes
  | runRead number => exact runRead_keeps h decode number
  | timerExpires number => exact timerExpires_keeps h number
  | runTimer number => exact runTimer_keeps h number

end

/-! ### Runs -/

structure WriteQueue (c : ChannelState) : Prop where
  oneWrite : c.writes.length ≤ 1
  handed : c.handed <+: c.sent
  unmodified : ∀ w ∈ c.writes, ⟨w.node, w.msg⟩ ∈ c.writeBuffer
  closedOnce : ∀ pre mid post type type', c.log = pre ++ .onClosed type :: (mid ++ .onClosed type' :: post) → .init ∈ mid

theorem Inv.writeQueue {c : ChannelState} (h : Inv c) : WriteQueue c := by
  refine ⟨?_, ?_, ?_, fun pre mid post type type' hlog => init_between h.log hlog⟩
  · rcases h.writing with hwrites | ⟨w, rest, hwrites, -⟩ <;> simp [hwrites]
  · rw [h.sent]
    exact List.prefix_append _ _
  · rcases h.writing with hwrites | ⟨w, rest, hwrites, hbuffer⟩
    · simp [hwrites]
    · simp [hwrites, hbuffer]

theorem Inv.step {c d : ChannelState} {decode : FlatBuffer → List Message × FlatBuffer} {a : Action} (hI : Inv c)
    (h : ChannelState.step decode c a = .ok d) : Inv d :=
  Keeps.inv (h ▸ step_keeps hI decode a)

theorem inv_start (opt : ChannelOption) : Inv { opt } :=
  ⟨⟨fun _ => ⟨rfl, rfl, rfl, rfl, rfl⟩, respects_nil, rfl⟩, Or.inl rfl, rfl⟩

/-- In whatever order handlers are posted and run and operations and timers end, one write at most is under way, of
    the message that is in the list, the messages are written in the order of their posting, `OnClosed` is
    called once at most after each `Init`, and no handler uses a null socket or the front of an empty list. -/
theorem writeQueue_run (opt : ChannelOption) (decode : FlatBuffer → List Message × FlatBuffer) (as : List Action) :
    (∀ e, run (step decode) { opt } as = .error e → e = .disabled) ∧
    ∀ c, run (step decode) { opt } as = .ok c → WriteQueue c := by
  have hstep : ∀ {c : ChannelState} {a d}, Inv c → True → step decode c a = .ok d → Inv d :=
    fun hI _ hs => hI.step hs
  refine ⟨fun e h => ?_, fun c h => (run_invariant hstep (inv_start opt) (along_true _ _) h).writeQueue⟩
  refine run_error (E := (· = .disabled)) hstep (fun {c a e} hI _ hs => ?_) (inv_start opt) (along_true _ _) h
  rcases step_keeps hI decode a with ⟨d, heq, -⟩ | heq
  · cases hs.symm.trans heq
  · cases hs.symm.trans heq
    rfl

end Zylib.ZySoft.ChannelState
