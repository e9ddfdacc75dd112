import Zylib.ZySoft.Net.TcpConnection
import Zylib.Lib.Log
import Zylib.Lib.Lists

/-! The graceful shutdown of a `TcpConnection`. While the list is not empty its front is being written, or the
    handler of its write is running; the socket is canceled once the list is empty and nothing more is accepted. -/

namespace Zylib.ZySoft.Net.TcpConnection
open Run Log Lists

/-! ### What the log tells -/

/-- The messages that `SendInLoop` has taken. -/
def accepted (log : List Event) : List Bytes :=
  log.filterMap fun e => match e with | .sendInLoop msg true => some msg | _ => none

/-- The messages that were handed to `async_write`. -/
def handed (log : List Event) : List Bytes := log.filterMap fun e => match e with | .asyncWrite bytes => some bytes | _ => none

/-- The messages whose writes are complete. -/
def completed (log : List Event) : List Bytes :=
  log.filterMap fun e => match e with | .writeComplete msg => some msg | _ => none

/-- Nothing is accepted after `ShutdownInLoop`, the socket is canceled after it and when all that was accepted is
    written, and the framework callback is called once. -/
def Orderly (log : List Event) : Event → Prop
  | .sendInLoop _ true => .shutdownInLoop ∉ log
  | .cancel => .shutdownInLoop ∈ log ∧ completed log = accepted log
  | .frameworkCallback _ _ => ∀ ec needed, .frameworkCallback ec needed ∉ log
  | _ => True

/-- The calls contain no `ForceClose`, and no operation fails but for the `cancel`. -/
def Clean (_ : TcpConnection) : Action → Prop
  | .call call => call ≠ .forceClose
  | .callInLoop call => call ≠ .forceClose
  | .writeEnds _ ec => ec = 0
  | .readEnds _ ec _ => ec = 0
  | .runWrite _ calls => .forceClose ∉ calls
  | .runRead _ _ calls => .forceClose ∉ calls
  | .runPosted => True
  | .removeConnection => True

/-! ### The invariant -/

structure Base (c : TcpConnection) : Prop where
  forceClose : c.flag.optForeceClose = false
  noForceClose : .forceCloseInLoop ∉ c.posted
  flag : .shutdownInLoop ∈ c.posted ∨ .shutdownInLoop ∈ c.log → c.flag.optShutdown = true
  state : c.state = .established ∧ .shutdownInLoop ∉ c.log ∨
    (c.state = .closeWait ∨ c.state = .closed) ∧ .shutdownInLoop ∈ c.log
  canceled : .cancel ∈ c.log → .shutdownInLoop ∈ c.log ∧ c.outputBuffer = []
  failed : ∀ r ∈ c.reads, ∀ ec len, r.outcome = some (ec, len) → ec ≠ 0 → .cancel ∈ c.log
  destroyed : c.removals ≠ 0 ∨ .connectDestroy ∈ c.posted ∨ c.state = .closed → .cancel ∈ c.log
  framework : c.errorHandled = false → ∀ ec needed, .frameworkCallback ec needed ∉ c.log
  written : handed c.log = completed c.log ++ c.writes.map WriteOp.bytes
  orderly : Respects Orderly c.log

/-- `busy` says that the handler of a write is running, which has not taken the front off the list yet. -/
structure Inv (busy : Bool) (c : TcpConnection) : Prop extends Base c where
  oneWrite : c.writes.length ≤ 1
  front : ∀ w ∈ c.writes, (∃ rest, c.outputBuffer = w.bytes :: rest) ∧ (w.outcome = none ∨ w.outcome = some 0)
  empty : c.outputBuffer = [] ↔ c.writes = [] ∧ busy = false
  idle : busy = true → c.writes = []
  taken : accepted c.log = handed c.log ++ c.outputBuffer.tail

/-- The step leads to a state that meets the invariant. -/
def Keeps (busy : Bool) (r : Except Fault TcpConnection) : Prop := ∃ c, r = .ok c ∧ Inv busy c

section
variable {busy : Bool} {c : TcpConnection}

theorem Inv.keeps (h : Inv busy c) : Keeps busy (.ok c) := ⟨c, rfl, h⟩

/-! ### Events -/

theorem accepted_concat (log : List Event) (e : Event) : accepted (log ++ [e]) =
    accepted log ++ match e with | .sendInLoop msg true => [msg] | _ => [] := by
  rw [accepted, List.filterMap_append]
  congr 1
  cases e with
  | sendInLoop msg taken => cases taken <;> rfl
  | _ => rfl

theorem handed_concat (log : List Event) (e : Event) :
    handed (log ++ [e]) = handed log ++ match e with | .asyncWrite bytes => [bytes] | _ => [] := by
  rw [handed, List.filterMap_append]
  cases e <;> rfl

theorem completed_concat (log : List Event) (e : Event) :
    completed (log ++ [e]) = completed log ++ match e with | .writeComplete msg => [msg] | _ => [] := by
  rw [completed, List.filterMap_append]
  cases e <;> rfl

theorem mem_emit {e e' : Event} : e' ∈ (c.emit e).log ↔ e' ∈ c.log ∨ e' = e := by
  simp [emit]

/-- The event is neither a `ShutdownInLoop` nor a `cancel` nor a framework callback. -/
def Calm : Event → Prop
  | .shutdownInLoop => False
  | .cancel => False
  | .frameworkCallback _ _ => False
  | _ => True

/-- The event is, besides, none that the queue knows of. -/
def Plain : Event → Prop
  | .sendInLoop _ taken => taken = false
  | .close => True
  | .connectionCallback => True
  | .messageCallback _ => True
  | _ => False

theorem Plain.calm {e : Event} (h : Plain e) : Calm e := by
  cases e <;> first | exact h | trivial

theorem Calm.mem_shutdown {e : Event} (h : Calm e) : .shutdownInLoop ∈ (c.emit e).log ↔ .shutdownInLoop ∈ c.log := by
  rw [mem_emit, or_iff_left]
  rintro rfl
  exact h

theorem Calm.mem_cancel {e : Event} (h : Calm e) : .cancel ∈ (c.emit e).log ↔ .cancel ∈ c.log := by
  rw [mem_emit, or_iff_left]
  rintro rfl
  exact h

theorem Calm.mem_framework {e : Event} (h : Calm e) (ec : ErrorCode) (needed : Bool) :
    .frameworkCallback ec needed ∈ (c.emit e).log ↔ .frameworkCallback ec needed ∈ c.log := by
  rw [mem_emit, or_iff_left]
  rintro rfl
  exact h

/-- A calm event after which the writes agree with the log. -/
theorem Base.emit (h : Base c) (e : Event) (writes : List WriteOp) (made : Nat) (he : Calm e) (hok : Orderly c.log e)
    (hwritten : handed (c.emit e).log = completed (c.emit e).log ++ writes.map WriteOp.bytes) :
    Base ({ c with writes, made }.emit e) := by
  have hlog : ({ c with writes, made }.emit e).log = (c.emit e).log := rfl
  refine ⟨h.forceClose, h.noForceClose, ?_, ?_, ?_, fun r hr ec len ho hec => ?_, fun hd => ?_, fun hf ec needed => ?_, hwritten,
    respects_concat.mpr ⟨h.orderly, hok⟩⟩
  · rw [hlog, he.mem_shutdown]
    exact h.flag
  · rw [hlog, he.mem_shutdown]
    exact h.state
  · rw [hlog, he.mem_shutdown, he.mem_cancel]
    exact h.canceled
  · rw [hlog, he.mem_cancel]
    exact h.failed r hr ec len ho hec
  · rw [hlog, he.mem_cancel]
    exact h.destroyed hd
  · rw [hlog, he.mem_framework]
    exact h.framework hf ec needed

theorem Plain.log {e : Event} (he : Plain e) (log : List Event) :
    accepted (log ++ [e]) = accepted log ∧ handed (log ++ [e]) = handed log ∧
      completed (log ++ [e]) = completed log ∧ Orderly log e := by
  rw [accepted_concat, handed_concat, completed_concat]
  cases e with
  | sendInLoop msg taken =>
    cases he
    simp [Orderly]
  | close => simp [Orderly]
  | connectionCallback => simp [Orderly]
  | messageCallback input => simp [Orderly]
  | _ => exact he.elim

theorem Inv.emit (h : Inv busy c) (e : Event) (he : Plain e) : Inv busy (c.emit e) := by
  obtain ⟨haccepted, hhanded, hcompleted, hok⟩ := he.log c.log
  refine ⟨h.toBase.emit e c.writes c.made he.calm hok ?_, h.oneWrite, h.front, h.empty, h.idle, ?_⟩
  · exact (hhanded.trans h.written).trans (congrArg (· ++ _) hcompleted.symm)
  · exact (haccepted.trans h.taken).trans (congrArg (· ++ _) hhanded.symm)

/-! ### Writing -/

/-- `AsyncWrite` when no write is under way and nothing of the list has been handed over. -/
theorem asyncWrite_keeps (h : Base c) (hwrites : c.writes = []) (hbuffer : c.outputBuffer ≠ [])
    (haccepted : accepted c.log = handed c.log ++ c.outputBuffer) : Keeps false c.asyncWrite := by
  unfold asyncWrite
  split
  · rename_i hnil
    exact absurd hnil hbuffer
  · rename_i buffer rest hfront
    have hwritten : handed c.log = completed c.log := by simpa [hwrites] using h.written
    refine Inv.keeps ⟨h.emit (.asyncWrite buffer) _ _ trivial trivial ?_, ?_, ?_, ?_, nofun, ?_⟩
    · show handed (c.log ++ [_]) = completed (c.log ++ [_]) ++ _
      rw [handed_concat, completed_concat, hwritten, hwrites]
      simp
    · show (c.writes ++ [_]).length ≤ 1
      rw [hwrites]
      exact Nat.le_refl _
    · intro w hw
      have hw : w ∈ c.writes ++ [⟨c.made, buffer, none⟩] := hw
      rw [hwrites] at hw
      rw [List.mem_singleton.mp hw]
      exact ⟨⟨rest, hfront⟩, Or.inl rfl⟩
    · constructor
      · intro hnil
        exact absurd hnil hbuffer
      · rintro ⟨hnil, -⟩
        exact absurd hnil (List.append_ne_nil_of_right_ne_nil _ (List.cons_ne_nil _ _))
    · show accepted (c.log ++ [_]) = handed (c.log ++ [_]) ++ c.outputBuffer.tail
      rw [accepted_concat, handed_concat, haccepted, hfront]
      simp

/-- `cancel` after `ShutdownInLoop`, when everything is written. -/
theorem cancel_inv (h : Base c) (hwrites : c.writes = []) (hbuffer : c.outputBuffer = [])
    (haccepted : accepted c.log = handed c.log) (hshutdown : .shutdownInLoop ∈ c.log) : Inv false c.cancel := by
  have hwritten : handed c.log = completed c.log := by simpa [hwrites] using h.written
  have hcancel : .cancel ∈ c.cancel.log := mem_emit.mpr (Or.inr rfl)
  have hmem : .shutdownInLoop ∈ c.cancel.log := mem_emit.mpr (Or.inl hshutdown)
  have hnowrites : c.cancel.writes = [] := by
    show c.writes.map _ = []
    rw [hwrites, List.map_nil]
  have hlog : accepted c.cancel.log = accepted c.log ∧ handed c.cancel.log = handed c.log ∧
      completed c.cancel.log = completed c.log := by
    refine ⟨(accepted_concat ..).trans ?_, (handed_concat ..).trans ?_, (completed_concat ..).trans ?_⟩ <;>
      exact List.append_nil _
  obtain ⟨hacc, hhan, hcom⟩ := hlog
  have hbase : Base c.cancel := by
    refine ⟨h.forceClose, h.noForceClose, fun hs => h.flag (hs.imp_right fun _ => hshutdown), ?_, fun _ => ⟨hmem, hbuffer⟩,
      fun _ _ _ _ _ _ => hcancel, fun _ => hcancel, fun hf ec needed hmem => ?_, ?_, ?_⟩
    · rcases h.state with ⟨-, hnot⟩ | ⟨hstate, -⟩
      · exact absurd hshutdown hnot
      · exact Or.inr ⟨hstate, hmem⟩
    · rcases mem_emit.mp hmem with hmem | heq
      · exact h.framework hf ec needed hmem
      · cases heq
    · rw [hhan, hcom, hwritten, hnowrites, List.map_nil, List.append_nil]
    · exact respects_concat.mpr ⟨h.orderly, hshutdown, hwritten.symm.trans haccepted.symm⟩
  refine ⟨hbase, ?_, ?_, ?_, nofun, ?_⟩
  · rw [hnowrites]
    exact Nat.zero_le _
  · rw [hnowrites]
    exact nofun
  · exact ⟨fun _ => ⟨hnowrites, rfl⟩, fun _ => hbuffer⟩
  · show accepted c.cancel.log = handed c.cancel.log ++ c.outputBuffer.tail
    rw [hacc, hhan, haccepted, hbuffer]
    exact (List.append_nil _).symm

/-! ### Calls of the application -/

theorem sendInLoop_keeps (h : Inv busy c) (msg : Bytes) : Keeps busy (c.sendInLoop msg) := by
  unfold sendInLoop
  split
  · exact (h.emit (.sendInLoop msg false) rfl).keeps
  · rename_i hopen
    have hnot : .shutdownInLoop ∉ c.log := by
      rcases h.state with ⟨-, hnot⟩ | ⟨hstate, -⟩
      · exact hnot
      · exact absurd hstate hopen
    have hbase : Base ({ c with outputBuffer := c.outputBuffer ++ [msg] }.emit (.sendInLoop msg true)) := by
      have hb : Base { c with outputBuffer := c.outputBuffer ++ [msg] } :=
        { h.toBase with canceled := fun hc => absurd (h.canceled hc).1 hnot }
      refine hb.emit (.sendInLoop msg true) c.writes c.made trivial hnot ?_
      show handed (c.log ++ [_]) = completed (c.log ++ [_]) ++ _
      rw [handed_concat, completed_concat, List.append_nil, List.append_nil]
      exact h.written
    have haccepted : accepted (c.log ++ [.sendInLoop msg true]) = accepted c.log ++ [msg] := accepted_concat ..
    have hhanded : handed (c.log ++ [.sendInLoop msg true]) = handed c.log := (handed_concat ..).trans (List.append_nil _)
    dsimp only
    split
    · rename_i hwait
      have hnil : c.outputBuffer = [] := Classical.not_not.mp hwait
      obtain ⟨hwrites, rfl⟩ := h.empty.mp hnil
      refine asyncWrite_keeps hbase hwrites (by simp [emit]) ?_
      show accepted (c.log ++ [_]) = handed (c.log ++ [_]) ++ (c.outputBuffer ++ [msg])
      rw [haccepted, hhanded, h.taken, hnil]
      simp
    · rename_i hwait
      have hne : c.outputBuffer ≠ [] := Classical.not_not.mp hwait
      refine Inv.keeps ⟨hbase, h.oneWrite, fun w hw => ?_, ?_, h.idle, ?_⟩
      · obtain ⟨⟨rest, hrest⟩, houtcome⟩ := h.front w hw
        exact ⟨⟨rest ++ [msg], by simp [emit, hrest]⟩, houtcome⟩
      · constructor
        · intro hnil
          exact absurd (List.append_eq_nil_iff.mp hnil).1 hne
        · intro hnil
          exact absurd (h.empty.mpr hnil) hne
      · show accepted (c.log ++ [_]) = handed (c.log ++ [_]) ++ (c.outputBuffer ++ [msg]).tail
        rw [haccepted, hhanded, h.taken, List.tail_append_of_ne_nil hne, List.append_assoc]

/-- Posting a function other than those that force the end. -/
theorem Inv.runInLoop (h : Inv busy c) (f : Functor) (hforce : f ≠ .forceCloseInLoop)
    (hdestroy : f = .connectDestroy → .cancel ∈ c.log) (hshutdown : f = .shutdownInLoop → c.flag.optShutdown = true) :
    Inv busy (c.runInLoop f) := by
  refine { h with noForceClose := ?_, flag := ?_, destroyed := ?_ }
  · intro hmem
    rcases List.mem_append.mp hmem with hmem | hmem
    · exact h.noForceClose hmem
    · exact hforce (List.mem_singleton.mp hmem).symm
  · rintro (hmem | hmem)
    · rcases List.mem_append.mp hmem with hmem | hmem
      · exact h.flag (Or.inl hmem)
      · exact hshutdown (List.mem_singleton.mp hmem).symm
    · exact h.flag (Or.inr hmem)
  · rintro (hremovals | hmem | hclosed)
    · exact h.destroyed (Or.inl hremovals)
    · rcases List.mem_append.mp hmem with hmem | hmem
      · exact h.destroyed (Or.inr (Or.inl hmem))
      · exact hdestroy (List.mem_singleton.mp hmem).symm
    · exact h.destroyed (Or.inr (Or.inr hclosed))

theorem Inv.withFlag (h : Inv busy c) (flag : Flag) (hforce : flag.optForeceClose = false)
    (hshutdown : flag.optShutdown = true) : Inv busy { c with flag } :=
  { h with
    forceClose := hforce
    flag := fun _ => hshutdown }

theorem Inv.shutdown (h : Inv busy c) (callback : Bool) : Inv busy (c.shutdown callback) := by
  unfold TcpConnection.shutdown
  split
  · exact h
  · split
    · exact h
    · dsimp only
      split
      · exact (h.withFlag { c.flag with optShutdown := true, optDoNotMessageCallback := true } h.forceClose rfl).runInLoop
          .shutdownInLoop nofun nofun fun _ => rfl
      · exact (h.withFlag { c.flag with optShutdown := true } h.forceClose rfl).runInLoop .shutdownInLoop nofun nofun fun _ => rfl

theorem callInLoop_keeps (h : Inv busy c) (call : Call) (hcall : call ≠ .forceClose) : Keeps busy (c.callInLoop call) := by
  cases call with
  | send message => exact sendInLoop_keeps h message
  | shutdown callback => exact (h.shutdown callback).keeps
  | forceClose => exact absurd rfl hcall

theorem Inv.call (h : Inv busy c) {call : Call} (hcall : call ≠ .forceClose) : Inv busy (c.call call) := by
  cases call with
  | send message => exact h.runInLoop (.sendInLoop message) nofun nofun nofun
  | shutdown callback => exact h.shutdown callback
  | forceClose => exact absurd rfl hcall

/-- The calls of a callback. -/
theorem calls_keep (h : Inv busy c) {calls : List Call} (hcalls : .forceClose ∉ calls) : Keeps busy (run callInLoop c calls) := by
  induction calls generalizing c with
  | nil => exact h.keeps
  | cons call calls ih =>
    obtain ⟨d, hd, hinv⟩ := callInLoop_keeps h call fun heq => hcalls (heq ▸ List.mem_cons_self)
    rw [run_cons hd]
    exact ih hinv fun hmem => hcalls (List.mem_cons_of_mem _ hmem)

theorem shutdown_log (c : TcpConnection) (callback : Bool) : (c.shutdown callback).log = c.log := by
  unfold TcpConnection.shutdown
  split
  · rfl
  · split
    · rfl
    · dsimp only
      split <;> rfl

theorem forceClose_log (c : TcpConnection) : c.forceClose.log = c.log := by
  unfold forceClose
  split <;> rfl

theorem sendInLoop_log {d : TcpConnection} {msg : Bytes} (h : c.sendInLoop msg = .ok d) : c.log <+: d.log := by
  unfold sendInLoop at h
  dsimp only at h
  split at h
  · cases h
    exact List.prefix_append _ _
  · split at h
    · unfold asyncWrite at h
      split at h <;> cases h
      exact (List.prefix_append c.log [_]).trans (List.prefix_append _ _)
    · cases h
      exact List.prefix_append _ _

/-- Calls only add to the log. -/
theorem calls_log {calls : List Call} {d : TcpConnection} (h : run callInLoop c calls = .ok d) : c.log <+: d.log := by
  have hstep : ∀ {a b : TcpConnection} {call : Call}, c.log <+: a.log → True → a.callInLoop call = .ok b →
      c.log <+: b.log := by
    intro a b call hpre _ hs
    refine hpre.trans ?_
    cases call with
    | send message => exact sendInLoop_log hs
    | shutdown callback =>
      cases hs
      exact ⟨[], by rw [List.append_nil, shutdown_log]⟩
    | forceClose =>
      cases hs
      exact ⟨[], by rw [List.append_nil, forceClose_log]⟩
  exact run_invariant (I := fun d => c.log <+: d.log) hstep List.prefix_rfl (along_true _ _) h

/-! ### Handlers -/

/-- Reads and what they read. -/
theorem Inv.withReads (h : Inv busy c) {reads : List ReadOp} (inputFixedBuffer inputBuffer : Bytes) (made : Nat)
    (hfailed : ∀ r ∈ reads, ∀ ec len, r.outcome = some (ec, len) → ec ≠ 0 → .cancel ∈ c.log) :
    Inv busy { c with reads, inputFixedBuffer, inputBuffer, made } :=
  { h with failed := hfailed }

theorem Inv.asyncRead (h : Inv busy c) : Inv busy c.asyncRead := by
  refine h.withReads c.inputFixedBuffer c.inputBuffer (c.made + 1) fun r hr ec len ho hec => ?_
  rcases List.mem_append.mp hr with hr | hr
  · exact h.failed r hr ec len ho hec
  · rw [List.mem_singleton.mp hr] at ho
    cases ho

/-- `HandleError` after the `cancel`. -/
theorem handleError_keeps (h : Inv false c) (hcancel : .cancel ∈ c.log) {calls : List Call} (hcalls : .forceClose ∉ calls)
    (ec : ErrorCode) : Keeps false (c.handleError calls ec) := by
  obtain ⟨hshutdown, hbuffer⟩ := h.canceled hcancel
  have hstate : ¬(c.state ≠ .closed ∧ c.state ≠ .closeWait) := by
    rcases h.state with ⟨-, hnot⟩ | ⟨hstate | hstate, -⟩
    · exact absurd hshutdown hnot
    · exact fun hne => hne.2 hstate
    · exact fun hne => hne.1 hstate
  unfold handleError
  rw [if_neg hstate]
  dsimp only
  split
  · exact h.keeps
  · rename_i hhandled
    have hhandled : c.errorHandled = false := by simpa using hhandled
    have hinv : Inv false ({ c with errorHandled := true }.emit (.frameworkCallback ec c.needMessageCallback)) := by
      have hlog : accepted (c.log ++ [.frameworkCallback ec c.needMessageCallback]) = accepted c.log ∧
          handed (c.log ++ [.frameworkCallback ec c.needMessageCallback]) = handed c.log ∧
          completed (c.log ++ [.frameworkCallback ec c.needMessageCallback]) = completed c.log := by
        refine ⟨(accepted_concat ..).trans ?_, (handed_concat ..).trans ?_, (completed_concat ..).trans ?_⟩ <;>
          exact List.append_nil _
      obtain ⟨hacc, hhan, hcom⟩ := hlog
      have hmem : ∀ {e : Event}, e ∈ c.log → e ∈ c.log ++ [.frameworkCallback ec c.needMessageCallback] :=
        List.mem_append_left _
      refine ⟨⟨h.forceClose, h.noForceClose, fun _ => h.flag (Or.inr hshutdown), ?_, fun _ => ⟨hmem hshutdown, hbuffer⟩,
        fun _ _ _ _ _ _ => hmem hcancel, fun _ => hmem hcancel, nofun, ?_, ?_⟩, h.oneWrite, h.front, h.empty, h.idle, ?_⟩
      · rcases h.state with ⟨-, hnot⟩ | ⟨hstate, -⟩
        · exact absurd hshutdown hnot
        · exact Or.inr ⟨hstate, hmem hshutdown⟩
      · exact (hhan.trans h.written).trans (congrArg (· ++ _) hcom.symm)
      · exact respects_concat.mpr ⟨h.orderly, h.framework hhandled⟩
      · exact (hacc.trans h.taken).trans (congrArg (· ++ _) hhan.symm)
    have hcalls' : .forceClose ∉ if c.needMessageCallback then calls else [] := by
      split
      · exact hcalls
      · exact List.not_mem_nil
    obtain ⟨d, hd, hdinv⟩ := calls_keep hinv hcalls'
    have hdcancel : .cancel ∈ d.log := (calls_log hd).subset (mem_emit.mpr (Or.inl hcancel))
    rw [hd]
    exact Inv.keeps { hdinv with destroyed := fun _ => hdcancel }

theorem handleRead_keeps (h : Inv false c) {calls : List Call} (hcalls : .forceClose ∉ calls) (consumed : Nat) {ec : ErrorCode}
    (hec : ec ≠ 0 → .cancel ∈ c.log) (len : Nat) : Keeps false (c.handleRead calls consumed ec len) := by
  unfold handleRead
  split
  · rename_i hne
    exact handleError_keeps h (hec hne) hcalls ec
  · have hinv : ∀ input, Inv false { c with inputBuffer := input } := fun input =>
      h.withReads c.inputFixedBuffer input c.made h.failed
    dsimp only
    split
    · obtain ⟨d, hd, hdinv⟩ := calls_keep ((hinv (c.inputBuffer ++ c.inputFixedBuffer.take len)).emit
        (.messageCallback (c.inputBuffer ++ c.inputFixedBuffer.take len)) trivial) hcalls
      rw [hd]
      exact (hdinv.withReads d.inputFixedBuffer (d.inputBuffer.drop consumed) d.made hdinv.failed).asyncRead.keeps
    · exact (hinv []).asyncRead.keeps

/-- `HandleWrite` after the write-complete callback, with the list `rest` of what is left. -/
theorem writeNext_keeps (h : Inv true c) {front : Bytes} {rest : List Bytes} (hbuffer : c.outputBuffer = front :: rest) :
    Keeps false { c with outputBuffer := rest }.writeNext := by
  have hwrites := h.idle rfl
  have hnocancel : .cancel ∉ c.log := by
    intro hcancel
    have hnil := (h.canceled hcancel).2
    rw [hbuffer] at hnil
    cases hnil
  have haccepted : accepted c.log = handed c.log ++ rest := by rw [h.taken, hbuffer, List.tail_cons]
  have hbase : Base { c with outputBuffer := rest } :=
    { h.toBase with canceled := fun hcancel => absurd hcancel hnocancel }
  unfold writeNext
  dsimp only
  split
  · rename_i hclosed
    exact absurd (h.destroyed (Or.inr (Or.inr hclosed))) hnocancel
  · split
    · rename_i hwait
      have hshutdown : .shutdownInLoop ∈ c.log := by
        rcases h.state with ⟨hstate, -⟩ | ⟨-, hmem⟩
        · rw [hwait] at hstate
          cases hstate
        · exact hmem
      rw [h.forceClose, h.flag (Or.inr hshutdown)]
      simp only [Bool.false_eq_true, if_false, if_true]
      split
      · rename_i hnil
        exact (cancel_inv hbase hwrites hnil (by simpa [hnil] using haccepted) hshutdown).keeps
      · rename_i hne
        exact asyncWrite_keeps hbase hwrites hne haccepted
    · split
      · rename_i hne
        exact asyncWrite_keeps hbase hwrites hne haccepted
      · rename_i hnil
        have hnil : rest = [] := Classical.not_not.mp hnil
        subst hnil
        refine Inv.keeps ⟨hbase, ?_, ?_, ⟨fun _ => ⟨hwrites, rfl⟩, fun _ => rfl⟩, nofun, haccepted⟩
        · exact h.oneWrite
        · intro w hw
          have hw : w ∈ c.writes := hw
          rw [hwrites] at hw
          cases hw

/-- The handler of the only write, which has been taken out of the operations under way. -/
theorem handleWrite_keeps {w : WriteOp} {rest : List Bytes} (h : Inv false c) (hwrites : c.writes = [w])
    (hbuffer : c.outputBuffer = w.bytes :: rest) {calls : List Call} (hcalls : .forceClose ∉ calls) :
    Keeps false ({ c with writes := [] }.handleWrite calls 0) := by
  have hnocancel : .cancel ∉ c.log := by
    intro hcancel
    have hnil := (h.canceled hcancel).2
    rw [hbuffer] at hnil
    cases hnil
  have hinv : Inv true ({ c with writes := [], outputBuffer := [] :: rest }.emit (.writeComplete w.bytes)) := by
    have hbase : Base { c with outputBuffer := [] :: rest } :=
      { h.toBase with canceled := fun hcancel => absurd hcancel hnocancel }
    refine ⟨hbase.emit (.writeComplete w.bytes) [] c.made trivial trivial ?_, Nat.zero_le _, nofun,
      ⟨nofun, nofun⟩, fun _ => rfl, ?_⟩
    · show handed (c.log ++ [_]) = completed (c.log ++ [_]) ++ []
      rw [handed_concat, completed_concat, h.written, hwrites]
      simp
    · show accepted (c.log ++ [_]) = handed (c.log ++ [_]) ++ rest
      rw [accepted_concat, handed_concat, h.taken, hbuffer]
      simp
  obtain ⟨d, hd, hdinv⟩ := calls_keep hinv hcalls
  unfold handleWrite
  simp only [hbuffer, ne_eq, not_true_eq_false, if_false]
  rw [hd]
  dsimp only
  split
  · rename_i hnil
    have hbusy := (hdinv.empty.mp hnil).2
    cases hbusy
  · rename_i hcons
    exact writeNext_keeps hdinv hcons

/-! ### Functions that were posted -/

theorem Base.shutdownInLoop (h : Base c) (hflag : c.flag.optShutdown = true) (state : EState)
    (hstate : state = .closeWait ∨ state = .closed ∧ c.state = .closed) : Base { c.emit .shutdownInLoop with state } := by
  have hmem : .shutdownInLoop ∈ c.log ++ [.shutdownInLoop] := List.mem_append_right _ (List.mem_singleton_self _)
  have hcancel : .cancel ∈ c.log ++ [.shutdownInLoop] ↔ .cancel ∈ c.log := by simp
  refine ⟨h.forceClose, h.noForceClose, fun _ => hflag, ?_, fun hc => ⟨hmem, (h.canceled (hcancel.mp hc)).2⟩, ?_, ?_, ?_, ?_, ?_⟩
  · exact Or.inr ⟨hstate.imp_right And.left, hmem⟩
  · exact fun r hr ec len ho hec => hcancel.mpr (h.failed r hr ec len ho hec)
  · rintro (hremovals | hposted | hclosed)
    · exact hcancel.mpr (h.destroyed (Or.inl hremovals))
    · exact hcancel.mpr (h.destroyed (Or.inr (Or.inl hposted)))
    · rcases hstate with rfl | ⟨-, hclosed⟩
      · cases hclosed
      · exact hcancel.mpr (h.destroyed (Or.inr (Or.inr hclosed)))
  · intro hf ec needed hmem
    rcases List.mem_append.mp hmem with hmem | hmem
    · exact h.framework hf ec needed hmem
    · cases List.mem_singleton.mp hmem
  · show handed (c.log ++ [_]) = completed (c.log ++ [_]) ++ _
    rw [handed_concat, completed_concat, List.append_nil, List.append_nil]
    exact h.written
  · exact respects_concat.mpr ⟨h.orderly, trivial⟩

theorem Inv.shutdownInLoop (h : Inv false c) (hflag : c.flag.optShutdown = true) : Inv false c.shutdownInLoop := by
  have hlog : accepted (c.log ++ [.shutdownInLoop]) = accepted c.log ∧
      handed (c.log ++ [.shutdownInLoop]) = handed c.log :=
    ⟨(accepted_concat ..).trans (List.append_nil _), (handed_concat ..).trans (List.append_nil _)⟩
  obtain ⟨hacc, hhan⟩ := hlog
  have haccepted : accepted (c.log ++ [.shutdownInLoop]) = handed (c.log ++ [.shutdownInLoop]) ++ c.outputBuffer.tail := by
    rw [hacc, hhan]
    exact h.taken
  unfold TcpConnection.shutdownInLoop
  dsimp only
  split
  · rename_i hstate
    have hbase : Base (c.emit .shutdownInLoop) := by
      rcases hstate with hclosed | hwait
      · exact h.toBase.shutdownInLoop hflag c.state (Or.inr ⟨hclosed, hclosed⟩)
      · exact h.toBase.shutdownInLoop hflag c.state (Or.inl hwait)
    exact ⟨hbase, h.oneWrite, h.front, h.empty, h.idle, haccepted⟩
  · have hbase := h.toBase.shutdownInLoop hflag .closeWait (Or.inl rfl)
    split
    · rename_i hnil
      have hnil : c.outputBuffer = [] := hnil
      refine cancel_inv hbase (h.empty.mp hnil).1 hnil ?_ (mem_emit.mpr (Or.inr rfl))
      show accepted (c.log ++ [_]) = handed (c.log ++ [_])
      rw [haccepted, hnil]
      exact List.append_nil _
    · exact ⟨hbase, h.oneWrite, h.front, h.empty, h.idle, haccepted⟩

/-- The connection is destroyed after the `cancel`. -/
theorem Inv.connectDestroy (h : Inv false c) (hcancel : .cancel ∈ c.log) : Inv false c.connectDestroy := by
  obtain ⟨hshutdown, hbuffer⟩ := h.canceled hcancel
  have hwrites := (h.empty.mp hbuffer).1
  have hnowrites : (c.writes.map fun w => if w.outcome = none then { w with outcome := some operationAborted } else w) = [] := by
    rw [hwrites, List.map_nil]
  unfold TcpConnection.connectDestroy
  split
  · exact h
  · refine Inv.emit (c := { c with state := .closed }.abort) ?_ .close trivial
    refine { h with
      state := Or.inr ⟨Or.inr rfl, hshutdown⟩
      failed := fun _ _ _ _ _ _ => hcancel
      destroyed := fun _ => hcancel
      written := ?_
      oneWrite := ?_
      front := ?_
      empty := ?_
      idle := nofun }
    · show handed c.log = completed c.log ++ List.map _ (List.map _ c.writes)
      rw [hnowrites, h.written, hwrites]
    · show (List.map _ c.writes).length ≤ 1
      rw [hnowrites]
      exact Nat.zero_le _
    · intro w hw
      have hw : w ∈ List.map _ c.writes := hw
      rw [hnowrites] at hw
      cases hw
    · exact ⟨fun _ => ⟨hnowrites, rfl⟩, fun _ => hbuffer⟩

/-! ### Steps -/

/-- The step leads to a state that meets the invariant, or is not possible. -/
def Steps (r : Except Fault TcpConnection) : Prop := Keeps false r ∨ r = .error .disabled

theorem runPosted_steps (h : Inv false c) : Steps c.runPosted := by
  unfold runPosted
  split
  · exact Or.inr rfl
  · rename_i f posted hposted
    have hsub : ∀ {g : Functor}, g ∈ posted → g ∈ c.posted := fun hg => hposted ▸ List.mem_cons_of_mem _ hg
    have hf : f ∈ c.posted := hposted ▸ List.mem_cons_self
    have hinv : Inv false { c with posted } :=
      { h with
        noForceClose := fun hmem => h.noForceClose (hsub hmem)
        flag := fun hs => h.flag (hs.imp_left hsub)
        destroyed := fun hd => h.destroyed (hd.imp_right (Or.imp_left hsub)) }
    left
    dsimp only
    split
    · exact sendInLoop_keeps hinv _
    · exact (hinv.shutdownInLoop (h.flag (Or.inl hf))).keeps
    · exact absurd hf h.noForceClose
    · exact (hinv.connectDestroy (h.destroyed (Or.inr (Or.inl hf)))).keeps

theorem removeConnection_steps (h : Inv false c) : Steps c.removeConnection := by
  unfold removeConnection
  split
  · exact Or.inr rfl
  · rename_i removals hremovals
    have hcancel : .cancel ∈ c.log := h.destroyed (Or.inl (by rw [hremovals]; exact Nat.succ_ne_zero _))
    have hinv : Inv false { c with removals } :=
      { h with destroyed := fun _ => hcancel }
    exact Or.inl (hinv.runInLoop .connectDestroy nofun (fun _ => hcancel) nofun).keeps

theorem writeEnds_steps (h : Inv false c) (number : Nat) : Steps (c.writeEnds number 0) := by
  unfold writeEnds
  split
  · exact Or.inr rfl
  · split
    · left
      have hbytes : ∀ w : WriteOp, (if w.number = number then { w with outcome := some 0 } else w).bytes = w.bytes := by
        intro w
        split <;> rfl
      refine Inv.keeps { h with written := ?_, oneWrite := ?_, front := fun w hw => ?_, empty := ?_, idle := nofun }
      · show handed c.log = completed c.log ++ List.map _ (List.map _ c.writes)
        rw [List.map_map, h.written]
        congr 1
        exact List.map_congr_left fun w _ => (hbytes w).symm
      · show (List.map _ c.writes).length ≤ 1
        rw [List.length_map]
        exact h.oneWrite
      · obtain ⟨v, hv, rfl⟩ := List.mem_map.mp hw
        obtain ⟨hfront, houtcome⟩ := h.front v hv
        rw [hbytes]
        refine ⟨hfront, ?_⟩
        split
        · exact Or.inr rfl
        · exact houtcome
      · show c.outputBuffer = [] ↔ List.map _ c.writes = [] ∧ _
        rw [List.map_eq_nil_iff]
        exact h.empty
    · exact Or.inr rfl

theorem readEnds_steps (h : Inv false c) (number : Nat) (bytes : Bytes) : Steps (c.readEnds number 0 bytes) := by
  unfold readEnds
  split
  · exact Or.inr rfl
  · split
    · left
      refine (h.withReads (bytes ++ c.inputFixedBuffer.drop bytes.length) c.inputBuffer c.made fun r hr ec len ho hec => ?_).keeps
      obtain ⟨v, hv, rfl⟩ := List.mem_map.mp hr
      split at ho
      · cases ho
        exact absurd rfl hec
      · exact h.failed v hv ec len ho hec
    · exact Or.inr rfl

theorem runWrite_steps (h : Inv false c) (number : Nat) {calls : List Call} (hcalls : .forceClose ∉ calls) :
    Steps (c.runWrite calls number) := by
  unfold runWrite
  split
  · exact Or.inr rfl
  · rename_i w hfind
    split
    · exact Or.inr rfl
    · rename_i ec houtcome
      have hperm := perm_of_find? hfind
      have hw : w ∈ c.writes := List.mem_of_find?_eq_some hfind
      have hone : c.writes = [w] := by
        obtain ⟨v, hv⟩ := List.length_eq_one_iff.mp (Nat.le_antisymm h.oneWrite (List.length_pos_of_mem hw))
        rw [hv] at hw ⊢
        rw [List.mem_singleton.mp hw]
      have hnil : c.writes.eraseP (·.number == number) = [] := by
        have hlen := hperm.length_eq
        rw [hone] at hlen ⊢
        exact List.length_eq_zero_iff.mp (Nat.succ.inj hlen).symm
      obtain ⟨⟨rest, hbuffer⟩, hnone | hzero⟩ := h.front w hw
      · rw [houtcome] at hnone
        cases hnone
      · rw [houtcome] at hzero
        cases hzero
        rw [hnil]
        exact Or.inl (handleWrite_keeps h hone hbuffer hcalls)

theorem runRead_steps (h : Inv false c) (number consumed : Nat) {calls : List Call} (hcalls : .forceClose ∉ calls) :
    Steps (c.runRead calls consumed number) := by
  unfold runRead
  split
  · exact Or.inr rfl
  · rename_i r hfind
    split
    · exact Or.inr rfl
    · rename_i ec len houtcome
      have hr : r ∈ c.reads := List.mem_of_find?_eq_some hfind
      have hinv := h.withReads c.inputFixedBuffer c.inputBuffer c.made fun r' (hr' : r' ∈ c.reads.eraseP (·.number == number)) =>
        h.failed r' (List.mem_of_mem_eraseP hr')
      exact Or.inl (handleRead_keeps hinv hcalls consumed (h.failed r hr ec len houtcome) len)

theorem step_steps (h : Inv false c) {a : Action} (hclean : Clean c a) : Steps (step c a) := by
  cases a with
  | call call => exact Or.inl (h.call hclean).keeps
  | callInLoop call => exact Or.inl (callInLoop_keeps h call hclean)
  | runPosted => exact runPosted_steps h
  | removeConnection => exact removeConnection_steps h
  | writeEnds number ec =>
    cases hclean
    exact writeEnds_steps h number
  | runWrite number calls => exact runWrite_steps h number hclean
  | readEnds number ec bytes =>
    cases hclean
    exact readEnds_steps h number bytes
  | runRead number consumed calls => exact runRead_steps h number consumed hclean

end

/-! ### Runs -/

structure Graceful (c : TcpConnection) : Prop where
  oneWrite : c.writes.length ≤ 1
  inOrder : handed c.log <+: accepted c.log
  written : c.writes = [] → completed c.log = accepted c.log ∧ handed c.log = accepted c.log
  orderly : Respects Orderly c.log

theorem Inv.graceful {c : TcpConnection} (h : Inv false c) : Graceful c := by
  refine ⟨h.oneWrite, ⟨c.outputBuffer.tail, h.taken.symm⟩, fun hwrites => ?_, h.orderly⟩
  have hnil := h.empty.mpr ⟨hwrites, rfl⟩
  have hwritten : handed c.log = completed c.log := by simpa [hwrites] using h.written
  have haccepted : accepted c.log = handed c.log := by simpa [hnil] using h.taken
  exact ⟨hwritten.symm.trans haccepted.symm, haccepted.symm⟩

theorem established_inv {calls : List Call} (hcalls : .forceClose ∉ calls) : Keeps false (connectEstablised calls {}) := by
  have hinv : Inv false { state := .established } :=
    ⟨⟨rfl, nofun, by simp, Or.inl ⟨rfl, nofun⟩, nofun, nofun, by simp, nofun, rfl, respects_nil⟩, Nat.zero_le _, nofun, by simp,
      nofun, rfl⟩
  exact calls_keep (hinv.asyncRead.emit .connectionCallback trivial) hcalls

/-- From `ConnectEstablised` on, in whatever order calls are made and posted functions and handlers run, with no
    `ForceClose` and no error of the network: one write at most is under way, the messages written are those
    accepted, in this order, all of them when no write is under way and before the `cancel`, nothing is accepted
    after `ShutdownInLoop`, and the framework callback is called once at most. No handler uses the front of an
    empty list. -/
theorem graceful_run (calls : List Call) {c : TcpConnection} {as : List Action} (hcalls : .forceClose ∉ calls)
    (hstart : connectEstablised calls {} = .ok c) (hclean : Along step Clean c as) :
    (∀ e, run step c as = .error e → e = .disabled) ∧ ∀ d, run step c as = .ok d → Graceful d := by
  have hstep : ∀ {c : TcpConnection} {a d}, Inv false c → Clean c a → step c a = .ok d → Inv false d := by
    intro c a d h ha hs
    rcases step_steps h ha with ⟨d', heq, hd⟩ | heq
    · cases hs.symm.trans heq
      exact hd
    · cases hs.symm.trans heq
  obtain ⟨c', heq, hinv⟩ := established_inv hcalls
  cases hstart.symm.trans heq
  refine ⟨fun e h => ?_, fun d h => (run_invariant hstep hinv hclean h).graceful⟩
  refine run_error (E := (· = .disabled)) hstep (fun {c a e} h ha hs => ?_) hinv hclean h
  rcases step_steps h ha with ⟨d, heq, -⟩ | heq
  · cases hs.symm.trans heq
  · cases hs.symm.trans heq
    rfl

/-- A message is sent, `Shutdown` is called while it is being written, and the read ends with the `cancel`. -/
theorem graceful_run_one :
    let c : TcpConnection := { state := .established, reads := [⟨0, none⟩], made := 1, log := [.connectionCallback] }
    let as := [.callInLoop (.send [7]), .callInLoop (.shutdown false), .runPosted, .writeEnds 1 0, .runWrite 1 [], .runRead 0 0 []]
    (∀ e, run step c as = .error e → e = .disabled) ∧ ∀ d, run step c as = .ok d → Graceful d := by
  refine graceful_run [] List.not_mem_nil rfl ?_
  exact ⟨nofun, fun _ _ => ⟨nofun, fun _ _ => ⟨trivial, fun _ _ => ⟨rfl, fun _ _ => ⟨List.not_mem_nil, fun _ _ =>
    ⟨List.not_mem_nil, fun _ _ => trivial⟩⟩⟩⟩⟩⟩

end Zylib.ZySoft.Net.TcpConnection
