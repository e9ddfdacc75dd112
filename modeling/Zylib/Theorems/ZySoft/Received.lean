import Zylib.Theorems.ZySoft.WriteQueue

/-! `OnReceivedMessage` after `OnClosed`. The handler of a read that has ended with success decodes what was
    read, whether the channel is still open or not. -/

namespace Zylib.ZySoft.ChannelState
open Run Log

/-- `OnReceivedMessage` is called only while the channel is open. -/
def ReceivedOpen (log : List ChannelEvent) (e : ChannelEvent) : Prop :=
  ∀ msgs, e = .onReceivedMessage msgs → openAt log = true

section
variable (decode : FlatBuffer → List Message × FlatBuffer)

/-- What the handler of a successful read of `readLength` bytes decodes. -/
def decoded (c : ChannelState) (readLength : Nat) : List Message :=
  (decode (c.readBuffer.append (some c.readFixedBuffer) readLength)).1

/-- If the handler of a read that has ended with success runs after the close, there is no message in what
    was read. -/
def ReadStep (c : ChannelState) (a : Action) : Prop :=
  ∀ number r readLength, a = .runRead number → c.reads.find? (·.number == number) = some r →
    r.outcome = some (0, readLength) → c.opened = false → c.decoded decode readLength = []

end

/-! ### The events of a step -/

/-- The step adds events to the log, of which none is `OnReceivedMessage`. -/
def Quiet (c d : ChannelState) : Prop := ∃ es, d.log = c.log ++ es ∧ ∀ msgs, .onReceivedMessage msgs ∉ es

section
variable {c d e : ChannelState}

theorem Quiet.of_eq (h : d.log = c.log) : Quiet c d := ⟨[], by simp [h], by simp⟩

theorem Quiet.trans (h : Quiet c d) (h' : Quiet d e) : Quiet c e := by
  obtain ⟨es, hes, hnot⟩ := h
  obtain ⟨es', hes', hnot'⟩ := h'
  refine ⟨es ++ es', by rw [hes', hes, List.append_assoc], fun msgs hmem => ?_⟩
  rcases List.mem_append.mp hmem with hmem | hmem
  · exact hnot msgs hmem
  · exact hnot' msgs hmem

theorem Quiet.of_log (h : Quiet c d) (hlog : c.log = e.log) : Quiet e d := (Quiet.of_eq hlog).trans h

theorem quiet_emit (c : ChannelState) (e : ChannelEvent) (he : ∀ msgs, .onReceivedMessage msgs ≠ e) : Quiet c (c.emit e) :=
  ⟨[e], rfl, fun msgs hmem => he msgs (List.mem_singleton.mp hmem)⟩

/-- Such a step keeps the order of the calls. -/
theorem Quiet.received (h : Quiet c d) : Respects ReceivedOpen d.log ↔ Respects ReceivedOpen c.log := by
  obtain ⟨es, hes, hnot⟩ := h
  rw [hes, respects_append]
  refine and_iff_left fun pre e hpre msgs he => absurd ?_ (hnot msgs)
  exact he ▸ hpre.subset (List.mem_append_right _ (List.mem_singleton_self _))

theorem doClosed_quiet {type : CloseType} (h : c.doClosed type = .ok d) : Quiet c d := by
  unfold doClosed at h
  split at h
  · split at h
    · cases h
    · cases h
      exact quiet_emit { c with opened := false, closed := _ } (.onClosed type) (by simp)
  · cases h
    exact Quiet.of_eq rfl

theorem doRead_log (h : c.doRead = .ok d) : d.log = c.log := by
  obtain ⟨timers, made, htimer⟩ := createTimer_eq c c.opt.readTimeoutSeconds true
  unfold doRead at h
  simp only [htimer] at h
  split at h
  · cases h
  · cases h
    rfl

theorem doWrite_log (h : c.doWrite = .ok d) : d.log = c.log := by
  obtain ⟨timers, made, htimer⟩ := createTimer_eq c c.opt.writeTimeoutSeconds false
  unfold doWrite at h
  simp only [htimer] at h
  split at h
  · cases h
  · split at h
    · cases h
    · cases h
      rfl

theorem init_quiet (h : c.init = .ok d) : Quiet c d :=
  (quiet_emit { c with opened := true, socket := some c.made, made := c.made + 1 } .init (by simp)).trans (Quiet.of_eq (doRead_log h))

theorem sendHandler_log {msg : Message} (h : c.sendHandler msg = .ok d) : d.log = c.log := by
  unfold sendHandler at h
  dsimp only at h
  split at h
  · exact (doWrite_log h).trans rfl
  · cases h
    rfl

theorem runPosted_quiet (h : c.runPosted = .ok d) : Quiet c d := by
  unfold runPosted at h
  split at h
  · cases h
  · exact Quiet.of_eq ((sendHandler_log h).trans rfl)
  · exact (doClosed_quiet h).of_log rfl

theorem writeHandler_quiet {timer : Option Nat} {ec : ErrorCode} {length : Nat} (h : c.writeHandler timer ec length = .ok d) :
    Quiet c d := by
  unfold writeHandler at h
  dsimp only at h
  split at h
  · cases h
  · rename_i front rest _
    have hemit : ∀ buffer, Quiet c ({ c.timerCancel timer with writeBuffer := buffer }.emit (.onWrite ec length front.msg)) :=
      fun buffer => (quiet_emit { c.timerCancel timer with writeBuffer := buffer } (.onWrite ec length front.msg) (by simp)).of_log rfl
    split at h
    · exact (hemit _).trans (doClosed_quiet h)
    · split at h
      · exact (hemit rest).trans (Quiet.of_eq (doWrite_log h))
      · cases h
        exact hemit rest

theorem runWrite_quiet {number : Nat} (h : c.runWrite number = .ok d) : Quiet c d := by
  unfold runWrite at h
  split at h
  · cases h
  · split at h
    · cases h
    · exact (writeHandler_quiet h).of_log rfl

theorem runTimer_quiet {number : Nat} (h : c.runTimer number = .ok d) : Quiet c d := by
  unfold runTimer at h
  split at h
  · cases h
  · dsimp only at h
    split at h
    · cases h
    · cases h
      exact Quiet.of_eq rfl
    · exact (doClosed_quiet h).of_log rfl

/-- The end of an operation or of a timer calls nothing. -/
theorem ends_log {number : Nat} :
    (∀ ec length, c.writeEnds number ec length = .ok d → d.log = c.log) ∧
    (∀ ec bytes, c.readEnds number ec bytes = .ok d → d.log = c.log) ∧
    (c.timerExpires number = .ok d → d.log = c.log) := by
  refine ⟨fun ec length h => ?_, fun ec bytes h => ?_, fun h => ?_⟩
  · unfold writeEnds at h
    split at h
    · cases h
    · split at h <;> cases h
      rfl
  · unfold readEnds at h
    split at h
    · cases h
    · split at h <;> cases h
      rfl
  · unfold timerExpires at h
    split at h
    · cases h
    · split at h <;> cases h
      rfl

/-! ### The handler of a read -/

variable {decode : FlatBuffer → List Message × FlatBuffer}

theorem tryDecode_log (c : ChannelState) :
    (c.tryDecode decode).log =
      c.log ++ if (decode c.readBuffer).1 = [] then [] else [.onReceivedMessage (decode c.readBuffer).1] := by
  unfold tryDecode
  dsimp only
  split
  · exact (List.append_nil _).symm
  · rfl

/-- The handler of a read that has failed decodes nothing. -/
theorem readHandler_error {timer : Option Nat} {ec : ErrorCode} {length : Nat} (hec : ec ≠ 0)
    (h : c.readHandler decode timer ec length = .ok d) : Quiet c d := by
  unfold readHandler at h
  simp only [hec, ne_eq, not_false_eq_true, if_true] at h
  exact ((quiet_emit (c.timerCancel timer) (.onRead ec length) (by simp)).trans (doClosed_quiet h)).of_log rfl

theorem readHandler_success {timer : Option Nat} {length : Nat} (h : c.readHandler decode timer 0 length = .ok d) :
    d.log = (c.log ++ [.onRead 0 length]) ++
      if c.decoded decode length = [] then [] else [.onReceivedMessage (c.decoded decode length)] := by
  unfold readHandler at h
  simp only [ne_eq, not_true_eq_false, if_false] at h
  rw [doRead_log h, tryDecode_log]
  rfl

/-- The channel is open when the handler calls `OnReceivedMessage`, or there is nothing to call it with. -/
theorem readHandler_received (hinv : Inv c) {timer : Option Nat} {length : Nat}
    (h : c.readHandler decode timer 0 length = .ok d) :
    Respects ReceivedOpen d.log ↔ Respects ReceivedOpen c.log ∧ (c.opened = false → c.decoded decode length = []) := by
  have honRead : Respects ReceivedOpen (c.log ++ [.onRead 0 length]) ↔ Respects ReceivedOpen c.log :=
    (quiet_emit c (.onRead 0 length) (by simp)).received
  have hopen : openAt (c.log ++ [.onRead 0 length]) = c.opened := (openAt_concat _ _).trans hinv.openAt
  rw [readHandler_success h]
  by_cases hout : c.decoded decode length = []
  · rw [if_pos hout, List.append_nil, honRead]
    exact (and_iff_left fun _ => hout).symm
  · rw [if_neg hout, respects_concat, honRead]
    refine and_congr_right fun _ => ⟨fun hok hclosed => ?_, fun hok msgs _ => ?_⟩
    · rw [← hopen, hok _ rfl] at hclosed
      cases hclosed
    · rw [hopen]
      exact Bool.not_eq_false _ |>.mp fun hclosed => hout (hok hclosed)

theorem runRead_received (hinv : Inv c) {number : Nat} (h : c.runRead decode number = .ok d) :
    Respects ReceivedOpen d.log ↔ Respects ReceivedOpen c.log ∧ ReadStep decode c (.runRead number) := by
  unfold runRead at h
  split at h
  · cases h
  · rename_i r hfind
    split at h
    · cases h
    · rename_i ec length houtcome
      have hs := hinv.socket_ne (Or.inr (Or.inr (Lists.ne_nil_of_find? hfind)))
      have hinv' : Inv { c with reads := c.reads.eraseP (·.number == number) } :=
        ⟨⟨fun hs' => absurd hs' hs, hinv.log, hinv.openAt⟩, hinv.writing, hinv.sent⟩
      have hstep : ∀ n r' l, Action.runRead number = .runRead n → c.reads.find? (·.number == n) = some r' →
          r'.outcome = some (0, l) → ec = 0 ∧ l = length := by
        intro n r' l ha hfind' houtcome'
        cases ha
        cases hfind.symm.trans hfind'
        cases houtcome.symm.trans houtcome'
        exact ⟨rfl, rfl⟩
      by_cases hec : ec = 0
      · subst hec
        rw [readHandler_received hinv' h]
        refine and_congr_right fun _ => ⟨fun hok n r' l ha hfind' houtcome' => ?_, fun hok => ?_⟩
        · rw [(hstep n r' l ha hfind' houtcome').2]
          exact hok
        · exact hok number r length rfl hfind houtcome
      · refine (readHandler_error hec h).received.trans (and_iff_left ?_).symm
        intro n r' l ha hfind' houtcome'
        exact absurd (hstep n r' l ha hfind' houtcome').1 hec

/-! ### Steps and runs -/

theorem step_received {a : Action} (hinv : Inv c) (h : step decode c a = .ok d) :
    Respects ReceivedOpen d.log ↔ Respects ReceivedOpen c.log ∧ ReadStep decode c a := by
  have quiet : (∀ number, a ≠ .runRead number) → Quiet c d →
      (Respects ReceivedOpen d.log ↔ Respects ReceivedOpen c.log ∧ ReadStep decode c a) := fun ha hquiet =>
    hquiet.received.trans (and_iff_left fun number _ _ heq => absurd heq (ha number)).symm
  cases a with
  | init => exact quiet (by simp) (init_quiet h)
  | sendMsg msg =>
    cases h
    refine quiet (by simp) (Quiet.of_eq ?_)
    unfold sendMsg
    split <;> rfl
  | shutdown =>
    cases h
    refine quiet (by simp) (Quiet.of_eq ?_)
    unfold shutdown
    split <;> rfl
  | runPosted => exact quiet (by simp) (runPosted_quiet h)
  | writeEnds number ec length => exact quiet (by simp) (Quiet.of_eq (ends_log.1 ec length h))
  | runWrite number => exact quiet (by simp) (runWrite_quiet h)
  | readEnds number ec bytes => exact quiet (by simp) (Quiet.of_eq (ends_log.2.1 ec bytes h))
  | runRead number => exact runRead_received hinv h
  | timerExpires number => exact quiet (by simp) (Quiet.of_eq (ends_log.2.2 h))
  | runTimer number => exact quiet (by simp) (runTimer_quiet h)

end

/-- No `OnReceivedMessage` is called after `OnClosed` if and only if no handler of a successful read that runs
    after the close finds a message. -/
theorem received_iff (opt : ChannelOption) (decode : FlatBuffer → List Message × FlatBuffer) (as : List Action)
    {c : ChannelState} (h : run (step decode) { opt } as = .ok c) :
    Respects ReceivedOpen c.log ↔ Along (step decode) (ReadStep decode) { opt } as :=
  (run_iff_along Inv.step step_received (inv_start opt) h).trans (and_iff_right respects_nil)

/-- A decoder of frames of one byte. -/
def byteDecoder (b : FlatBuffer) : List Message × FlatBuffer := (b.buffer.map fun x => ⟨⟨[x]⟩⟩, ⟨[]⟩)

/-- A byte that is read and decoded before `Shutdown`. -/
theorem received_iff_read :
    let as := [.init, .readEnds 1 0 [7], .runRead 1, .shutdown, .runPosted]
    let c : ChannelState :=
      { opt := {}, socket := some 0, readFixedBuffer := [7], closed := [0], reads := [⟨2, 0, none, none⟩], made := 3
        log := [.init, .onRead 0 1, .onReceivedMessage [⟨⟨[7]⟩⟩], .onClosed .active] }
    Respects ReceivedOpen c.log ↔ Along (step byteDecoder) (ReadStep byteDecoder) { opt := {} } as :=
  received_iff {} byteDecoder _ (by rfl)

/-- A byte that was read before `Shutdown`, and whose handler runs after it. -/
theorem received_after_closed : ¬∀ (opt : ChannelOption) (decode : FlatBuffer → List Message × FlatBuffer) (as : List Action)
    (c : ChannelState), run (step decode) { opt } as = .ok c → Respects ReceivedOpen c.log := by
  intro h
  have hrespects := h {} byteDecoder [.init, .shutdown, .readEnds 1 0 [7], .runPosted, .runRead 1] _ rfl
  have hopen := hrespects [.init, .onClosed .active, .onRead 0 1] (.onReceivedMessage [⟨⟨[7]⟩⟩]) List.prefix_rfl _ rfl
  cases hopen

end Zylib.ZySoft.ChannelState
