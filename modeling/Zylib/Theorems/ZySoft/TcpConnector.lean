import Zylib.ZySoft.TcpConnector
import Zylib.Theorems.ZySoft.Received

/-! What `SyncConnectWaitFor` returns against the channel. They agree if and only if the caller does not overtake the io
    thread between `set_value` and `Init`, and the io thread does not call `Init` after the time was over. -/

namespace Zylib.ZySoft

/-! ### Init of a channel -/

namespace ChannelState
open Log

variable {c d : ChannelState} {decode : FlatBuffer → List Message × FlatBuffer}

theorem init_mem_emit (c : ChannelState) {e : ChannelEvent} (he : e ≠ .init) : .init ∈ (c.emit e).log ↔ .init ∈ c.log := by
  simp only [emit, List.mem_append, List.mem_singleton]
  exact ⟨fun h => h.resolve_right fun h => he h.symm, .inl⟩

theorem init_mem_doClosed {type : CloseType} (h : c.doClosed type = .ok d) : .init ∈ d.log ↔ .init ∈ c.log := by
  unfold doClosed at h
  split at h
  · split at h
    · cases h
    · cases h
      exact init_mem_emit { c with opened := false, closed := _ } (e := .onClosed type) (fun h => (by cases h))
  · cases h
    rfl

theorem init_mem_runPosted (h : c.runPosted = .ok d) : .init ∈ d.log ↔ .init ∈ c.log := by
  unfold runPosted at h
  split at h
  · cases h
  · rw [sendHandler_log h]
  · exact (init_mem_doClosed h).trans Iff.rfl

theorem init_mem_writeHandler {timer : Option Nat} {ec : ErrorCode} {length : Nat}
    (h : c.writeHandler timer ec length = .ok d) : .init ∈ d.log ↔ .init ∈ c.log := by
  unfold writeHandler at h
  dsimp only at h
  split at h
  · cases h
  · rename_i front rest _
    have hemit : ∀ buffer,
        .init ∈ ({ c.timerCancel timer with writeBuffer := buffer }.emit (.onWrite ec length front.msg)).log ↔
          .init ∈ c.log :=
      fun buffer => init_mem_emit _ (fun h => (by cases h))
    split at h
    · exact (init_mem_doClosed h).trans (hemit _)
    · split at h
      · rw [doWrite_log h]
        exact hemit rest
      · cases h
        exact hemit rest

theorem init_mem_runWrite {number : Nat} (h : c.runWrite number = .ok d) : .init ∈ d.log ↔ .init ∈ c.log := by
  unfold runWrite at h
  split at h
  · cases h
  · split at h
    · cases h
    · exact (init_mem_writeHandler h).trans Iff.rfl

theorem init_mem_tryDecode (c : ChannelState) : .init ∈ (c.tryDecode decode).log ↔ .init ∈ c.log := by
  rw [tryDecode_log]
  split <;> simp

theorem init_mem_readHandler {timer : Option Nat} {ec : ErrorCode} {length : Nat}
    (h : c.readHandler decode timer ec length = .ok d) : .init ∈ d.log ↔ .init ∈ c.log := by
  unfold readHandler at h
  dsimp only at h
  have hemit : ∀ c : ChannelState, .init ∈ (c.emit (.onRead ec length)).log ↔ .init ∈ c.log :=
    fun c => init_mem_emit c (fun h => (by cases h))
  split at h
  · exact (init_mem_doClosed h).trans (hemit _)
  · rw [doRead_log h, init_mem_tryDecode]
    exact hemit _

theorem init_mem_runRead {number : Nat} (h : c.runRead decode number = .ok d) : .init ∈ d.log ↔ .init ∈ c.log := by
  unfold runRead at h
  split at h
  · cases h
  · split at h
    · cases h
    · exact (init_mem_readHandler h).trans Iff.rfl

theorem init_mem_runTimer {number : Nat} (h : c.runTimer number = .ok d) : .init ∈ d.log ↔ .init ∈ c.log := by
  unfold runTimer at h
  split at h
  · cases h
  · dsimp only at h
    split at h
    · cases h
    · cases h
      rfl
    · exact (init_mem_doClosed h).trans Iff.rfl

/-- Only `Init` adds an `Init` to the log. -/
theorem init_mem_step {a : Action} (ha : a ≠ .init) (h : step decode c a = .ok d) : .init ∈ d.log ↔ .init ∈ c.log := by
  cases a with
  | init => exact absurd rfl ha
  | sendMsg msg =>
    cases h
    unfold sendMsg
    split <;> rfl
  | shutdown =>
    cases h
    unfold shutdown
    split <;> rfl
  | runPosted => exact init_mem_runPosted h
  | writeEnds number ec length => rw [ends_log.1 ec length h]
  | runWrite number => exact init_mem_runWrite h
  | readEnds number ec bytes => rw [ends_log.2.1 ec bytes h]
  | runRead number => exact init_mem_runRead h
  | timerExpires number => rw [ends_log.2.2 h]
  | runTimer number => exact init_mem_runTimer h

theorem init_mem_init (h : c.init = .ok d) : .init ∈ d.log := by
  rw [doRead_log h]
  exact List.mem_append_right _ (List.mem_singleton_self _)

/-! ### Open and closed -/

theorem openAt_eq_false {log : List ChannelEvent} (h : .init ∉ log) : openAt log = false := by
  rw [← Bool.not_eq_true]
  intro hopen
  have hopen : openAt ([] ++ log) = true := hopen
  exact absurd (openAt_append h hopen) (by decide)

theorem openAt_of_init {log : List ChannelEvent} (hinit : .init ∈ log) (hclosed : ∀ type, .onClosed type ∉ log) :
    openAt log = true := by
  induction log using List.reverseRecOn with
  | nil => cases hinit
  | append_singleton log e ih =>
    rw [openAt_concat]
    cases e with
    | init => rfl
    | onClosed type => exact absurd (List.mem_append_right _ (List.mem_singleton_self _)) (hclosed type)
    | _ =>
      refine ih ?_ fun type h => hclosed type (List.mem_append_left _ h)
      exact (List.mem_append.mp hinit).resolve_right fun h => by cases List.mem_singleton.mp h

/-- A channel is open or was closed if and only if it was opened. -/
theorem Inv.opened_or_closed (hI : Inv c) : (c.opened = true ∨ ∃ type, .onClosed type ∈ c.log) ↔ .init ∈ c.log := by
  rw [← hI.openAt]
  constructor
  · rintro (hopen | ⟨type, hclosed⟩)
    · by_contra hinit
      rw [openAt_eq_false hinit] at hopen
      cases hopen
    · obtain ⟨pre, post, hlog⟩ := List.append_of_mem hclosed
      have hpre : openAt pre = true := hI.log pre _ ⟨post, by rw [hlog]; simp⟩ type rfl
      by_contra hinit
      rw [hlog] at hinit
      rw [openAt_eq_false fun h => hinit (List.mem_append_left _ h)] at hpre
      cases hpre
  · intro hinit
    by_contra hnot
    rw [not_or, not_exists] at hnot
    exact hnot.1 (openAt_of_init hinit hnot.2)

end ChannelState

/-! ### The connector -/

namespace TcpConnector
open Run

/-- What is returned against the channel: it is open, or was closed in between; or it is not open, and is not opened. -/
def Agrees (s : TcpConnector) : Prop :=
  match s.caller with
  | .returned true channel => channel.opened = true ∨ ∃ type, .onClosed type ∈ channel.log
  | .returned false channel => channel.opened = false ∧ .init ∉ s.channel.log
  | _ => True

/-- Whether the caller has returned without the value 0. -/
def gaveUp (s : TcpConnector) : Bool :=
  match s.caller with
  | .returned false _ => true
  | _ => false

/-- The caller returns with the value 0 only after `Init`, and after the time is over only before it; and once it has
    returned without the value 0, there is no `Init`. -/
def Timely (s : TcpConnector) : Action → Prop
  | .returns =>
    match s.caller with
    | .ready value => value = 0 → .init ∈ s.channel.log
    | .timeout => .init ∉ s.channel.log
    | _ => True
  | .initChannel => s.gaveUp = false
  | _ => True

instance (s : TcpConnector) : DecidablePred s.Timely := by
  intro a
  unfold Timely
  split
  · split <;> infer_instance
  · infer_instance
  · exact .isTrue trivial

structure Inv (s : TcpConnector) : Prop where
  channel : ChannelState.Inv s.channel
  pending : ∀ {ec : ErrorCode}, s.handler = .pending ∨ s.handler = .running ec → s.promise = none
  valueSet : s.handler = .valueSet → s.promise = some 0
  init : .init ∈ s.channel.log ↔ s.handler = .done ∧ s.promise = some 0
  ready : ∀ {value : ErrorCode}, s.caller = .ready value → s.promise = some value

variable {decode : FlatBuffer → List Message × FlatBuffer} {s t : TcpConnector}

theorem inv_init (opt : ChannelOption) : Inv { channel := { opt } } where
  channel := ChannelState.inv_start opt
  pending := fun _ => rfl
  valueSet := fun h => (by cases h)
  init := ⟨fun h => (by cases h), fun h => (by cases h.1)⟩
  ready := fun h => (by cases h)

/-! ### Steps -/

theorem completes_spec {ec : ErrorCode} (hI : Inv s) (h : s.completes ec = .ok t) : Inv t ∧ (t.Agrees ↔ s.Agrees) := by
  unfold completes at h
  split at h
  · rename_i hpending
    cases h
    have hpromise : s.promise = none := hI.pending (.inl hpending : s.handler = .pending ∨ s.handler = .running ec)
    refine ⟨{ hI with pending := fun _ => hpromise, valueSet := fun h => (by cases h), init := ?_, ready := hI.ready }, Iff.rfl⟩
    rw [hI.init, hpending]
    exact ⟨fun h => (by cases h.1), fun h => (by cases h.1)⟩
  · cases h

theorem setValue_spec (hI : Inv s) (h : s.setValue = .ok t) : Inv t ∧ (t.Agrees ↔ s.Agrees) := by
  unfold setValue at h
  split at h
  · rename_i ec hrunning
    cases h
    have hpromise : s.promise = none := hI.pending (.inr hrunning)
    have hready : ∀ {value : ErrorCode}, s.caller ≠ .ready value := fun h => by cases hpromise.symm.trans (hI.ready h)
    refine ⟨{ hI with
      pending := ?_, valueSet := ?_, init := ?_, ready := fun h => absurd h hready }, Iff.rfl⟩
    · intro ec' h
      split at h <;> cases h <;> rename_i h <;> cases h
    · intro h
      split at h
      · rename_i h0
        rw [h0]
      · cases h
    · rw [hI.init, hrunning]
      refine ⟨fun h => (by cases h.1), fun h => ?_⟩
      split at h
      · cases h.1
      · cases h.2
        contradiction
  · cases h

/-- `Init`, which after the call has returned without the value 0 breaks what it returned. -/
theorem initChannel_spec (hI : Inv s) (h : s.initChannel = .ok t) :
    Inv t ∧ (t.Agrees ↔ s.Agrees ∧ s.Timely .initChannel) := by
  unfold initChannel at h
  split at h
  · rename_i hvalue
    split at h
    · rename_i channel hinit
      cases h
      have hmem := ChannelState.init_mem_init hinit
      have hchannel : ChannelState.Inv channel := ChannelState.Keeps.inv (hinit ▸ ChannelState.init_keeps hI.channel)
      refine ⟨⟨hchannel, fun h => ?_, fun h => (by cases h), ?_, hI.ready⟩, ?_⟩
      · rcases h with h | h <;> cases h
      · exact iff_of_true hmem ⟨rfl, hI.valueSet hvalue⟩
      · cases hcaller : s.caller with
        | returned result _ => cases result <;> simp [Agrees, Timely, gaveUp, hcaller, hmem]
        | _ => simp [Agrees, Timely, gaveUp, hcaller]
    · cases h
  · cases h

theorem wakes_spec (hI : Inv s) (h : s.wakes = .ok t) : Inv t ∧ (t.Agrees ↔ s.Agrees) := by
  unfold wakes at h
  split at h
  · rename_i value hwaiting hpromise
    cases h
    refine ⟨{ hI with pending := hI.pending, ready := fun h => by cases h; exact hpromise }, ?_⟩
    simp [Agrees, hwaiting]
  · rename_i hwaiting hpromise
    cases h
    refine ⟨{ hI with pending := hI.pending, ready := fun h => (by cases h) }, ?_⟩
    simp [Agrees, hwaiting]
  · cases h

/-- The channel when the call returns. -/
theorem returns_spec (hI : Inv s) (h : s.returns = .ok t) : Inv t ∧ (t.Agrees ↔ s.Agrees ∧ s.Timely .returns) := by
  have hclosed : .init ∉ s.channel.log → s.channel.opened = false := fun h =>
    hI.channel.openAt ▸ ChannelState.openAt_eq_false h
  unfold returns at h
  split at h
  · rename_i value hready
    cases h
    refine ⟨{ hI with pending := hI.pending, ready := fun h => (by cases h) }, ?_⟩
    by_cases h0 : value = 0
    · simp only [Agrees, Timely, hready, h0, decide_true, true_and, forall_const]
      exact hI.channel.opened_or_closed
    · have hinit : .init ∉ s.channel.log := fun h => by
        exact h0 (Option.some.inj ((hI.ready hready).symm.trans (hI.init.mp h).2))
      simp [Agrees, Timely, hready, h0, hinit, hclosed hinit]
  · rename_i htimeout
    cases h
    refine ⟨{ hI with pending := hI.pending, ready := fun h => (by cases h) }, ?_⟩
    simp only [Agrees, Timely, htimeout, true_and]
    exact ⟨And.right, fun h => ⟨hclosed h, h⟩⟩
  · cases h

theorem channelStep_spec {a : ChannelState.Action} (hI : Inv s) (h : s.channelStep decode a = .ok t) :
    Inv t ∧ (t.Agrees ↔ s.Agrees) := by
  unfold channelStep at h
  split_ifs at h with hallowed
  · split at h
    · rename_i channel hstep
      cases h
      have hne : a ≠ .init := by
        rintro rfl
        exact hallowed rfl
      have hmem := ChannelState.init_mem_step hne hstep
      refine ⟨{ hI with channel := hI.channel.step hstep, pending := hI.pending, init := hmem.trans hI.init, ready := hI.ready }, ?_⟩
      cases hcaller : s.caller with
      | returned result _ => cases result <;> simp [Agrees, hcaller, hmem]
      | _ => simp [Agrees, hcaller]
    · cases h

theorem step_spec {a : Action} (hI : Inv s) (h : s.step decode a = .ok t) : Inv t ∧ (t.Agrees ↔ s.Agrees ∧ s.Timely a) := by
  -- The steps that are timely in every state.
  have always (h : t.Agrees ↔ s.Agrees) : t.Agrees ↔ s.Agrees ∧ True := h.trans (and_true _).to_iff.symm
  cases a with
  | completes ec => exact (completes_spec hI h).imp_right always
  | setValue => exact (setValue_spec hI h).imp_right always
  | initChannel => exact initChannel_spec hI h
  | wakes => exact (wakes_spec hI h).imp_right always
  | returns => exact returns_spec hI h
  | channel a => exact (channelStep_spec hI h).imp_right always

/-! ### Runs -/

end TcpConnector

end Zylib.ZySoft
