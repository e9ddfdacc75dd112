import Zylib.Theorems.KNet.Slots

/-! The outcome of an RPC. At most one of its callbacks is invoked, and once, in exactly the runs in
    which no message is taken up for a slot whose timer is gone: a slot stays in the map when it times
    out, so that a response that comes later still finds it. -/

namespace Zylib.KNet

/-- One of the two callbacks of the slot `i` is invoked. -/
def Event.isOutcome (i : Nat) : Event → Bool
  | .success slot _ | .timeout slot => slot == i
  | .found .. => false

namespace UniformNetwork
open RPCManager

def outcomes (w : UniformNetwork) (i : Nat) : Nat := w.log.countP (·.isOutcome i)

/-- Of no RPC more than one callback was invoked, nor one twice. -/
def AtMostOnce (w : UniformNetwork) : Prop := ∀ i, w.outcomes i ≤ 1

/-- A step of `ProcessMsg` takes up no message for a slot that has a success callback and whose timer,
    if it had one, is gone. -/
def InTime (w : UniformNetwork) : Action → Prop
  | .tick => ∀ msg o temp i hdl, w.pc = .msgs ((msg, o) :: temp) → w.rpc.find msg.key = some i →
    (w.rpc.slot i).context.successCb = true → (w.rpc.slot i).timerHdl = some hdl → w.rpc.timerManager.expired hdl = false
  | _ => True

variable {w w' : UniformNetwork}

/-! ### At most one outcome -/

theorem outcomes_timeout {i : Nat} (h : w'.log = w.log ++ [.timeout i]) (j : Nat) :
    w'.outcomes j = w.outcomes j + if i = j then 1 else 0 := by
  unfold outcomes
  rw [h, List.countP_append, List.countP_singleton]
  simp [Event.isOutcome]

theorem outcomes_success {i : Nat} {o : Origin} (h : w'.log = w.log ++ .found i o :: w.cbSuccess i o) (j : Nat) :
    w'.outcomes j = w.outcomes j + if i = j ∧ (w.rpc.slot i).context.successCb then 1 else 0 := by
  unfold outcomes cbSuccess at *
  rw [h, List.countP_append]
  by_cases hcb : (w.rpc.slot i).context.successCb = true
  · rw [if_pos hcb, List.countP_cons, List.countP_singleton]
    simp [Event.isOutcome, hcb]
  · simp [Event.isOutcome, hcb]

theorem outcomes_same (h : w'.log = w.log) (j : Nat) : w'.outcomes j = w.outcomes j := by
  unfold outcomes
  rw [h]

/-- Nothing new has come of any RPC. -/
theorem AtMostOnce.same (ha : w.AtMostOnce) (h : w'.log = w.log) : w'.AtMostOnce := by
  intro i
  rw [outcomes_same h]
  exact ha i

theorem Inv.outcomes_new (hi : Inv w) : w.outcomes w.rpc.heap.length = 0 := by
  refine List.countP_eq_zero.mpr fun e he hout => ?_
  have hlt := hi.log_lt e he
  cases e with
  | found slot o => cases hout
  | success slot o => exact absurd (beq_iff_eq.mp hout) (Nat.ne_of_lt hlt)
  | timeout slot => exact absurd (beq_iff_eq.mp hout) (Nat.ne_of_lt hlt)

/-- The timer is set, and stays so when the callback that runs is back. -/
def Waiting (w : UniformNetwork) (t : Nat) : Prop :=
  t ∈ w.rpc.timerManager.timers ∧
    match w.pc.calling with
    | .none => True
    | .timeout timer => t ≠ timer
    | .success _ i => (w.rpc.slot i).timerHdl ≠ some t

/-- The entry is in the map, and stays there when the callback that runs is back. -/
def Outstanding (w : UniformNetwork) (p : Key × Nat) : Prop :=
  p ∈ w.rpc.slots ∧
    match w.pc.calling with
    | .success key _ => p.1 ≠ key
    | _ => True

/-- Each RPC had at most one outcome, and none if its timer is still waiting, or if it has no timer and
    is still outstanding. -/
structure Once (w : UniformNetwork) : Prop where
  atMostOnce : w.AtMostOnce
  timer : ∀ t i, w.Waiting t → (w.rpc.slot i).timerHdl = some t → w.outcomes i = 0
  slot : ∀ p, w.Outstanding p → (w.rpc.slot p.2).timerHdl = none → w.outcomes p.2 = 0

theorem once_init (sid : ServiceId) (cbs : List MsgId) : Once (init sid cbs) where
  atMostOnce _ := Nat.zero_le _
  timer _ _ _ _ := rfl
  slot _ _ _ := rfl

theorem Once.same (ho : Once w) (h : SameSlots w.rpc w'.rpc) (hpc : w'.pc.calling = w.pc.calling) (hlog : w'.log = w.log) :
    Once w' where
  atMostOnce := ho.atMostOnce.same hlog
  timer t i hw ht := by
    rw [outcomes_same hlog]
    rw [h.slot_eq] at ht
    refine ho.timer t i ?_ ht
    unfold Waiting at hw ⊢
    simp only [h.slot_eq, h.timers, hpc] at hw
    exact hw
  slot p hw ht := by
    rw [outcomes_same hlog]
    rw [h.slot_eq] at ht
    refine ho.slot p ?_ ht
    unfold Outstanding at hw ⊢
    rw [h.slots, hpc] at hw
    exact hw

theorem Once.newSlot (ho : Once w) (hi : Inv w) {key : Key} {s : ContextSlot} (h : NewSlot w.rpc w'.rpc key s)
    (hpc : w'.pc.calling = w.pc.calling) (hlog : w'.log = w.log) : Once w' where
  atMostOnce := ho.atMostOnce.same hlog
  timer t i hw ht := by
    rw [outcomes_same hlog]
    rcases h.timerHdl ht with ht | ⟨rfl, -, -⟩
    · refine ho.timer t i ⟨?_, ?_⟩ ht
      · rcases h.mem_timers hw.1 with hmem | ⟨rfl, -⟩
        · exact hmem
        · -- the new timer is none that a slot had before
          have := (hi.rpc.owner _ i).mpr ht
          rw [List.getElem?_eq_none (Nat.le_refl _)] at this
          cases this
      · have hcall := hw.2
        have hc := hi.calling
        rw [hpc] at hcall
        cases hcalling : w.pc.calling with
        | none => trivial
        | timeout timer =>
          rw [hcalling] at hcall
          exact hcall
        | success key' j =>
          rw [hcalling] at hcall hc
          simp only at hcall
          rw [h.slot_lt (hi.rpc.slots_lt _ hc)] at hcall
          exact hcall
    · exact hi.outcomes_new
  slot p hw ht := by
    rw [outcomes_same hlog]
    rcases h.mem_slots hw.1 with hp | rfl
    · rw [h.slot_lt (hi.rpc.slots_lt p hp)] at ht
      refine ho.slot p ⟨hp, ?_⟩ ht
      have hcall := hw.2
      rw [hpc] at hcall
      exact hcall
    · exact hi.outcomes_new

theorem Once.timeout (ho : Once w) (hi : Inv w) {timer i : Nat} (hcalling : w.pc.calling = .none)
    (hlock : w.rpc.timerManager.lock timer = some i) (hrpc : w'.rpc = w.rpc) (hpc : w'.pc.calling = .timeout timer)
    (hlog : w'.log = w.log ++ w.cbTimeout i) : Once w' := by
  obtain ⟨hhdl, hcb⟩ := hi.cbTimeout hlock
  rw [hcb] at hlog
  have hset := (TimerManager.lock_eq_some.mp hlock).1
  have hzero : w.outcomes i = 0 := ho.timer timer i ⟨hset, by rw [hcalling]; trivial⟩ hhdl
  constructor
  · intro j
    rw [outcomes_timeout hlog]
    split
    · rename_i heq
      exact heq ▸ hzero ▸ Nat.le_refl 1
    · exact ho.atMostOnce j
  · intro t j hw ht
    unfold Waiting at hw
    rw [hrpc, hpc] at hw
    rw [hrpc] at ht
    have hne : i ≠ j := by
      rintro rfl
      exact hw.2 (Option.some.inj (ht.symm.trans hhdl))
    rw [outcomes_timeout hlog, if_neg hne]
    exact ho.timer t j ⟨hw.1, by rw [hcalling]; trivial⟩ ht
  · intro p hw ht
    unfold Outstanding at hw
    rw [hrpc] at hw ht
    have hne : i ≠ p.2 := by
      rintro rfl
      rw [hhdl] at ht
      cases ht
    rw [outcomes_timeout hlog, if_neg hne]
    exact ho.slot p ⟨hw.1, by rw [hcalling]; trivial⟩ ht

theorem Once.erase (ho : Once w) (hi : Inv w) {timer : Nat} (hcalling : w.pc.calling = .timeout timer)
    (hrpc : w'.rpc = { w.rpc with timerManager := w.rpc.timerManager.erase timer }) (hlog : w'.log = w.log) :
    Once w' where
  atMostOnce := ho.atMostOnce.same hlog
  timer t i hw ht := by
    rw [outcomes_same hlog]
    have hmem := hw.1
    rw [hrpc] at hmem ht
    obtain ⟨hne, hmem⟩ := hi.rpc.mem_erase.mp hmem
    exact ho.timer t i ⟨hmem, by rw [hcalling]; exact hne⟩ ht
  slot p hw ht := by
    rw [outcomes_same hlog]
    have hmem := hw.1
    rw [hrpc] at hmem ht
    exact ho.slot p ⟨hmem, by rw [hcalling]; trivial⟩ ht

theorem Once.success (ho : Once w) (hi : Inv w) {msg : ReceivedMsg} {o : Origin} {temp : List (ReceivedMsg × Origin)} {i : Nat}
    (hmsgs : w.pc = .msgs ((msg, o) :: temp)) (hfind : w.rpc.find msg.key = some i) (hrpc : w'.rpc = w.rpc)
    (hpc : w'.pc.calling = .success msg.key i) (hlog : w'.log = w.log ++ .found i o :: w.cbSuccess i o)
    (htime : (w.rpc.slot i).context.successCb = true → ∀ hdl, (w.rpc.slot i).timerHdl = some hdl →
      w.rpc.timerManager.expired hdl = false) : Once w' := by
  have hcalling : w.pc.calling = .none := by rw [hmsgs]; rfl
  have hmem := (find_eq_some hi.rpc).mp hfind
  constructor
  · intro j
    rw [outcomes_success hlog]
    split
    · rename_i heq
      obtain ⟨rfl, hcb⟩ := heq
      -- the message comes in time: the timer of the slot, if it has one, is waiting
      have hzero : w.outcomes i = 0 := by
        cases hhdl : (w.rpc.slot i).timerHdl with
        | none => exact ho.slot (msg.key, i) ⟨hmem, by rw [hcalling]; trivial⟩ hhdl
        | some hdl =>
          have hset : hdl ∈ w.rpc.timerManager.timers := by
            have := htime hcb hdl hhdl
            rwa [← Bool.not_eq_true, TimerManager.expired_iff, not_not] at this
          exact ho.timer hdl i ⟨hset, by rw [hcalling]; trivial⟩ hhdl
      exact hzero ▸ Nat.le_refl 1
    · exact ho.atMostOnce j
  · intro t j hw ht
    unfold Waiting at hw
    rw [hrpc, hpc] at hw
    rw [hrpc] at ht
    have hne : i ≠ j := by
      rintro rfl
      exact hw.2 ht
    rw [outcomes_success hlog, if_neg fun h => hne h.1]
    exact ho.timer t j ⟨hw.1, by rw [hcalling]; trivial⟩ ht
  · intro p hw ht
    unfold Outstanding at hw
    rw [hrpc, hpc] at hw
    rw [hrpc] at ht
    have hne : i ≠ p.2 := by
      intro haddr
      exact hw.2 (congrArg Prod.fst (hi.rpc.eq_of_addr hw.1 hmem haddr.symm))
    rw [outcomes_success hlog, if_neg fun h => hne h.1]
    exact ho.slot p ⟨hw.1, by rw [hcalling]; trivial⟩ ht

theorem Once.finish (ho : Once w) (hi : Inv w) {key : Key} {i : Nat} (hcalling : w.pc.calling = .success key i)
    (hrpc : w'.rpc = w.rpc.finish key i) (hlog : w'.log = w.log) : Once w' where
  atMostOnce j := by
    rw [outcomes_same hlog]
    exact ho.atMostOnce j
  timer t j hw ht := by
    rw [outcomes_same hlog]
    have hmem := hw.1
    rw [hrpc] at hmem ht
    obtain ⟨hset, hne⟩ := hi.rpc.mem_finish.mp hmem
    exact ho.timer t j ⟨hset, by rw [hcalling]; exact hne⟩ ht
  slot p hw ht := by
    rw [outcomes_same hlog]
    have hmem := hw.1
    rw [hrpc] at hmem ht
    obtain ⟨hmem, hkey, -⟩ := hi.mem_finish hcalling hmem
    exact ho.slot p ⟨hmem, by rw [hcalling]; exact hkey⟩ ht

theorem Once.change (ho : Once w) (hi : Inv w) {a : Action} (h : Change w a w') (htime : InTime w a) : Once w' := by
  cases h with
  | same hs hpc hlog => exact ho.same hs hpc hlog
  | newSlot key s hs hpc hlog => exact ho.newSlot hi hs hpc hlog
  | timeout timer slot calling lock rpc pc log => exact ho.timeout hi calling lock rpc pc log
  | erase timer calling rpc pc log => exact ho.erase hi calling rpc log
  | success msg o temp slot action msgs find rpc pc log =>
    subst action
    exact ho.success hi msgs find rpc pc log fun hcb hdl => htime msg o temp slot hdl msgs find hcb
  | finish key slot calling rpc pc log => exact ho.finish hi calling rpc log

/-! ### Runs -/

theorem Change.outcomes_le {a : Action} (h : Change w a w') (i : Nat) : w.outcomes i ≤ w'.outcomes i := by
  have happend : ∀ {es : List Event}, w'.log = w.log ++ es → w.outcomes i ≤ w'.outcomes i := by
    intro es hlog
    unfold outcomes
    rw [hlog, List.countP_append]
    exact Nat.le_add_right _ _
  cases h with
  | same _ _ hlog | newSlot _ _ _ _ hlog | erase _ _ _ _ hlog | finish _ _ _ _ _ hlog =>
    exact happend (hlog.trans (List.append_nil _).symm)
  | timeout _ _ _ _ _ _ hlog | success _ _ _ _ _ _ _ _ _ hlog => exact happend hlog

/-- A step that is not in time invokes a second callback: the slot of the message has timed out. -/
theorem Inv.inTime_of_atMostOnce (hi : Inv w) {a : Action} (h : w.step a = .ok w') (hw : w'.AtMostOnce) : InTime w a := by
  cases a with
  | tick =>
    intro msg o temp i hdl hpc hfind hcb hhdl
    by_contra hexp
    rw [Bool.not_eq_false, TimerManager.expired_iff] at hexp
    have hout : .timeout i ∈ w.log := hi.gone _ ((find_eq_some hi.rpc).mp hfind) hdl hhdl hexp
    have hpos : 0 < w.outcomes i := List.countP_pos_iff.mpr ⟨_, hout, beq_self_eq_true i⟩
    cases h
    have hlog : w.tick.log = w.log ++ .found i o :: w.cbSuccess i o := by
      unfold tick rpcReceviedMsg
      rw [hpc]
      simp only [hfind]
    have htwo := outcomes_success hlog i
    rw [if_pos ⟨rfl, hcb⟩] at htwo
    have hone := hw i
    omega
  | call _ | cbEvent _ | cbReceviedMsg _ _ _ _ _ => trivial

/-- The outcome of an RPC: of none more than one callback is invoked, nor one twice, if and only if no
    step takes up a message for a slot whose timer is gone. -/
theorem atMostOnce_iff {sid : ServiceId} {cbs : List MsgId} {as : List Action} (h : Run.run step (init sid cbs) as = .ok w) :
    w.AtMostOnce ↔ Run.Along step InTime (init sid cbs) as := by
  constructor
  · intro hw
    exact (Run.along_of_run (I := Inv) (Q := AtMostOnce) (fun hi hs => hi.change (step_change hs))
      (fun hi hs => hi.inTime_of_atMostOnce hs)
      (fun _ hs ht i => Nat.le_trans ((step_change hs).outcomes_le i) (ht i)) (inv_init sid cbs) h hw).1
  · intro halong
    have hinv : Inv w ∧ Once w :=
      Run.run_invariant (I := fun w => Inv w ∧ Once w)
        (fun hi htime hs => ⟨hi.1.change (step_change hs), hi.2.change hi.1 (step_change hs) htime⟩)
        ⟨inv_init sid cbs, once_init sid cbs⟩ halong h
    exact hinv.2.atMostOnce

/-- A service `A` calls `B`, with both callbacks. -/
def callB : Action := .call (.asyncRPC [66] 1 [] (some ⟨true, true⟩))

/-- The response of `B` to the first RPC of `A` arrives. -/
def responseB : Action := .cbReceviedMsg [66, 0, 65, 0, 1, 0, 0, 0] 8 (some [65, 49]) 2 (.answer (.request [65] 1))

theorem atMostOnce_iff_in_time :
    ∃ w, Run.run step (init [65] []) [callB, responseB, .tick, .tick, .tick, .tick, .cbEvent 0, .tick] = .ok w ∧
      (w.AtMostOnce ↔ Run.Along step InTime (init [65] [])
        [callB, responseB, .tick, .tick, .tick, .tick, .cbEvent 0, .tick]) :=
  ⟨_, rfl, atMostOnce_iff rfl⟩

/-- The timer expires before the response is taken up: both callbacks are invoked. -/
theorem not_atMostOnce_late :
    ∃ w, Run.run step (init [65] []) [callB, .cbEvent 0, responseB, .tick, .tick, .tick, .tick, .tick] = .ok w ∧
      .timeout 0 ∈ w.log ∧ .success 0 (.answer (.request [65] 1)) ∈ w.log ∧ ¬w.AtMostOnce :=
  ⟨_, rfl, by decide, by decide, fun h => absurd (h 0) (by decide)⟩

end UniformNetwork
end Zylib.KNet
