import Zylib.Theorems.KNet.Origins

/-! Which messages reach the slot of an RPC. A key is a service id and a number with nothing between
    them, and nothing tells a request from an answer: a slot is found by every message whose key has the
    same text. So only answers to the RPC of the slot find it in exactly the runs in which no message of
    another call, and no request of a service to itself, has the text of a slot. -/

namespace Zylib.KNet

/-- The message that found the slot, or with which its success callback was invoked, is an answer to the
    RPC of the slot. -/
def Event.Answers (w : UniformNetwork) : Event → Prop
  | .found i o | .success i o => o = .answer (.request w.rpc.serviceId (w.rpc.slot i).sequenceId)
  | .timeout _ => True

namespace UniformNetwork

variable {w w' : UniformNetwork} {a : Action}

theorem Later.answers (hl : Later w w') (hi : Inv w) {e : Event} (he : e ∈ w.log) : e.Answers w' ↔ e.Answers w := by
  have hlt := hi.log_lt e he
  cases e with
  | found i o | success i o =>
    show _ = _ ↔ _ = _
    rw [hl.serviceId, hl.slot i hlt]
  | timeout i => exact Iff.rfl

theorem Change.log_subset (h : Change w a w') : w.log ⊆ w'.log := by
  cases h with
  | same _ _ hlog | newSlot _ _ _ _ hlog | erase _ _ _ _ hlog | finish _ _ _ _ _ hlog => exact hlog ▸ List.Subset.refl _
  | timeout _ _ _ _ _ _ hlog | success _ _ _ _ _ _ _ _ _ hlog => exact hlog ▸ List.subset_append_left _ _

theorem Change.answers (h : Change w a w') (hi : Inv w) (hw : ∀ e ∈ w.log, e.Answers w)
    (hfound : ∀ msg o temp i, a = .tick → w.pc = .msgs ((msg, o) :: temp) → w.rpc.find msg.key = some i →
      o = .answer (.request w.rpc.serviceId (w.rpc.slot i).sequenceId)) : ∀ e ∈ w'.log, e.Answers w' := by
  have hold : ∀ e ∈ w.log, e.Answers w' := fun e he => ((h.later hi).answers hi he).mpr (hw e he)
  intro e he
  cases h with
  | same _ _ hlog | newSlot _ _ _ _ hlog | erase _ _ _ _ hlog | finish _ _ _ _ _ hlog => exact hold e (hlog ▸ he)
  | timeout timer slot _ _ _ _ hlog =>
    rw [hlog] at he
    rcases List.mem_append.mp he with he | he
    · exact hold e he
    · unfold cbTimeout at he
      split at he
      · obtain rfl := List.mem_singleton.mp he
        trivial
      · cases he
  | success msg o temp slot ha hpc hfind hrpc _ hlog =>
    have ho := hfound msg o temp slot ha hpc hfind
    rw [hlog] at he
    rcases List.mem_append.mp he with he | he
    · exact hold e he
    rcases List.mem_cons.mp he with rfl | he
    · rw [Event.Answers, hrpc]
      exact ho
    · unfold cbSuccess at he
      split at he
      · obtain rfl := List.mem_singleton.mp he
        rw [Event.Answers, hrpc]
        exact ho
      · cases he

end UniformNetwork

namespace System
open RPCManager UniformNetwork

variable {ι : Type} {q : Prop} {s t : System ι}

def Correlated (s : System ι) : Prop := ∀ d, ∀ e ∈ (s.services d).log, e.Answers (s.services d)

/-- No service takes up a message whose key has the text of an RPC that has a slot there, unless the
    message is an answer in the chain of that very RPC. -/
def Unmixed (s : System ι) (a : Action ι) : Prop :=
  ∀ d msg o temp, a = .tick d → (s.services d).pc = .msgs ((msg, o) :: temp) → ∀ p ∈ (s.services d).rpc.slots,
    rpcKey o.root.1 o.root.2 = rpcKey (s.services d).rpc.serviceId ((s.services d).rpc.slot p.2).sequenceId →
      o.root = ((s.services d).rpc.serviceId, ((s.services d).rpc.slot p.2).sequenceId) ∧ o.IsAnswer

theorem Inv.key_of_find (hi : Inv q s) {d : ι} {msg : ReceivedMsg} {o : Origin} {temp : List (ReceivedMsg × Origin)} {i : Nat}
    (hpc : (s.services d).pc = .msgs ((msg, o) :: temp)) :
    (s.services d).rpc.find msg.key = some i ↔ ∃ p ∈ (s.services d).rpc.slots, p.2 = i ∧
      rpcKey o.root.1 o.root.2 = rpcKey (s.services d).rpc.serviceId ((s.services d).rpc.slot p.2).sequenceId := by
  have hmsg : Received q s (s.services d).rpc.serviceId (msg, o) :=
    (hi.messages d).temp _ (by rw [hpc]; exact List.mem_cons_self)
  have hkey : msg.key = rpcKey o.root.1 o.root.2 := hmsg.key
  rw [find_eq_some (hi.inv d).rpc, ← hkey]
  constructor
  · intro hmem
    exact ⟨_, hmem, rfl, (hi.numbered d _ hmem).2.2⟩
  · rintro ⟨p, hp, rfl, heq⟩
    rw [heq, ← (hi.numbered d p hp).2.2]
    exact hp

/-- An answer in the chain of an RPC that has a slot is an answer to the RPC itself. -/
theorem Inv.answer_of_root (hi : Inv q s) {d : ι} {msg : ReceivedMsg} {o : Origin} {temp : List (ReceivedMsg × Origin)}
    (hpc : (s.services d).pc = .msgs ((msg, o) :: temp)) {p : Key × Nat} (hp : p ∈ (s.services d).rpc.slots)
    (hroot : o.root = ((s.services d).rpc.serviceId, ((s.services d).rpc.slot p.2).sequenceId)) (hans : o.IsAnswer) :
    o = .answer (.request (s.services d).rpc.serviceId ((s.services d).rpc.slot p.2).sequenceId) := by
  have hmsg : Received q s (s.services d).rpc.serviceId (msg, o) :=
    (hi.messages d).temp _ (by rw [hpc]; exact List.mem_cons_self)
  have hnul := hmsg.sound.noNul hans
  obtain ⟨o', rfl⟩ := hans
  cases o' with
  | request sid n =>
    obtain ⟨rfl, rfl⟩ := Prod.mk.inj hroot
    rfl
  | routed sid =>
    have hzero : ((s.services d).rpc.slot p.2).sequenceId = 0 := (congrArg Prod.snd hroot).symm
    exact absurd (hi.numbered d p hp).1 (by omega)
  | answer o' =>
    have hsid : (s.services d).rpc.serviceId = o'.root.1 := (congrArg Prod.fst hroot).symm
    exact absurd (congrArg Prod.snd hroot).symm (hmsg.sound.settled (hsid ▸ hnul : 0 ∉ o'.root.1) d hsid p hp)

section Runs
variable [DecidableEq ι] {a : Action ι}

theorem step_service (h : s.step a = .ok t) :
    ∃ d a' w', Change (s.services d) a' w' ∧ (a' = .tick → a = .tick d) ∧ t.services = Function.update s.services d w' := by
  cases a with
  | call d c =>
    obtain ⟨w', hw, rfl⟩ := serviceStep_ok (a := .call c) h
    exact ⟨d, _, w', step_change hw, nofun, rfl⟩
  | tick d =>
    obtain ⟨w', hw, rfl⟩ := serviceStep_ok (a := .tick) h
    exact ⟨d, _, w', step_change hw, fun _ => rfl, rfl⟩
  | cbEvent d hdl =>
    obtain ⟨w', hw, rfl⟩ := serviceStep_ok (a := .cbEvent hdl) h
    exact ⟨d, _, w', step_change hw, nofun, rfl⟩
  | produce d =>
    unfold step produce at h
    simp only at h
    split at h
    · cases h
    · cases h
      refine ⟨d, .cbEvent 0, _, ?_, nofun, rfl⟩
      exact .same ⟨rfl, Nat.le_refl _, rfl, rfl, rfl, rfl⟩ rfl rfl
  | deliver d k =>
    obtain ⟨r, w', -, -, hw, rfl⟩ := deliver_ok h
    exact ⟨d, _, w', cbReceviedMsg_change hw, nofun, rfl⟩

/-- A step that mixes nothing up keeps the slots to their answers. -/
theorem Correlated.step (hc : s.Correlated) (hi : Inv q s) (hu : s.Unmixed a) (h : s.step a = .ok t) : t.Correlated := by
  obtain ⟨d, a', w', hchange, ha, ht⟩ := step_service h
  intro d'
  rw [ht]
  by_cases hd : d' = d
  · subst hd
    rw [Function.update_self]
    refine hchange.answers (hi.inv d') (hc d') fun msg o temp i ha' hpc hfind => ?_
    obtain ⟨p, hp, rfl, hkey⟩ := (hi.key_of_find hpc).mp hfind
    obtain ⟨hroot, hans⟩ := hu d' msg o temp (ha ha') hpc p hp hkey
    exact hi.answer_of_root hpc hp hroot hans
  · rw [Function.update_of_ne hd]
    exact hc d'

theorem Correlated.back (hi : Inv q s) (h : s.step a = .ok t) (hc : t.Correlated) : s.Correlated := by
  obtain ⟨d, a', w', hchange, -, ht⟩ := step_service h
  intro d' e he
  have hc' := hc d'
  rw [ht] at hc'
  by_cases hd : d' = d
  · subst hd
    rw [Function.update_self] at hc'
    exact ((hchange.later (hi.inv d')).answers (hi.inv d') he).mp (hc' e (hchange.log_subset he))
  · rw [Function.update_of_ne hd] at hc'
    exact hc' e he

/-- A step that mixes something up gives a slot a message that is no answer to its RPC. -/
theorem Inv.unmixed_of_correlated (hi : Inv q s) (h : s.step a = .ok t) (hc : t.Correlated) : s.Unmixed a := by
  intro d msg o temp ha hpc p hp hkey
  subst ha
  obtain ⟨w', hw, rfl⟩ := serviceStep_ok (a := .tick) h
  cases hw
  have hfind : (s.services d).rpc.find msg.key = some p.2 := (hi.key_of_find hpc).mpr ⟨p, hp, rfl, hkey⟩
  have htick : (s.services d).tick.rpc = (s.services d).rpc ∧ .found p.2 o ∈ (s.services d).tick.log := by
    unfold UniformNetwork.tick rpcReceviedMsg
    rw [hpc]
    simp only [hfind]
    exact ⟨trivial, List.mem_append_right _ List.mem_cons_self⟩
  have hans := hc d (.found p.2 o)
  simp only [Function.update_self] at hans
  have ho := hans htick.2
  rw [Event.Answers, htick.1] at ho
  rw [ho]
  exact ⟨rfl, _, rfl⟩

/-- The correlation of RPCs: in a run of services with distinct ids, a slot is found, and its success
    callback invoked, by answers to its own RPC only, if and only if no service takes up another message
    whose key has the text of an RPC that has a slot there. -/
theorem correlated_iff {ids : ι → ServiceId} (hids : Function.Injective ids) (cbs : ι → List MsgId)
    {as : List (Action ι)} (h : Run.run step (start ids cbs) as = .ok s) :
    s.Correlated ↔ Run.Along step Unmixed (start ids cbs) as := by
  have hstart : Inv False (start ids cbs) := inv_start hids cbs
  have hinv : ∀ {s t : System ι} {a : Action ι}, Inv False s → s.step a = .ok t → Inv False t :=
    fun hi hs => hi.step False.elim hs
  constructor
  · intro hc
    exact (Run.along_of_run (I := Inv False) (Q := Correlated) hinv (fun hi hs => hi.unmixed_of_correlated hs)
      (fun hi hs => Correlated.back hi hs) hstart h hc).1
  · intro hu
    have hend : Inv False s ∧ s.Correlated :=
      Run.run_invariant (I := fun s => Inv False s ∧ s.Correlated)
        (fun hi hu hs => ⟨hinv hi.1 hs, hi.2.step hi.1 hu hs⟩) ⟨hstart, fun d => nofun⟩ hu h
    exact hend.2

/-- Two services, `A` and `B`; `B` has a callback for messages with the id 1. -/
def idsAB : Bool → ServiceId
  | false => [65]
  | true => [66]

/-- `A` calls `B` and gets its answer. -/
def answeredRun : List (Action Bool) :=
  [.call false (.asyncRPC [66] 1 [] (some ⟨true, false⟩)), .produce false, .deliver true 0, .tick true, .tick true, .tick true,
    .call true (.sendResponse 0 1 []), .produce true, .deliver false 0, .tick false, .tick false, .tick false]

theorem correlated_iff_answered :
    ∃ s, Run.run step (start idsAB fun _ => [1]) answeredRun = .ok s ∧
      (s.Correlated ↔ Run.Along step Unmixed (start idsAB fun _ => [1]) answeredRun) :=
  ⟨_, rfl, correlated_iff (by unfold Function.Injective; decide) _ rfl⟩

def idsA1 : Bool → ServiceId
  | false => [65]
  | true => [65, 49]

/-- `A` issues ten RPCs to `B`, the last with a context, and `A1` sends a message to `A`: its key `A10` is
    that of the tenth RPC. -/
def mixedRun : List (Action Bool) :=
  List.replicate 9 (.call false (.asyncRPC [66] 1 [] none)) ++
    [.call false (.asyncRPC [66] 1 [] (some ⟨true, false⟩)), .call true (.routeMessage [65] 1 []), .produce true,
      .deliver false 0, .tick false, .tick false, .tick false]

/-- The success callback of an RPC is invoked with a message that another service routed. -/
theorem not_correlated_mixed :
    Function.Injective idsA1 ∧ ∃ s, Run.run step (start idsA1 fun _ => []) mixedRun = .ok s ∧
      .success 0 (.routed [65, 49]) ∈ (s.services false).log ∧ ¬s.Correlated := by
  refine ⟨by unfold Function.Injective; decide, _, rfl, by decide, fun h => ?_⟩
  have hans : Origin.routed [65, 49] = .answer _ := h false (.success 0 (.routed [65, 49])) (by decide)
  cases hans

/-! ### Ids that keep the keys apart -/

/-- No id is the id of another service and then digits. -/
def Separate (s : System ι) : Prop :=
  ∀ d d' (ds : Bytes), (∀ c ∈ ds, isDigit c) → (s.services d).rpc.serviceId = (s.services d').rpc.serviceId ++ ds → d = d'

omit [DecidableEq ι] in
theorem Separate.later (h : s.Separate) (hl : Later s t) : t.Separate := by
  intro d d' ds hds heq
  rw [(hl d).serviceId, (hl d').serviceId] at heq
  exact h d d' ds hds heq

omit [DecidableEq ι] in
/-- With such ids, fewer than `2 ^ 64` RPCs and no service that calls itself, keys with the same text are
    those of one RPC, and its request goes to another service. -/
theorem Inv.unmixed (hi : Inv True s) (hsep : s.Separate) (hbound : ∀ d, (s.services d).rpc.keySequenceId < 2 ^ 64)
    (a : Action ι) : s.Unmixed a := by
  intro d msg o temp _ hpc p hp hkey
  have hmsg : Received True s (s.services d).rpc.serviceId (msg, o) :=
    (hi.messages d).temp _ (by rw [hpc]; exact List.mem_cons_self)
  obtain ⟨hpos, hle, -⟩ := hi.numbered d p hp
  have hsid : (s.services d).rpc.serviceId = o.root.1 := by
    obtain ⟨d', hd'⟩ := hmsg.sound.sender
    rw [← hd'] at hkey ⊢
    obtain ⟨ds, hds, heq | heq⟩ := eq_append_of_rpcKey hkey
    · rw [hsep d' d ds hds heq]
    · rw [hsep d d' ds hds heq]
  have hn : o.root.2 = ((s.services d).rpc.slot p.2).sequenceId := by
    rw [← hsid, rpcKey_inj, uint64, uint64] at hkey
    have hissued : o.root.2 ≤ (s.services d).rpc.keySequenceId := hmsg.sound.issued d hsid
    have hlt := hbound d
    rwa [Nat.mod_eq_of_lt (by omega), Nat.mod_eq_of_lt (by omega)] at hkey
  refine ⟨Prod.ext hsid.symm hn, ?_⟩
  cases o with
  | request sid n => exact absurd hn.symm (hmsg.sound.settled ⟨trivial, hsid.symm⟩ d hsid p hp)
  | routed sid =>
    have hzero : ((s.services d).rpc.slot p.2).sequenceId = 0 := hn.symm
    omega
  | answer o' => exact ⟨o', rfl⟩

/-- If no id is another one and then digits, and no service calls itself with a context or issues
    `2 ^ 64` RPCs, then every run keeps the slots to their answers. -/
theorem correlated_of_separate {ids : ι → ServiceId}
    (hids : ∀ d d' (ds : Bytes), (∀ c ∈ ds, isDigit c) → ids d = ids d' ++ ds → d = d') (cbs : ι → List MsgId)
    {as : List (Action ι)}
    (hcalls : Run.Along step (fun s a => s.SelfFree a ∧ ∀ d, (s.services d).rpc.keySequenceId < 2 ^ 64) (start ids cbs) as)
    (h : Run.run step (start ids cbs) as = .ok s) : s.Correlated := by
  have hinj : Function.Injective ids := fun d d' heq => hids d d' [] nofun (by rw [heq, List.append_nil])
  have hend : Inv True s ∧ s.Separate ∧ s.Correlated := by
    refine Run.run_invariant (I := fun s => Inv True s ∧ s.Separate ∧ s.Correlated) ?_
      ⟨inv_start hinj cbs, hids, fun d => nofun⟩ hcalls h
    intro s a t ⟨hi, hsep, hc⟩ ⟨hself, hbound⟩ hs
    obtain ⟨d, a', w', hchange, -, ht⟩ := step_service hs
    have hl : Later s t := by
      intro d'
      rw [ht]
      exact later_update (hchange.later (hi.inv d)) t.flight d'
    exact ⟨hi.step (fun _ => hself) hs, hsep.later hl, hc.step hi (hi.unmixed hsep hbound a) hs⟩
  exact hend.2.2

end Runs

end System

end Zylib.KNet
