import Zylib.KNet.System
import Zylib.Theorems.KNet.Codec
import Zylib.Theorems.KNet.Keys
import Zylib.Theorems.KNet.Slots

/-! Where the messages of a system come from. A message carries the key of the call that its chain of
    answers starts from, through every queue, and its sender and receiver take turns along the chain. So
    once an answer to an RPC is itself answered, the RPC has no slot any more. -/

namespace Zylib.KNet

/-- The messages that a pass of `ProcessMsg` has still to take up. -/
def Pc.temp : Pc → List (ReceivedMsg × Origin)
  | .msgs temp | .successCb _ _ temp | .msgCb temp => temp
  | .user | .timers _ | .timeoutCb .. => []

namespace UniformNetwork
open RPCManager

variable {w w' : UniformNetwork} {a : Action}

/-! ### What a step keeps -/

/-- `w'` comes after `w`: the slots that were made are as before, and an entry of the map was there
    before, with the number it had, or has a new number. -/
structure Later (w w' : UniformNetwork) : Prop where
  serviceId : w'.rpc.serviceId = w.rpc.serviceId
  keySequenceId : w.rpc.keySequenceId ≤ w'.rpc.keySequenceId
  slot : ∀ i < w.rpc.heap.length, w'.rpc.slot i = w.rpc.slot i
  slots : ∀ p ∈ w'.rpc.slots, p ∈ w.rpc.slots ∧ (w'.rpc.slot p.2).sequenceId = (w.rpc.slot p.2).sequenceId ∨
    w.rpc.keySequenceId < (w'.rpc.slot p.2).sequenceId

theorem Later.refl (w : UniformNetwork) : Later w w := ⟨rfl, Nat.le_refl _, fun _ _ => rfl, fun _ hp => Or.inl ⟨hp, rfl⟩⟩

theorem Change.later (hi : Inv w) (h : Change w a w') : Later w w' := by
  cases h with
  | same hs _ _ =>
    exact ⟨hs.serviceId, hs.keySequenceId, fun i _ => hs.slot_eq i, fun p hp => Or.inl ⟨hs.slots ▸ hp, by rw [hs.slot_eq]⟩⟩
  | newSlot key s hs _ _ =>
    refine ⟨hs.serviceId, hs.keySequenceId ▸ Nat.le_succ _, fun i hi => hs.slot_lt hi, fun p hp => ?_⟩
    rcases hs.mem_slots hp with hp | rfl
    · exact Or.inl ⟨hp, by rw [hs.slot_lt (hi.rpc.slots_lt p hp)]⟩
    · right
      rw [hs.slot_new, hs.sequenceId]
      exact Nat.lt_succ_self _
  | timeout timer slot _ _ hrpc _ _ | success msg o temp slot _ _ _ hrpc _ _ =>
    exact ⟨by rw [hrpc], Nat.le_of_eq (by rw [hrpc]), fun i _ => by rw [hrpc], fun p hp => Or.inl ⟨hrpc ▸ hp, by rw [hrpc]⟩⟩
  | erase timer _ hrpc _ _ =>
    refine ⟨by rw [hrpc], Nat.le_of_eq (by rw [hrpc]), fun i _ => by rw [hrpc]; rfl, fun p hp => Or.inl ?_⟩
    rw [hrpc] at hp ⊢
    exact ⟨hp, rfl⟩
  | finish key slot _ hrpc _ _ =>
    refine ⟨by rw [hrpc]; rfl, Nat.le_of_eq (by rw [hrpc]; rfl), fun i _ => by rw [hrpc]; rfl, fun p hp => Or.inl ?_⟩
    rw [hrpc] at hp ⊢
    exact ⟨List.mem_of_mem_filter hp, rfl⟩

/-- Each entry of the map has the key of the RPC of its slot, one that was issued. -/
def Numbered (w : UniformNetwork) : Prop :=
  ∀ p ∈ w.rpc.slots, 1 ≤ (w.rpc.slot p.2).sequenceId ∧ (w.rpc.slot p.2).sequenceId ≤ w.rpc.keySequenceId ∧
    p.1 = rpcKey w.rpc.serviceId (w.rpc.slot p.2).sequenceId

theorem Numbered.change (hn : Numbered w) (hi : Inv w) (h : Change w a w') : Numbered w' := by
  have hl := h.later hi
  have hold : ∀ p ∈ w'.rpc.slots, p ∈ w.rpc.slots →
      1 ≤ (w'.rpc.slot p.2).sequenceId ∧ (w'.rpc.slot p.2).sequenceId ≤ w'.rpc.keySequenceId ∧
        p.1 = rpcKey w'.rpc.serviceId (w'.rpc.slot p.2).sequenceId := by
    intro p _ hp
    obtain ⟨hpos, hle, hkey⟩ := hn p hp
    rw [hl.serviceId, hl.slot _ (hi.rpc.slots_lt p hp)]
    exact ⟨hpos, Nat.le_trans hle hl.keySequenceId, hkey⟩
  intro p hp
  cases h with
  | newSlot key s hs _ _ =>
    rcases hs.mem_slots hp with hmem | rfl
    · exact hold p hp hmem
    · rw [hs.slot_new, hs.serviceId]
      exact ⟨hs.sequenceId ▸ Nat.succ_pos _, Nat.le_of_eq (hs.sequenceId.trans hs.keySequenceId.symm), hs.key⟩
  | same hs _ _ => exact hold p hp (hs.slots ▸ hp)
  | timeout _ _ _ _ hrpc _ _ | success _ _ _ _ _ _ _ hrpc _ _ => exact hold p hp (hrpc ▸ hp)
  | erase _ _ hrpc _ _ =>
    have hmem := hp
    rw [hrpc] at hmem
    exact hold p hp hmem
  | finish _ _ _ hrpc _ _ =>
    have hmem := hp
    rw [hrpc] at hmem
    exact hold p hp (List.mem_of_mem_filter hmem)

end UniformNetwork

namespace System
open RPCManager UniformNetwork

variable {ι : Type} {q : Prop} {s t : System ι} {o : Origin} {sid : ServiceId}

def Later (s t : System ι) : Prop := ∀ d, UniformNetwork.Later (s.services d) (t.services d)

/-! ### Messages -/

/-- A message for the service `sid` that comes after the RPC it stems from has lost its slot: an answer to
    an answer, and, if no service calls itself with a context (`q`), a request of a service to itself. -/
def Done (q : Prop) (o : Origin) (sid : ServiceId) : Prop :=
  match o with
  | .answer (.answer o) => 0 ∉ o.root.1
  | .request sid' _ => q ∧ sid' = sid
  | _ => False

/-- What holds of the origin `o` of a message for the service `sid`. An answer never goes to an id with a
    NUL, which does not survive the codec, and the answer to an RPC goes to the service that issued it. -/
structure Sound (q : Prop) (s : System ι) (o : Origin) (sid : ServiceId) : Prop where
  sender : ∃ d, (s.services d).rpc.serviceId = o.root.1
  issued : ∀ d, (s.services d).rpc.serviceId = o.root.1 → o.root.2 ≤ (s.services d).rpc.keySequenceId
  noNul : o.IsAnswer → 0 ∉ sid
  back : ∀ sid' n, o = .answer (.request sid' n) → 0 ∉ sid' → sid = sid'
  settled : Done q o sid → ∀ d, (s.services d).rpc.serviceId = o.root.1 →
    ∀ p ∈ (s.services d).rpc.slots, ((s.services d).rpc.slot p.2).sequenceId ≠ o.root.2

structure Queued (q : Prop) (s : System ι) (x : SendMsg × Origin) : Prop where
  key : x.1.key = x.2.key
  sound : Sound q s x.2 x.1.toSid
  request : ∀ sid n, x.2 = .request sid n → x.1.fromSid = sid
  valid : x.1.invalid = false
  buffer : x.1.buffer = []

def InFlight (q : Prop) (s : System ι) (r : Record) : Prop :=
  ∃ msg, Queued q s (msg, r.origin) ∧ r.topic = msg.toSid ∧ r.payload = (MessageDecoder.encode msg).buffer ∧ r.key = msg.key

structure Received (q : Prop) (s : System ι) (sid : ServiceId) (x : ReceivedMsg × Origin) : Prop where
  key : x.1.key = x.2.key
  sound : Sound q s x.2 sid
  noNul : 0 ∉ x.1.fromSid
  request : ∀ sid n, x.2 = .request sid n → 0 ∉ sid → x.1.fromSid = sid

/-- The context of a message: what is sent with it is a sound answer. -/
structure Answerable (q : Prop) (s : System ι) (x : ReceivedMsgCtx × Origin) : Prop where
  key : x.1.key = x.2.key
  sound : Sound q s (.answer x.2) x.1.fromSid

structure Messages (q : Prop) (s : System ι) (w : UniformNetwork) : Prop where
  queue : ∀ x ∈ w.rpc.queue, Queued q s x
  received : ∀ x ∈ w.rpc.receivedMsgs, Received q s w.rpc.serviceId x
  temp : ∀ x ∈ w.pc.temp, Received q s w.rpc.serviceId x
  ctxs : ∀ x ∈ w.ctxs, Answerable q s x

def Distinct (s : System ι) : Prop :=
  ∀ d d', (s.services d).rpc.serviceId = (s.services d').rpc.serviceId → d = d'

structure Inv (q : Prop) (s : System ι) : Prop where
  distinct : s.Distinct
  inv : ∀ d, (s.services d).Inv
  numbered : ∀ d, (s.services d).Numbered
  messages : ∀ d, Messages q s (s.services d)
  flight : ∀ r ∈ s.flight, InFlight q s r

section Later

theorem Sound.later (h : Sound q s o sid) (hl : Later s t) : Sound q t o sid where
  sender := by
    obtain ⟨d, hd⟩ := h.sender
    exact ⟨d, (hl d).serviceId.trans hd⟩
  issued d hd := Nat.le_trans (h.issued d ((hl d).serviceId ▸ hd)) (hl d).keySequenceId
  noNul := h.noNul
  back := h.back
  settled ho d hd p hp := by
    have hd' := (hl d).serviceId ▸ hd
    rcases (hl d).slots p hp with ⟨hmem, heq⟩ | hnew
    · exact heq ▸ h.settled ho d hd' p hmem
    · -- a new entry has a number that was not given before
      exact fun heq => Nat.lt_irrefl _ (Nat.lt_of_lt_of_le (heq ▸ hnew) (h.issued d hd'))

theorem Queued.later {x : SendMsg × Origin} (h : Queued q s x) (hl : Later s t) : Queued q t x :=
  { h with sound := h.sound.later hl }

theorem Received.later {x : ReceivedMsg × Origin} (h : Received q s sid x) (hl : Later s t) : Received q t sid x :=
  { h with sound := h.sound.later hl }

theorem Messages.later {w : UniformNetwork} (h : Messages q s w) (hl : Later s t) : Messages q t w where
  queue x hx := (h.queue x hx).later hl
  received x hx := (h.received x hx).later hl
  temp x hx := (h.temp x hx).later hl
  ctxs x hx := { h.ctxs x hx with sound := (h.ctxs x hx).sound.later hl }

theorem InFlight.later {r : Record} (h : InFlight q s r) (hl : Later s t) : InFlight q t r := by
  obtain ⟨msg, hq, hr⟩ := h
  exact ⟨msg, hq.later hl, hr⟩

theorem Distinct.later (h : s.Distinct) (hl : Later s t) : t.Distinct := fun d d' hd =>
  h d d' (by rw [← (hl d).serviceId, ← (hl d').serviceId, hd])

end Later

/-! ### Sending -/

variable {w : UniformNetwork}

theorem Messages.send (hm : Messages q s w) {rpc : RPCManager} {msg : SendMsg} {o : Origin}
    (hsid : rpc.serviceId = w.rpc.serviceId) (hmsgs : rpc.receivedMsgs = w.rpc.receivedMsgs)
    (hqueue : rpc.queue = w.rpc.queue ∨ msg.invalid = false ∧ rpc.queue = w.rpc.queue ++ [(msg, o)])
    (hnew : msg.invalid = false → Queued q s (msg, o)) : Messages q s { w with rpc } where
  queue x hx := by
    rcases hqueue with hq | ⟨hvalid, hq⟩
    · exact hm.queue x (hq ▸ hx)
    · rw [hq] at hx
      rcases List.mem_append.mp hx with hx | hx
      · exact hm.queue x hx
      · obtain rfl := List.mem_singleton.mp hx
        exact hnew hvalid
  received x hx := by
    rw [hsid]
    exact hm.received x (hmsgs ▸ hx)
  temp x hx := by
    rw [hsid]
    exact hm.temp x hx
  ctxs := hm.ctxs

/-- The message of an `AsyncRPC` by the service `d`, in the system after it. If it goes to `d` itself, then
    there is no slot for it. -/
theorem queued_request (hd : s.Distinct) {d : ι} {r : RPCManager} (hsid : (s.services d).rpc.serviceId = r.serviceId)
    (hseq : (s.services d).rpc.keySequenceId = r.keySequenceId + 1) {sid : ServiceId}
    (hself : q → sid = r.serviceId →
      ∀ p ∈ (s.services d).rpc.slots, ((s.services d).rpc.slot p.2).sequenceId ≤ r.keySequenceId)
    (msgId : MsgId) (msg : MsgType) (hvalid : (r.requestMsg sid msgId msg).invalid = false) :
    Queued q s (r.requestMsg sid msgId msg, .request r.serviceId (r.keySequenceId + 1)) where
  key := rfl
  sound :=
    { sender := ⟨d, hsid⟩
      issued := fun d' hd' => by
        obtain rfl := hd d d' (hsid.trans hd'.symm)
        exact Nat.le_of_eq hseq.symm
      noNul := nofun
      back := nofun
      settled := fun ⟨hq, heq⟩ d' hd' p hp => by
        obtain rfl := hd d d' (hsid.trans hd'.symm)
        exact Nat.ne_of_lt (Nat.lt_succ_of_le (hself hq heq.symm p hp)) }
  request _ _ h := by
    cases h
    rfl
  valid := hvalid
  buffer := rfl

theorem queued_routed {d : ι} (hsid : (s.services d).rpc.serviceId = sid) {msg : SendMsg} (hkey : msg.key = sid ++ [48])
    (hbuffer : msg.buffer = []) (hvalid : msg.invalid = false) : Queued q s (msg, .routed sid) where
  key := hkey.trans (routed_key sid)
  sound := { sender := ⟨d, hsid⟩, issued := fun _ _ => Nat.zero_le _, noNul := nofun, back := nofun, settled := nofun }
  request := nofun
  valid := hvalid
  buffer := hbuffer

theorem Answerable.queued {ctx : ReceivedMsgCtx} (h : Answerable q s (ctx, o)) (msgId : MsgId) (msg : MsgType)
    (hvalid : (SendMsg.mk ctx.toSid ctx.fromSid msgId msg ctx.key []).invalid = false) :
    Queued q s (⟨ctx.toSid, ctx.fromSid, msgId, msg, ctx.key, []⟩, .answer o) where
  key := h.key
  sound := h.sound
  request := nofun
  valid := hvalid
  buffer := rfl

theorem Messages.call (hm : Messages q s w) (hd : s.Distinct) (hn : w.Numbered) {d : ι} {c : Call}
    (hself : q → ∀ sid msgId msg context, c = .asyncRPC sid msgId msg (some context) → sid ≠ w.rpc.serviceId)
    (h : w.call c = .ok (s.services d)) : Messages q s (s.services d) := by
  unfold UniformNetwork.call at h
  split at h
  · cases c with
    | asyncRPC sid msgId msg context =>
      obtain ⟨hsid, hseq, hmsgs, hqueue⟩ := asyncRPC_rest w.rpc sid msgId msg context
      have hw := Except.ok.inj h
      rw [← hw]
      refine hm.send hsid hmsgs hqueue fun hvalid => ?_
      refine queued_request hd (d := d) (by rw [← hw, hsid]) (by rw [← hw, hseq]) (fun hq heq p hp => ?_) msgId msg hvalid
      cases context with
      | none =>
        have hs := asyncRPC_none w.rpc sid msgId msg
        rw [← hw] at hp ⊢
        rw [hs.slot_eq]
        exact (hn p (hs.slots ▸ hp)).2.1
      | some context => exact absurd heq (hself hq sid msgId msg context rfl)
    | routeMessage sid msgId msg =>
      obtain ⟨q', hq', hqueue⟩ := sendTo_eq w.rpc ⟨w.rpc.serviceId, sid, msgId, msg, w.rpc.serviceId ++ [48], []⟩
        (.routed w.rpc.serviceId)
      have hw := Except.ok.inj h
      rw [routeMessage, hq'] at hw
      rw [← hw]
      exact hm.send rfl rfl hqueue (queued_routed (d := d) (by rw [← hw]) rfl rfl)
    | sendResponse ctx msgId msg =>
      simp only at h
      split at h
      · cases h
      · rename_i x ctx o hctx
        obtain ⟨q', hq', hqueue⟩ := sendTo_eq w.rpc ⟨ctx.toSid, ctx.fromSid, msgId, msg, ctx.key, []⟩ (.answer o)
        rw [← Except.ok.inj h, rpcResponse, hq']
        exact hm.send rfl rfl hqueue ((hm.ctxs _ (List.mem_of_getElem? hctx)).queued msgId msg)
  · cases h

/-! ### Receiving -/

/-- A message that finds no slot can be answered: if it is the answer to an RPC then that RPC, which was
    the receiver's own, has no slot. -/
theorem Received.answerable (hd : s.Distinct) (hn : ∀ d, (s.services d).Numbered) {d : ι} {msg : ReceivedMsg}
    (h : Received q s (s.services d).rpc.serviceId (msg, o)) (hfind : (s.services d).rpc.find msg.key = none) :
    Answerable q s (⟨msg.fromSid, msg.toSid, msg.key⟩, o) where
  key := h.key
  sound :=
    { sender := h.sound.sender
      issued := h.sound.issued
      noNul := fun _ => h.noNul
      back := fun sid n ho h0 => by
        cases ho
        exact h.request sid n rfl h0
      settled := fun hdone d' hd' p hp heq => by
        obtain ⟨o', rfl⟩ : ∃ o', o = .answer o' := by
          cases o with
          | answer o' => exact ⟨o', rfl⟩
          | request _ _ | routed _ => exact hdone.elim
        cases o' with
        | request sid n =>
          -- the receiver issued the RPC, and its slot would have been found
          obtain rfl := hd d d' ((h.sound.back sid n rfl hdone).trans hd'.symm)
          refine find_eq_none.mp hfind p hp ?_
          rw [(hn d p hp).2.2, heq, hd']
          exact h.key.symm
        | routed sid => exact Nat.not_succ_le_zero _ (heq ▸ (hn d' p hp).1)
        | answer o' => exact h.sound.settled hdone d' hd' p hp heq }

theorem Messages.mono (hm : Messages q s w) {w' : UniformNetwork} (hsid : w'.rpc.serviceId = w.rpc.serviceId)
    (hq : w'.rpc.queue ⊆ w.rpc.queue) (hr : w'.rpc.receivedMsgs ⊆ w.rpc.receivedMsgs)
    (ht : ∀ x ∈ w'.pc.temp, x ∈ w.pc.temp ∨ x ∈ w.rpc.receivedMsgs) (hc : w'.ctxs ⊆ w.ctxs) : Messages q s w' where
  queue x hx := hm.queue x (hq hx)
  received x hx := by
    rw [hsid]
    exact hm.received x (hr hx)
  temp x hx := by
    rw [hsid]
    exact (ht x hx).elim (hm.temp x) (hm.received x)
  ctxs x hx := hm.ctxs x (hc hx)

theorem Messages.normal (hm : Messages q s w) (hd : s.Distinct) (hn : ∀ d, (s.services d).Numbered) {d : ι}
    {msg : ReceivedMsg} {o : Origin} {temp : List (ReceivedMsg × Origin)} (hpc : w.pc = .msgs ((msg, o) :: temp))
    (hfind : w.rpc.find msg.key = none) (hw : s.services d = w.normalReceviedMsg msg o temp) :
    Messages q s (s.services d) := by
  have hrpc : (s.services d).rpc = w.rpc := by
    rw [hw]
    unfold normalReceviedMsg
    split <;> rfl
  have hmsg : Received q s w.rpc.serviceId (msg, o) := hm.temp _ (by rw [hpc]; exact List.mem_cons_self)
  have htail : ∀ x ∈ temp, x ∈ w.pc.temp := fun x hx => by
    rw [hpc]
    exact List.mem_cons_of_mem _ hx
  have hctx := Received.answerable (d := d) hd hn (hrpc ▸ hmsg) (hrpc ▸ hfind)
  rw [hw]
  unfold normalReceviedMsg
  split
  · refine ⟨hm.queue, hm.received, fun x hx => hm.temp x (htail x hx), fun x hx => ?_⟩
    rcases List.mem_append.mp hx with hx | hx
    · exact hm.ctxs x hx
    · obtain rfl := List.mem_singleton.mp hx
      exact hctx
  · exact hm.mono rfl (List.Subset.refl _) (List.Subset.refl _) (fun x hx => Or.inl (htail x hx)) (List.Subset.refl _)

theorem Messages.tick (hm : Messages q s w) (hd : s.Distinct) (hn : ∀ d, (s.services d).Numbered) {d : ι}
    (hw : s.services d = w.tick) : Messages q s (s.services d) := by
  have hold : ∀ {w' : UniformNetwork}, w'.rpc.serviceId = w.rpc.serviceId → w'.rpc.queue = w.rpc.queue →
      w'.rpc.receivedMsgs = w.rpc.receivedMsgs → w'.pc.temp ⊆ w.pc.temp → w'.ctxs = w.ctxs → Messages q s w' :=
    fun hsid hq hr ht hc => hm.mono hsid (hq ▸ List.Subset.refl _) (hr ▸ List.Subset.refl _) (fun x hx => Or.inl (ht hx))
      (hc ▸ List.Subset.refl _)
  unfold UniformNetwork.tick at hw
  split at hw
  · rw [hw]
    exact hold rfl rfl rfl (List.nil_subset _) rfl
  · rw [hw]
    exact hm.mono rfl (List.Subset.refl _) (List.nil_subset _) (fun x hx => Or.inr hx) (List.Subset.refl _)
  · split at hw
    · rw [hw]
      exact hold rfl rfl rfl (List.nil_subset _) rfl
    · rw [hw]
      exact hold rfl rfl rfl (List.nil_subset _) rfl
  · rw [hw]
    exact hold rfl rfl rfl (List.nil_subset _) rfl
  · rw [hw]
    exact hold rfl rfl rfl (List.nil_subset _) rfl
  · rename_i msg o temp hpc
    unfold rpcReceviedMsg at hw
    split at hw
    · rename_i hfind
      exact hm.normal hd hn hpc hfind hw
    · rw [hw]
      refine hold rfl rfl rfl (fun x hx => ?_) rfl
      rw [hpc]
      exact List.mem_cons_of_mem _ hx
  · rename_i hpc
    rw [hw]
    exact hold rfl rfl rfl (by rw [hpc]; exact List.Subset.refl _) rfl
  · rename_i hpc
    rw [hw]
    exact hold rfl rfl rfl (by rw [hpc]; exact List.Subset.refl _) rfl

theorem InFlight.received {r : Record} (h : InFlight q s r) {msg : ReceivedMsg}
    (hdec : MessageDecoder.decode r.payload r.payload.length (some r.key) r.key.length = .ok (some msg)) :
    Received q s r.topic (msg, r.origin) := by
  obtain ⟨m, hq, htopic, hpayload, hkey⟩ := h
  rw [hpayload, hkey] at hdec
  obtain ⟨hmsgKey, hnul, hfrom⟩ := MessageDecoder.decode_encode_fromSid hq.valid hq.buffer hdec
  rw [htopic]
  refine ⟨hmsgKey.trans hq.key, hq.sound, hnul, fun sid n ho h0 => ?_⟩
  have hsid : m.fromSid = sid := hq.request sid n ho
  exact (hfrom (hsid ▸ h0)).trans hsid

theorem Messages.deliver (hm : Messages q s w) {w' : UniformNetwork} {r : Record} (hr : InFlight q s r)
    (htopic : r.topic = w.rpc.serviceId)
    (h : w.cbReceviedMsg r.payload r.payload.length (some r.key) r.key.length r.origin = .ok w') : Messages q s w' := by
  unfold UniformNetwork.cbReceviedMsg RPCManager.cbReceviedMsg at h
  split at h
  · cases h
  · rename_i rpc hrpc
    cases h
    split at hrpc
    · cases hrpc
    · cases hrpc
      exact hm
    · rename_i msg hdec
      cases hrpc
      refine ⟨hm.queue, fun x hx => ?_, hm.temp, hm.ctxs⟩
      rcases List.mem_append.mp hx with hx | hx
      · exact hm.received x hx
      · obtain rfl := List.mem_singleton.mp hx
        exact htopic ▸ hr.received hdec

/-! ### Runs -/

variable [DecidableEq ι]

theorem later_update {d : ι} {w' : UniformNetwork} (h : UniformNetwork.Later (s.services d) w')
    (flight : List Record) :
    Later s { services := Function.update s.services d w', flight } := by
  intro d'
  by_cases hd : d' = d
  · subst hd
    simpa using h
  · simpa [hd] using UniformNetwork.Later.refl _

/-- A step of the service `d` keeps the invariant if the messages that the service holds after it are
    sound, and so are those in flight. -/
theorem Inv.update (hi : Inv q s) {d : ι} {a : UniformNetwork.Action} {w' : UniformNetwork}
    (h : Change (s.services d) a w') {flight : List Record} (hflight : ∀ r ∈ flight, InFlight q s r)
    (hm : ∀ t : System ι, Later s t → t.services d = w' → t.Distinct → (∀ d, (t.services d).Numbered) → Messages q t w') :
    Inv q { services := Function.update s.services d w', flight } := by
  have hl := later_update (h.later (hi.inv d)) flight
  have hd := hi.distinct.later hl
  have hn : ∀ d', (Function.update s.services d w' d').Numbered := by
    intro d'
    by_cases hd' : d' = d
    · subst hd'
      simpa using (hi.numbered d').change (hi.inv d') h
    · simpa [hd'] using hi.numbered d'
  refine ⟨hd, fun d' => ?_, hn, fun d' => ?_, fun r hr => (hflight r hr).later hl⟩
  · by_cases hd' : d' = d
    · subst hd'
      simpa using (hi.inv d').change h
    · simpa [hd'] using hi.inv d'
  · by_cases hd' : d' = d
    · subst hd'
      show Messages q _ (Function.update s.services d' w' d')
      rw [Function.update_self]
      exact hm _ hl (Function.update_self ..) hd hn
    · show Messages q _ (Function.update s.services d w' d')
      rw [Function.update_of_ne hd']
      exact (hi.messages d').later hl

theorem serviceStep_ok {d : ι} {a : UniformNetwork.Action} (h : s.serviceStep d a = .ok t) :
    ∃ w', (s.services d).step a = .ok w' ∧ t = { s with services := Function.update s.services d w' } := by
  unfold serviceStep at h
  split at h
  · cases h
  · rename_i w' hw
    exact ⟨w', hw, (Except.ok.inj h).symm⟩

theorem deliver_ok {d : ι} {k : Nat} (h : s.deliver d k = .ok t) :
    ∃ r w', r ∈ s.flight ∧ r.topic = (s.services d).rpc.serviceId ∧
      (s.services d).cbReceviedMsg r.payload r.payload.length (some r.key) r.key.length r.origin = .ok w' ∧
      t = { services := Function.update s.services d w', flight := s.flight.eraseIdx k } := by
  unfold deliver at h
  split at h
  · cases h
  · rename_i r hr
    split at h
    · rename_i htopic
      obtain ⟨w', hw, rfl⟩ := serviceStep_ok h
      exact ⟨r, w', List.mem_of_getElem? hr, htopic, hw, rfl⟩
    · cases h

theorem Inv.produce (hi : Inv q s) {d : ι} (h : s.produce d = .ok t) : Inv q t := by
  unfold System.produce at h
  split at h
  · cases h
  · rename_i msg o queue hq
    cases h
    have hfirst : Queued q s (msg, o) := (hi.messages d).queue _ (hq ▸ List.mem_cons_self)
    have hchange : Change (s.services d) .tick { s.services d with rpc.queue := queue } :=
      .same ⟨rfl, Nat.le_refl _, rfl, rfl, rfl, rfl⟩ rfl rfl
    refine hi.update hchange ?_ ?_
    · intro r hr
      rcases List.mem_append.mp hr with hr | hr
      · exact hi.flight r hr
      · obtain rfl := List.mem_singleton.mp hr
        have hids : (MessageDecoder.encode msg).toSid = msg.toSid ∧ (MessageDecoder.encode msg).key = msg.key := by
          unfold MessageDecoder.encode
          split <;> exact ⟨rfl, rfl⟩
        exact ⟨msg, hfirst, hids.1, rfl, hids.2⟩
    · intro u hl _ _ _
      refine ((hi.messages d).later hl).mono rfl ?_ (List.Subset.refl _) (fun x hx => Or.inl hx) (List.Subset.refl _)
      rw [hq]
      exact List.subset_cons_self _ _

/-- No step is an `AsyncRPC` of a service to itself with a context. -/
def SelfFree (s : System ι) (a : Action ι) : Prop :=
  ∀ d sid msgId msg context, a = .call d (.asyncRPC sid msgId msg (some context)) → sid ≠ (s.services d).rpc.serviceId

theorem Inv.step (hi : Inv q s) {a : Action ι} (hself : q → s.SelfFree a) (h : s.step a = .ok t) : Inv q t := by
  cases a with
  | call d c =>
    obtain ⟨w', hw, rfl⟩ := serviceStep_ok h
    refine hi.update (step_change hw) hi.flight fun u hl hu hd _ => ?_
    subst hu
    refine ((hi.messages d).later hl).call hd (hi.numbered d) (fun hq sid msgId msg context hc => ?_) hw
    exact hself hq d sid msgId msg context (congrArg _ hc)
  | tick d =>
    obtain ⟨w', hw, rfl⟩ := serviceStep_ok (a := .tick) h
    refine hi.update (step_change hw) hi.flight fun u hl hu hd hn => ?_
    subst hu
    exact ((hi.messages d).later hl).tick hd hn (Except.ok.inj hw).symm
  | cbEvent d hdl =>
    obtain ⟨w', hw, rfl⟩ := serviceStep_ok (a := .cbEvent hdl) h
    refine hi.update (step_change hw) hi.flight fun u hl _ _ _ => ?_
    cases hw
    exact ((hi.messages d).later hl).mono rfl (List.Subset.refl _) (List.Subset.refl _) (fun x hx => Or.inl hx)
      (List.Subset.refl _)
  | produce d => exact hi.produce h
  | deliver d k =>
    obtain ⟨r, w', hr, htopic, hw, rfl⟩ := deliver_ok h
    refine hi.update (cbReceviedMsg_change hw) (fun x hx => hi.flight x (List.mem_of_mem_eraseIdx hx)) fun u hl _ _ _ => ?_
    exact ((hi.messages d).later hl).deliver ((hi.flight r hr).later hl) htopic hw

/-- Services with the ids `ids`, before their first step, and nothing in flight. -/
def start (ids : ι → ServiceId) (cbs : ι → List MsgId) : System ι :=
  { services := fun d => UniformNetwork.init (ids d) (cbs d) }

omit [DecidableEq ι] in
theorem inv_start {ids : ι → ServiceId} (hids : Function.Injective ids) (cbs : ι → List MsgId) : Inv q (start ids cbs) where
  distinct _ _ h := hids h
  inv d := inv_init (ids d) (cbs d)
  numbered _ := nofun
  messages _ := { queue := nofun, received := nofun, temp := nofun, ctxs := nofun }
  flight := nofun

end System

end Zylib.KNet
