import Zylib.KNet.Producer
import Zylib.Lib.Run
import Zylib.Theorems.KNet.Codec

/-! What the producer hands to the broker: every message that it took, encoded and in order, if the
    send thread has emptied the queue before `Flush` and every topic can be made. `Flush` itself does
    not encode what it takes from the queue. -/

namespace Zylib.KNet.Producer
open MessageDecoder Run

/-- How a message should reach the broker. -/
def frame (m : SendMsg) : Produced := ⟨m.toSid, (encode m).buffer, m.key⟩

/-- The message that the send thread has in hand. -/
def held : SendThread → List SendMsg
  | .sendMsg msg => [msg]
  | _ => []

/-- The messages that are on their way to the broker. -/
def pending (p : Producer) : List SendMsg := held p.sendThread ++ p.queue

structure Inv (p : Producer) : Prop where
  accepted : ∀ m ∈ p.accepted, m.invalid = false ∧ m.buffer = []
  pending : ∀ m ∈ p.pending, m ∈ p.accepted
  bound : p.produced.length + p.pending.length ≤ p.accepted.length

/-- Nothing is lost so far, and everything sent was sent encoded and in order. -/
def Good (p : Producer) : Prop := p.produced ++ p.pending.map frame = p.accepted.map frame

/-- `Flush` finds no message, and there is a topic for each message that is sent. -/
def Delivers (p : Producer) : Action → Prop
  | .sendThread created => ∀ msg, p.sendThread = .sendMsg msg → msg.toSid ∈ p.topics ∨ created = true
  | .flush _ => p.run = true ∨ p.queue = []
  | _ => True

/-! ### Encoded messages -/

theorem encode_toSid (m : SendMsg) : (encode m).toSid = m.toSid := by
  unfold encode
  split <;> rfl

theorem encode_key (m : SendMsg) : (encode m).key = m.key := by
  unfold encode
  split <;> rfl

theorem frame_payload_ne_nil {m : SendMsg} (h : m.invalid = false) (hb : m.buffer = []) : (frame m).payload ≠ [] := by
  unfold SendMsg.invalid at h
  rw [Bool.or_eq_false_iff] at h
  obtain ⟨hf, ht⟩ := h
  unfold frame
  rw [buffer_encode (by simpa using hf) (by simpa using ht) hb]
  simp

/-! ### Steps -/

section
variable {p q : Producer} {a : Action}

theorem sendMessageInternal_eq (p : Producer) (msg : SendMsg) (created : Bool) :
    ((msg.toSid ∈ p.topics ∨ created = true) ∧ ∃ topics, p.sendMessageInternal msg created =
      { p with topics, produced := p.produced ++ [⟨msg.toSid, msg.buffer, msg.key⟩] }) ∨
    (¬(msg.toSid ∈ p.topics ∨ created = true) ∧ p.sendMessageInternal msg created = p) := by
  unfold sendMessageInternal findOrCreate
  by_cases ht : msg.toSid ∈ p.topics
  · exact Or.inl ⟨Or.inl ht, p.topics, by simp [ht]⟩
  · cases created with
    | true => exact Or.inl ⟨Or.inr rfl, p.topics ++ [msg.toSid], by simp [ht]⟩
    | false => exact Or.inr ⟨by simp [ht], by simp [ht]⟩

/-- What a step does to the messages on their way: one is added, none moves, the first one reaches the
    broker, or the first one is lost or sent with no body. -/
inductive Effect (p q : Producer) (delivers : Prop) : Prop where
  | accept (m : SendMsg) (hd : delivers) (hm : m.invalid = false ∧ m.buffer = []) (ha : q.accepted = p.accepted ++ [m])
      (hp : q.pending = p.pending ++ [m]) (hq : q.produced = p.produced)
  | idle (hd : delivers) (ha : q.accepted = p.accepted) (hp : q.pending = p.pending) (hq : q.produced = p.produced)
  | send (m : SendMsg) (hd : delivers) (ha : q.accepted = p.accepted) (hp : p.pending = m :: q.pending)
      (hq : q.produced = p.produced ++ [frame m])
  | spoil (m : SendMsg) (hd : ¬delivers) (ha : q.accepted = p.accepted) (hp : p.pending = m :: q.pending)
      (hq : q.produced = p.produced ∨ ∃ f : Produced, f.payload = [] ∧ q.produced = p.produced ++ [f])

theorem sendTo_effect (p : Producer) {m : SendMsg} (hb : m.buffer = []) : Effect p (p.sendTo m) True := by
  unfold sendTo
  split
  · exact .idle trivial rfl rfl rfl
  · split
    · exact .idle trivial rfl rfl rfl
    · rename_i hm
      exact .accept m trivial ⟨by simpa using hm, hb⟩ rfl (by simp [pending]) rfl

theorem startSendThread_effect {created : Bool} (h : p.startSendThread created = .ok q) :
    Effect p q (Delivers p (.sendThread created)) := by
  unfold startSendThread at h
  split at h
  · rename_i hth
    cases h
    refine .idle (by simp [Delivers, hth]) rfl ?_ rfl
    cases p.run <;> simp [pending, held, hth]
  · rename_i hth
    split at h <;> cases h
    · exact .idle (by simp [Delivers, hth]) rfl (by simp [pending, held, hth]) rfl
    · rename_i msg queue hq
      exact .idle (by simp [Delivers, hth]) rfl (by simp [pending, held, hth, hq]) rfl
  · rename_i msg hth
    cases h
    have hpend : p.pending = msg :: p.queue := by simp [pending, held, hth]
    rcases sendMessageInternal_eq p (encode msg) created with ⟨ht, topics, hs⟩ | ⟨ht, hs⟩ <;> rw [hs] <;>
      rw [encode_toSid] at ht
    · refine .send msg ?_ rfl hpend ?_
      · intro m hm
        rw [hth] at hm
        cases hm
        exact ht
      · rw [encode_toSid, encode_key]
        rfl
    · exact .spoil msg (fun hd => ht (hd msg hth)) rfl hpend (Or.inl rfl)
  · cases h

theorem flush_effect {created : Bool} (hI : Inv p) (h : p.flush created = .ok q) :
    Effect p q (Delivers p (.flush created)) := by
  unfold flush at h
  split at h
  · rename_i hr
    cases h
    exact .idle (Or.inl hr) rfl rfl rfl
  · rename_i hr
    split at h
    · cases h
    · rename_i hth
      split at h <;> cases h
      · rename_i hq
        exact .idle (Or.inr hq) rfl rfl rfl
      · rename_i msg queue hq
        have hd : ¬Delivers p (.flush created) := by simp [Delivers, hr, hq]
        have hth : p.sendThread = .exited := not_not.mp hth
        have hpend : p.pending = msg :: queue := by simp [pending, held, hth, hq]
        have hfresh := (hI.accepted msg (hI.pending msg (hpend ▸ List.mem_cons_self))).2
        rcases sendMessageInternal_eq { p with queue } msg created with ⟨-, topics, hs⟩ | ⟨-, hs⟩ <;> rw [hs]
        · refine .spoil msg hd rfl ?_ (Or.inr ⟨_, hfresh, rfl⟩)
          rw [hpend]
          simp [pending, held, hth]
        · refine .spoil msg hd rfl ?_ (Or.inl rfl)
          rw [hpend]
          simp [pending, held, hth]

theorem step_effect (hI : Inv p) (h : step p a = .ok q) : Effect p q (Delivers p a) := by
  cases a with
  | sendTo fromSid toSid msgId payload key =>
    cases h
    exact sendTo_effect p rfl
  | stop =>
    cases h
    exact .idle trivial rfl rfl rfl
  | sendThread created => exact startSendThread_effect h
  | flush created => exact flush_effect hI h

theorem inv_step (hI : Inv p) (h : step p a = .ok q) : Inv q := by
  have hb := hI.bound
  have htail : ∀ {m l}, p.pending = m :: l → ∀ x ∈ l, x ∈ p.accepted := fun hp x hx =>
    hI.pending x (hp ▸ List.mem_cons_of_mem _ hx)
  rcases step_effect hI h with ⟨m, -, hm, ha, hp, hq⟩ | ⟨-, ha, hp, hq⟩ | ⟨m, -, ha, hp, hq⟩ | ⟨m, -, ha, hp, hq⟩
  · refine ⟨fun x hx => ?_, fun x hx => ?_, by simp [ha, hp, hq]; omega⟩
    · rw [ha] at hx
      rcases List.mem_append.mp hx with hx | hx
      · exact hI.accepted x hx
      · rw [List.mem_singleton.mp hx]
        exact hm
    · rw [hp] at hx
      rw [ha]
      exact List.mem_append.mpr ((List.mem_append.mp hx).imp_left (hI.pending x))
  · exact ⟨ha ▸ hI.accepted, by rw [ha, hp]; exact hI.pending, by rw [ha, hp, hq]; exact hb⟩
  · rw [hp, List.length_cons] at hb
    refine ⟨ha ▸ hI.accepted, ha ▸ htail hp, ?_⟩
    rw [ha, hq, List.length_append, List.length_singleton]
    omega
  · rw [hp, List.length_cons] at hb
    refine ⟨ha ▸ hI.accepted, ha ▸ htail hp, ?_⟩
    rcases hq with hq | ⟨f, -, hq⟩ <;> simp only [ha, hq, List.length_append, List.length_singleton] <;> omega

theorem good_step (hI : Inv p) (h : step p a = .ok q) (hd : Delivers p a) : Good q ↔ Good p := by
  unfold Good
  rcases step_effect hI h with ⟨m, -, -, ha, hp, hq⟩ | ⟨-, ha, hp, hq⟩ | ⟨m, -, ha, hp, hq⟩ | ⟨m, hnd, -⟩
  · rw [ha, hp, hq, List.map_append, List.map_append, ← List.append_assoc, List.append_left_inj]
  · rw [ha, hp, hq]
  · rw [ha, hp, hq, List.map_cons, List.append_assoc, List.singleton_append]
  · exact absurd hd hnd

/-- A message that is lost leaves too few, and one without a body is the frame of no message. -/
theorem not_good_of_spoil (hI : Inv p) (h : step p a = .ok q) (hg : Good q) : Delivers p a := by
  by_contra hnd
  unfold Good at hg
  rcases step_effect hI h with ⟨m, hd, -⟩ | ⟨hd, -⟩ | ⟨m, hd, -⟩ | ⟨m, -, ha, hp, hq⟩
  · exact hnd hd
  · exact hnd hd
  · exact hnd hd
  · rcases hq with hq | ⟨f, hf, hq⟩
    · have hb := hI.bound
      have hlen := congrArg List.length hg
      simp only [hq, ha, List.length_append, List.length_map] at hlen
      simp only [hp, List.length_cons] at hb
      omega
    · rw [hq, ha, List.append_assoc] at hg
      have hmem : f ∈ p.accepted.map frame := hg ▸ List.mem_append_right _ (List.mem_append_left _ List.mem_cons_self)
      obtain ⟨x, hx, rfl⟩ := List.mem_map.mp hmem
      exact frame_payload_ne_nil (hI.accepted x hx).1 (hI.accepted x hx).2 hf

end

/-! ### Runs -/

theorem inv_init : Inv {} := ⟨by simp, by simp [pending, held], by simp [pending, held]⟩

theorem good_iff_along {as : List Action} {p : Producer} (h : Run.run step {} as = .ok p) :
    Good p ↔ Along step Delivers {} as := by
  constructor
  · intro hg
    exact (along_of_run inv_step not_good_of_spoil (fun hI hs hg => (good_step hI hs (not_good_of_spoil hI hs hg)).mp hg)
      inv_init h hg).1
  · intro hd
    have hstep : ∀ {p a q}, Inv p ∧ Good p → Delivers p a → step p a = .ok q → Inv q ∧ Good q := fun hI hd hs =>
      ⟨inv_step hI.1 hs, (good_step hI.1 hs hd).mpr hI.2⟩
    exact (run_invariant hstep ⟨inv_init, rfl⟩ hd h).2

/-- Once the send thread is gone, so that `Stop` was called, and `Flush` has emptied the queue, each
    message that was taken has been handed over once, encoded and in order, if and only if the send
    thread left nothing to `Flush` and there was a topic for each message it sent. -/
theorem produced_iff {as : List Action} {p : Producer} (h : Run.run step {} as = .ok p) (hth : p.sendThread = .exited)
    (hq : p.queue = []) : p.produced = p.accepted.map frame ↔ Along step Delivers {} as := by
  rw [← good_iff_along h, Good, pending, hth, hq]
  simp [held]

/-- Two messages, both taken by the send thread. -/
theorem produced_iff_two :
    let as := [.sendTo [65] [66] 1 [7] [], .sendTo [65] [67] 2 [] [], .sendThread true, .sendThread true,
      .sendThread true, .sendThread true, .sendThread true, .sendThread true, .stop, .sendThread true, .flush true]
    ∃ p : Producer, p.accepted.length = 2 ∧ Run.run step {} as = .ok p ∧
      (p.produced = p.accepted.map frame ↔ Along step Delivers {} as) := by
  intro as
  obtain ⟨p, hp⟩ : ∃ p, Run.run step {} as = .ok p := ⟨_, rfl⟩
  cases hp
  exact ⟨_, rfl, rfl, produced_iff rfl rfl rfl⟩

/-- The producer stops before the send thread takes a message, and `Flush` sends it with no body. -/
theorem flush_not_encoded : ¬∀ (as : List Action) (p : Producer), Run.run step {} as = .ok p → p.run = false →
    p.sendThread = .exited → p.queue = [] → p.produced = p.accepted.map frame := by
  intro h
  obtain ⟨p, hp⟩ : ∃ p, Run.run step {} [.sendTo [65] [66] 1 [7] [], .stop, .sendThread true, .flush true] = .ok p :=
    ⟨_, rfl⟩
  have hproduced := h _ p hp
  cases hp
  exact absurd (hproduced rfl rfl rfl) (by decide)

end Zylib.KNet.Producer
