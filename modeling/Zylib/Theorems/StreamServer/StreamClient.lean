import Zylib.StreamServer.StreamClient
import Zylib.Lib.Lists

/-! The attempts of `StreamClient` to connect. Each reaches the address of the latest `connect` and keeps its socket to
    itself if and only if the address is the default one and no attempt that was superseded completes while the latest
    one is under way. -/

namespace Zylib.StreamServer

namespace StreamClientState
open Run Lists

variable {C : Type} (fromString : Bytes → Option Address)

/-- Each `async_connect` is for the ip and the port of the latest call of `connect`. -/
def Targeted (s : StreamClientState C) : Prop :=
  ∀ a ∈ s.attempts, ∃ args addr, a.latest = some args ∧ fromString args.ip = some addr ∧ a.endpoint = (addr, args.port)

/-- No completion closes or takes over the socket of a later attempt. -/
def Undisturbed (s : StreamClientState C) : Prop :=
  ∀ c ∈ s.completions, ∀ j, c.closed = some j ∨ c.taken = some j → j ≤ c.attempt

/-- What is to hold of the attempts to connect. -/
structure Lawful (s : StreamClientState C) : Prop where
  targeted : s.Targeted fromString
  undisturbed : s.Undisturbed
  handlers : ∀ c ∈ s.completions, c.taken.isSome = true ↔ c.ec = 0 ∧ c.superseded = false
  callbacks : s.invoked = s.completions.filterMap fun c => c.callback.map (·, c.ec)

/-- `connect` is called with a text of the default address, or one that is not valid; an attempt completes when it is
    the latest one or when the latest one has completed. -/
def Orderly (s : StreamClientState C) : Action C → Prop
  | .connect ip _ _ => fromString ip = none ∨ fromString ip = some .default
  | .reconnect => True
  | .completes i _ => i + 1 = s.attempts.length ∨ s.attempts.getLast?.all (·.completed) = true

instance (s : StreamClientState C) : DecidablePred (s.Orderly fromString) := by
  intro a
  unfold Orderly
  split <;> infer_instance

/-- What holds of every state, and between the two halves of `connect`. The socket is that of the latest attempt, which has
    not completed; as long as no completion disturbed another, it is there while that attempt is under way. -/
structure Base (s : StreamClientState C) : Prop where
  socket : ∀ {j : Nat}, s.connectSocket = some j →
    j + 1 = s.attempts.length ∧ ∀ a, s.attempts[j]? = some a → a.completed = false
  unset : s.latest = none → s.ip = []
  args : ∀ {l : ConnectArgs C}, s.latest = some l → s.ip = l.ip ∧ s.port = l.port
  callback : s.asyncConnect = s.latest.bind (·.cb)
  handlers : ∀ c ∈ s.completions, c.taken.isSome = true ↔ c.ec = 0 ∧ c.superseded = false
  callbacks : s.invoked = s.completions.filterMap fun c => c.callback.map (·, c.ec)
  underWay : s.Undisturbed → s.attempts.getLast?.all (·.completed) = false → s.connectSocket = some (s.attempts.length - 1)

/-- As long as each attempt was for the right address, the latest text is one of the default address. -/
structure Inv (s : StreamClientState C) : Prop extends Base s where
  ip : s.Targeted fromString → fromString s.ip = none ∨ fromString s.ip = some .default

variable {fromString} {s t : StreamClientState C} {i : Nat} {ec : ErrorCode}

theorem inv_init (hempty : fromString [] = none) : Inv fromString ({} : StreamClientState C) where
  socket := fun h => (by cases h)
  unset := fun _ => rfl
  args := fun h => (by cases h)
  callback := rfl
  handlers := fun c hc => absurd hc List.not_mem_nil
  callbacks := rfl
  underWay := fun _ h => (by cases h)
  ip := fun _ => .inl hempty

theorem lawful_iff (hB : s.Base) : s.Lawful fromString ↔ s.Targeted fromString ∧ s.Undisturbed :=
  ⟨fun h => ⟨h.targeted, h.undisturbed⟩, fun h => ⟨h.1, h.2, hB.handlers, hB.callbacks⟩⟩

/-! ### Connecting -/

/-- A new attempt is for the right address if that is the default one. -/
theorem targeted_doConnect (hempty : fromString [] = none) (hB : s.Base) :
    (s.doConnect fromString).1.Targeted fromString ↔
      s.Targeted fromString ∧ (fromString s.ip = none ∨ fromString s.ip = some .default) := by
  unfold doConnect
  simp only
  split
  · rename_i hnone
    exact ⟨fun h => ⟨h, .inl hnone⟩, And.left⟩
  · rename_i addr haddr
    simp only [Targeted, List.forall_mem_append, List.forall_mem_singleton, haddr, reduceCtorEq, false_or,
      Option.some.injEq]
    refine and_congr_right fun _ => ⟨?_, ?_⟩
    · rintro ⟨l, addr', hl, haddr', hend⟩
      rw [(hB.args hl).1, haddr'] at haddr
      cases haddr
      exact (Prod.mk.inj hend).1.symm
    · rintro rfl
      cases hl : s.latest with
      | none => simp [hB.unset hl, hempty] at haddr
      | some l => exact ⟨l, .default, rfl, (hB.args hl).1 ▸ haddr, by rw [(hB.args hl).2]⟩

theorem undisturbed_doConnect : (s.doConnect fromString).1.Undisturbed ↔ s.Undisturbed := by
  unfold doConnect
  simp only
  split <;> rfl

theorem ip_doConnect : (s.doConnect fromString).1.ip = s.ip := by
  unfold doConnect
  simp only
  split <;> rfl

/-- An attempt is made, or only the handler is let go. -/
theorem base_doConnect (hB : s.Base) : (s.doConnect fromString).1.Base := by
  unfold doConnect
  simp only
  split
  · exact { hB with socket := hB.socket, args := hB.args }
  · refine { hB with socket := fun h => ?_, args := hB.args, underWay := fun _ _ => by simp }
    cases h
    refine ⟨by simp, fun a ha => ?_⟩
    rw [List.getElem?_concat_length] at ha
    cases ha
    rfl

theorem inv_doConnect (hempty : fromString [] = none) (hB : s.Base) : Inv fromString (s.doConnect fromString).1 :=
  ⟨base_doConnect hB, fun h => by rw [ip_doConnect]; exact ((targeted_doConnect hempty hB).mp h).2⟩

/-- What `connect` stores before it connects. -/
theorem base_args (hB : s.Base) (ip : Bytes) (port : UInt16) (cb : Option C) :
    Base { s with ip, port, asyncConnect := cb, latest := some ⟨ip, port, cb⟩ } :=
  { hB with
    socket := hB.socket
    unset := fun h => (by cases h)
    args := fun h => by cases h; exact ⟨rfl, rfl⟩
    callback := rfl }

theorem lawful_connect (hempty : fromString [] = none) (hI : Inv fromString s) (ip : Bytes) (port : UInt16) (cb : Option C) :
    (s.connect fromString ip port cb).1.Lawful fromString ↔
      s.Lawful fromString ∧ (fromString ip = none ∨ fromString ip = some .default) := by
  have hB := base_args hI.toBase ip port cb
  rw [lawful_iff hI.toBase, and_right_comm]
  rw [connect, lawful_iff (base_doConnect hB), targeted_doConnect hempty hB, undisturbed_doConnect]
  rfl

theorem lawful_reconnect (hempty : fromString [] = none) (hI : Inv fromString s) :
    (s.reconnect fromString).1.Lawful fromString ↔ s.Lawful fromString := by
  rw [lawful_iff hI.toBase]
  rw [reconnect, lawful_iff (base_doConnect hI.toBase), targeted_doConnect hempty hI.toBase, undisturbed_doConnect]
  exact and_congr_left fun _ => ⟨And.left, fun h => ⟨h, hI.ip h⟩⟩

/-! ### Completions -/

/-- The attempt that completes, and what is left to say of it. -/
theorem completes_eq (h : s.completes i ec = .ok t) : ∃ a, s.attempts[i]? = some a ∧ a.completed = false ∧
    (ec = 0 → s.connectSocket = some i) ∧
    t = { s.doConnectCallback ec with
      attempts := s.attempts.set i { a with completed := true }
      completions := s.completions ++ [s.completion i ec] } := by
  unfold completes at h
  split at h
  · cases h
  · rename_i a ha
    split at h
    · cases h
    · rename_i hnot
      rw [not_or, not_and, not_not] at hnot
      cases h
      exact ⟨a, ha, Bool.eq_false_iff.mpr hnot.1, hnot.2, rfl⟩

theorem targeted_completes (h : s.completes i ec = .ok t) : t.Targeted fromString ↔ s.Targeted fromString := by
  obtain ⟨a, ha, -, -, rfl⟩ := completes_eq h
  let p := fun a : ConnectAttempt C =>
    ∃ args addr, a.latest = some args ∧ fromString args.ip = some addr ∧ a.endpoint = (addr, args.port)
  have := forall_mem_set (p := p) (y := { a with completed := true }) ha (and_true (p a)).to_iff.symm
  rwa [and_true] at this

/-- What a completion closes is the socket of the latest attempt, if it is still there. -/
theorem undisturbed_completes (hB : s.Base) (h : s.completes i ec = .ok t) :
    t.Undisturbed ↔ s.Undisturbed ∧ (i + 1 = s.attempts.length ∨ s.attempts.getLast?.all (·.completed) = true) := by
  obtain ⟨a, ha, hopen, hec, rfl⟩ := completes_eq h
  have hlt := (List.getElem?_eq_some_iff.mp ha).1
  have hlast : s.attempts.getLast? = s.attempts[s.attempts.length - 1]? := List.getLast?_eq_getElem?
  simp only [Undisturbed, List.forall_mem_append, List.forall_mem_singleton]
  refine and_congr_right fun hundisturbed => ⟨fun hj => ?_, ?_⟩
  · by_contra hnot
    rw [not_or, Bool.not_eq_true] at hnot
    have := hj _ (.inl (hB.underWay hundisturbed hnot.2))
    simp only [completion] at this
    omega
  · rintro hor j hj
    have hj : s.connectSocket = some j := by
      rcases hj with hj | hj
      · exact hj
      · simp only [completion] at hj
        split at hj
        · exact hj
        · cases hj
    obtain ⟨hlen, hcompleted⟩ := hB.socket hj
    rcases hor with hi | hall
    · simp only [completion]
      omega
    · -- The socket would be that of an attempt that has completed.
      have hj : s.attempts[j]? = some s.attempts[j] := List.getElem?_eq_getElem (by omega)
      rw [hlast, show s.attempts.length - 1 = j by omega, hj, Option.all_some, hcompleted _ hj] at hall
      cases hall

/-- The flag that says that there was no later attempt, as a statement. -/
theorem superseded_completion (hlt : i < s.attempts.length) :
    (s.completion i ec).superseded = false ↔ i + 1 = s.attempts.length := by
  simp only [completion, decide_eq_false_iff_not]
  omega

theorem handlers_completion (hB : s.Base) (hec : ec = 0 → s.connectSocket = some i) (hlt : i < s.attempts.length) :
    (s.completion i ec).taken.isSome = true ↔ ec = 0 ∧ (s.completion i ec).superseded = false := by
  rw [superseded_completion hlt]
  simp only [completion]
  split
  · rename_i h0
    simp [h0, hec h0, (hB.socket (hec h0)).1]
  · rename_i h0
    simp [h0]

/-- The latest attempt has completed after a completion that disturbs no other. -/
theorem completed_set {a : ConnectAttempt C}
    (hor : i + 1 = s.attempts.length ∨ s.attempts.getLast?.all (·.completed) = true) :
    (s.attempts.set i { a with completed := true }).getLast?.all (·.completed) = true := by
  rw [List.getLast?_eq_getElem?] at hor ⊢
  rw [List.length_set, List.getElem?_set]
  split
  · split <;> rfl
  · rename_i hne
    refine hor.resolve_left fun h => hne ?_
    omega

theorem resetAfter_eq (s : StreamClientState C) (ec : ErrorCode) :
    ∃ handler, s.resetAfter ec = { s with connectSocket := none, handler } := by
  unfold resetAfter
  split
  · exact ⟨s.connectSocket, rfl⟩
  · exact ⟨s.handler, rfl⟩

theorem inv_completes (hI : Inv fromString s) (h : s.completes i ec = .ok t) : Inv fromString t := by
  have htargeted : t.Targeted fromString ↔ s.Targeted fromString := targeted_completes h
  have hundisturbed := undisturbed_completes hI.toBase h
  obtain ⟨a, ha, hopen, hec, rfl⟩ := completes_eq h
  have hlt := (List.getElem?_eq_some_iff.mp ha).1
  obtain ⟨handler, hreset⟩ := resetAfter_eq s ec
  unfold doConnectCallback at htargeted hundisturbed ⊢
  rw [hreset] at htargeted hundisturbed ⊢
  refine ⟨{ hI.toBase with
    socket := fun h => (by cases h), args := hI.args, handlers := ?_, callbacks := ?_, underWay := ?_ }, ?_⟩
  · refine List.forall_mem_append.mpr ⟨hI.handlers, List.forall_mem_singleton.mpr ?_⟩
    exact handlers_completion hI.toBase hec hlt
  · rw [List.filterMap_append, ← hI.callbacks, hI.callback]
    cases hcb : s.latest.bind (·.cb) <;> simp [completion, hcb]
  · intro ht hlast
    rw [completed_set (hundisturbed.mp ht).2] at hlast
    cases hlast
  · exact fun ht => hI.ip (htargeted.mp ht)

theorem lawful_completes (hI : Inv fromString s) (h : s.completes i ec = .ok t) :
    t.Lawful fromString ↔ s.Lawful fromString ∧ s.Orderly fromString (.completes i ec) := by
  rw [lawful_iff hI.toBase, lawful_iff (inv_completes hI h).toBase, targeted_completes h, undisturbed_completes hI.toBase h,
    and_assoc]
  rfl

/-! ### Runs -/

theorem inv_step {a : Action C} (hempty : fromString [] = none) (hI : Inv fromString s) (h : s.step fromString a = .ok t) :
    Inv fromString t := by
  cases a with
  | connect ip port cb =>
    cases h
    exact inv_doConnect hempty (base_args hI.toBase ip port cb)
  | reconnect =>
    cases h
    exact inv_doConnect hempty hI.toBase
  | completes i ec => exact inv_completes hI h

theorem lawful_step {a : Action C} (hempty : fromString [] = none) (hI : Inv fromString s)
    (h : s.step fromString a = .ok t) : t.Lawful fromString ↔ s.Lawful fromString ∧ s.Orderly fromString a := by
  cases a with
  | connect ip port cb =>
    cases h
    exact lawful_connect hempty hI ip port cb
  | reconnect =>
    cases h
    exact (lawful_reconnect hempty hI).trans (and_true _).to_iff.symm
  | completes i ec => exact lawful_completes hI h

end StreamClientState

end Zylib.StreamServer
