import Zylib.StreamServer.CallbackClient
import Zylib.Lib.Run

/-! How the ends of the attempts to connect are reported. `syncConnectFail` takes the member of the
    attempts that succeeded, so no failure is ever reported, and a success that comes between the two
    calls is reported as a failure. -/

namespace Zylib.StreamServer.CallbackClient
open Run

/-- The callbacks made, and those that the current call of `update` makes next. -/
def events (s : CallbackClient) : List ClientCallback := s.callbacks ++ s.todo

/-- The attempts that ended before the last complete `update` began. -/
def due (s : CallbackClient) : List Completion := if s.todo = [] ∧ s.calls = [] then s.beforeUpdate else s.beforeLast

/-- The next step of the main thread is the call `f`. -/
def Takes (s : CallbackClient) (f : ClientSync) : Prop := s.todo = [] ∧ s.calls.head? = some f

section
variable (cb : ClientCallbacks)

/-- Each attempt that ended is reported as what it was, and once: when an `update` has run since. -/
structure Reported (s : CallbackClient) : Prop where
  success : ∀ c, .connectSuccess c ∈ s.callbacks → ⟨c, true⟩ ∈ s.completed ∧ s.callbacks.count (.connectSuccess c) = 1
  fail : ∀ c, .connectFail c ∈ s.callbacks → ⟨c, false⟩ ∈ s.completed ∧ s.callbacks.count (.connectFail c) = 1
  notFail : ∀ c, ⟨c, true⟩ ∈ s.completed → .connectFail c ∉ s.callbacks
  notSuccess : ∀ c, ⟨c, false⟩ ∈ s.completed → .connectSuccess c ∉ s.callbacks
  dueSuccess : cb.syncConnectSuccess = true → ∀ c, ⟨c, true⟩ ∈ s.due → s.callbacks.count (.connectSuccess c) = 1
  dueFail : cb.syncConnectFail = true → ∀ c, ⟨c, false⟩ ∈ s.due → s.callbacks.count (.connectFail c) = 1

/-- No attempt fails, none succeeds while a success still waits to be taken, and none waits when
    `syncConnectFail` is called. What has no callback makes no demand. -/
def Reports (s : CallbackClient) : Action → Prop
  | .asyncConnect true => cb.syncConnectFail = false
  | .asyncConnect false => cb.syncConnectSuccess = true → s.asyncConnectSuccess = none
  | .update => s.Takes .syncConnectFail → cb.syncConnectSuccess = true ∨ cb.syncConnectFail = true →
      s.asyncConnectSuccess = none
  | _ => True

structure Inv (s : CallbackClient) : Prop where
  connecting : ∀ c, s.connecting = some c → s.asyncClient = some c ∧ c < s.clients ∧ ∀ ok, ⟨c, ok⟩ ∉ s.completed
  clients : ∀ x ∈ s.completed, x.client < s.clients
  asyncClient : ∀ c, s.asyncClient = some c → c < s.clients
  unique : ∀ c, ⟨c, true⟩ ∈ s.completed → ⟨c, false⟩ ∉ s.completed
  waiting : ∀ c, s.asyncConnectSuccess = some c → ⟨c, true⟩ ∈ s.completed ∧ .connectSuccess c ∉ s.events
  success : ∀ c, .connectSuccess c ∈ s.events → ⟨c, true⟩ ∈ s.completed ∧ s.events.count (.connectSuccess c) = 1
  fail : ∀ c, .connectFail c ∈ s.events → ⟨c, true⟩ ∈ s.completed
  calls : s.calls <:+ updateCalls
  beforeUpdate : s.beforeUpdate ⊆ s.completed
  beforeLast : s.beforeLast ⊆ s.beforeUpdate
  taken : .syncConnectSuccess ∉ s.calls → ∀ x ∈ s.beforeUpdate, s.asyncConnectSuccess ≠ some x.client
  takenLast : ∀ x ∈ s.beforeLast, s.asyncConnectSuccess ≠ some x.client ∧ .connectSuccess x.client ∉ s.todo

/-- No end of an attempt is lost or reported as another so far. -/
structure Good (s : CallbackClient) : Prop where
  noFail : ∀ c, .connectFail c ∉ s.events
  noFailed : cb.syncConnectFail = true → ∀ c, ⟨c, false⟩ ∉ s.completed
  success : cb.syncConnectSuccess = true → ∀ c, ⟨c, true⟩ ∈ s.completed →
    s.asyncConnectSuccess = some c ∨ .connectSuccess c ∈ s.events

end

section
variable {cb : ClientCallbacks} {s t : CallbackClient} {a : Action}

/-! ### Steps -/

theorem connect_cases (s : CallbackClient) (started : Bool) :
    s.connect started = s ∨ s.asyncClient = none ∧ s.connect started = { s with
      asyncClient := some s.clients
      clients := s.clients + 1
      connecting := if started then some s.clients else none } := by
  unfold connect
  split
  · exact Or.inl rfl
  · rename_i h
    exact Or.inr ⟨by simpa using h, rfl⟩

/-- What a step does: nothing, a new client, the end of an attempt, a report of a connection, or a step
    of `update`. -/
theorem step_cases (hI : Inv s) (h : step cb s a = .ok t) :
    (Reports cb s a ∧ (t = s ∨ ∃ started, s.connecting = none ∧ t = { s with
      asyncClient := some s.clients
      clients := s.clients + 1
      connecting := if started = true then some s.clients else none })) ∨
    (∃ ec c, a = .asyncConnect ec ∧ s.connecting = some c ∧
      t = { s.asyncConnect ec with connecting := none, completed := s.completed ++ [⟨c, !ec⟩] }) ∨
    (Reports cb s a ∧ ∃ timeout closed pkgs, t = { s with
      asyncTimeout := timeout
      asyncClosed := closed
      asyncReceivedMsgPkg := pkgs }) ∨
    (a = .update ∧ t = s.update cb) := by
  cases a with
  | connect started =>
    cases h
    rcases connect_cases s started with hc | ⟨hnone, hc⟩
    · exact Or.inl ⟨trivial, Or.inl hc⟩
    · refine Or.inl ⟨trivial, Or.inr ⟨started, ?_, hc⟩⟩
      cases hk : s.connecting with
      | none => rfl
      | some c => rw [(hI.connecting c hk).1] at hnone; cases hnone
  | reconnect started =>
    simp only [step, reconnect] at h
    split at h <;> cases h
    rename_i hk
    exact Or.inl ⟨trivial, Or.inr ⟨started, by simpa using hk, rfl⟩⟩
  | asyncConnect ec =>
    simp only [step] at h
    split at h <;> cases h
    rename_i c hc
    exact Or.inr (Or.inl ⟨ec, c, rfl, hc, rfl⟩)
  | asyncTimeout =>
    cases h
    exact Or.inr (Or.inr (Or.inl ⟨trivial, _, _, _, rfl⟩))
  | asyncClosed =>
    cases h
    exact Or.inr (Or.inr (Or.inl ⟨trivial, _, _, _, rfl⟩))
  | asyncReceivedMsg hdl msgList =>
    cases h
    exact Or.inr (Or.inr (Or.inl ⟨trivial, _, _, _, rfl⟩))
  | update =>
    cases h
    exact Or.inr (Or.inr (Or.inr ⟨rfl, rfl⟩))

variable (cb) in
/-- What a step of the main thread does: a callback, the next call of `update`, or a new `update`. -/
theorem update_cases (s : CallbackClient) :
    (∃ c todo, s.todo = c :: todo ∧ s.update cb = { s with todo, callbacks := s.callbacks ++ [c] }) ∨
    (∃ f calls, s.todo = [] ∧ s.calls = f :: calls ∧
      ∃ timeout closed pkgs, s.update cb = { s with
        asyncConnectSuccess :=
          if f = .syncConnectSuccess ∨ f = .syncConnectFail then none else s.asyncConnectSuccess
        asyncTimeout := timeout
        asyncClosed := closed
        asyncReceivedMsgPkg := pkgs
        todo := (s.sync cb f).1
        calls }) ∨
    (s.todo = [] ∧ s.calls = [] ∧
      s.update cb = { s with calls := updateCalls, beforeUpdate := s.completed, beforeLast := s.beforeUpdate }) := by
  unfold update
  cases h : s.todo with
  | cons c todo => exact Or.inl ⟨c, todo, rfl, rfl⟩
  | nil =>
    cases hc : s.calls with
    | cons f calls =>
      exact Or.inr (Or.inl ⟨f, calls, rfl, rfl, (s.sync cb f).2.asyncTimeout, (s.sync cb f).2.asyncClosed,
        (s.sync cb f).2.asyncReceivedMsgPkg, by cases f <;> rfl⟩)
    | nil => exact Or.inr (Or.inr ⟨rfl, rfl, rfl⟩)

theorem connectSuccess_mem_sync {f : ClientSync} {c : Nat} : .connectSuccess c ∈ (s.sync cb f).1 ↔
    f = .syncConnectSuccess ∧ cb.syncConnectSuccess = true ∧ s.asyncConnectSuccess = some c := by
  cases f <;> simp [sync, syncConnectSuccess, syncConnectFail, syncTimeout, syncClosed, syncReceivedMsg, msgCallbacks]

theorem connectFail_mem_sync {f : ClientSync} {c : Nat} : .connectFail c ∈ (s.sync cb f).1 ↔
    f = .syncConnectFail ∧ cb.syncConnectFail = true ∧ s.asyncConnectSuccess = some c := by
  cases f <;> simp [sync, syncConnectSuccess, syncConnectFail, syncTimeout, syncClosed, syncReceivedMsg, msgCallbacks]

/-- A success is reported once in what a call makes of it. -/
theorem count_sync {f : ClientSync} {c : Nat} (h : .connectSuccess c ∈ (s.sync cb f).1) :
    (s.sync cb f).1.count (.connectSuccess c) = 1 := by
  obtain ⟨rfl, hcb, hc⟩ := connectSuccess_mem_sync.mp h
  simp [sync, syncConnectSuccess, hcb, hc]

/-! ### The invariant -/

theorem inv_init : Inv {} := by
  constructor <;> simp [events]

/-- A call of `update` takes the member of the attempts that succeeded, or leaves it. -/
theorem inv_sync (hI : Inv s) {f : ClientSync} {calls : List ClientSync} (htodo : s.todo = []) (hcalls : s.calls = f :: calls)
    {timeout closed : Option Nat} {pkgs : List CallbackMessagePkg} (hs : s.update cb = { s with
      asyncConnectSuccess := if f = .syncConnectSuccess ∨ f = .syncConnectFail then none else s.asyncConnectSuccess
      asyncTimeout := timeout
      asyncClosed := closed
      asyncReceivedMsgPkg := pkgs
      todo := (s.sync cb f).1
      calls }) : Inv (s.update cb) := by
  have hevents : (s.update cb).events = s.events ++ (s.sync cb f).1 := by simp [hs, events, htodo]
  rw [hs] at hevents ⊢
  constructor <;> simp only [hevents]
  · exact hI.connecting
  · exact hI.clients
  · exact hI.asyncClient
  · exact hI.unique
  · intro c hc
    split at hc
    · cases hc
    · rename_i hf
      refine ⟨(hI.waiting c hc).1, fun h => ?_⟩
      rcases List.mem_append.mp h with h | h
      · exact (hI.waiting c hc).2 h
      · exact hf (Or.inl (connectSuccess_mem_sync.mp h).1)
  · intro c hc
    rw [List.count_append]
    rcases List.mem_append.mp hc with hc | hc
    · have hno : .connectSuccess c ∉ (s.sync cb f).1 := fun h => (hI.waiting c (connectSuccess_mem_sync.mp h).2.2).2 hc
      rw [List.count_eq_zero_of_not_mem hno, (hI.success c hc).2]
      exact ⟨(hI.success c hc).1, rfl⟩
    · obtain ⟨hwait, hno⟩ := hI.waiting c (connectSuccess_mem_sync.mp hc).2.2
      rw [List.count_eq_zero_of_not_mem hno, count_sync hc]
      exact ⟨hwait, rfl⟩
  · intro c hc
    rcases List.mem_append.mp hc with hc | hc
    · exact hI.fail c hc
    · exact (hI.waiting c (connectFail_mem_sync.mp hc).2.2).1
  · exact (List.suffix_cons f calls).trans (hcalls ▸ hI.calls)
  · exact hI.beforeUpdate
  · exact hI.beforeLast
  · intro hno x hx hslot
    split at hslot
    · cases hslot
    · rename_i hf
      refine hI.taken (fun h => ?_) x hx hslot
      rw [hcalls] at h
      rcases List.mem_cons.mp h with h | h
      · exact hf (Or.inl h.symm)
      · exact hno h
  · intro x hx
    refine ⟨fun h => ?_, fun h => (hI.takenLast x hx).1 (connectSuccess_mem_sync.mp h).2.2⟩
    split at h
    · cases h
    · exact (hI.takenLast x hx).1 h

theorem inv_update (hI : Inv s) : Inv (s.update cb) := by
  rcases update_cases cb s with ⟨c, todo, htodo, hs⟩ | ⟨f, calls, htodo, hcalls, timeout, closed, pkgs, hs⟩ |
    ⟨htodo, hcalls, hs⟩
  · -- A callback that is made was already counted as an event.
    have hevents : (s.update cb).events = s.events := by simp [hs, events, htodo]
    rw [hs] at hevents ⊢
    constructor <;> simp only [hevents]
    exacts [hI.connecting, hI.clients, hI.asyncClient, hI.unique, hI.waiting, hI.success, hI.fail, hI.calls, hI.beforeUpdate,
      hI.beforeLast, hI.taken, fun x hx => ⟨(hI.takenLast x hx).1, fun h => (hI.takenLast x hx).2 (htodo ▸ List.mem_cons_of_mem _ h)⟩]
  · exact inv_sync hI htodo hcalls hs
  · rw [hs]
    refine { hI with
      calls := List.suffix_rfl
      beforeUpdate := fun x hx => hx
      beforeLast := hI.beforeUpdate
      taken := fun h => absurd h (by simp [updateCalls])
      takenLast := fun x hx => ⟨?_, ?_⟩ }
    · exact hI.taken (by simp [hcalls]) x hx
    · rw [htodo]
      exact List.not_mem_nil

theorem inv_asyncConnect (hI : Inv s) {c : Nat} (hk : s.connecting = some c) (ec : Bool) :
    Inv { s.asyncConnect ec with connecting := none, completed := s.completed ++ [⟨c, !ec⟩] } := by
  obtain ⟨hclient, hlt, hnew⟩ := hI.connecting c hk
  have hold : s.completed ⊆ s.completed ++ [⟨c, !ec⟩] := List.subset_append_left _ _
  have hclients : ∀ x ∈ s.completed ++ [⟨c, !ec⟩], x.client < s.clients := by
    intro x hx
    rcases List.mem_append.mp hx with hx | hx
    · exact hI.clients x hx
    · rw [List.mem_singleton.mp hx]
      exact hlt
  have hunique : ∀ d, ⟨d, true⟩ ∈ s.completed ++ [⟨c, !ec⟩] → ⟨d, false⟩ ∉ s.completed ++ [⟨c, !ec⟩] := by
    intro d h₁ h₂
    rcases List.mem_append.mp h₁ with hd₁ | hd₁ <;> rcases List.mem_append.mp h₂ with hd₂ | hd₂
    · exact hI.unique d hd₁ hd₂
    · obtain rfl : d = c := congrArg Completion.client (List.mem_singleton.mp hd₂)
      exact hnew _ hd₁
    · obtain rfl : d = c := congrArg Completion.client (List.mem_singleton.mp hd₁)
      exact hnew _ hd₂
    · cases (List.mem_singleton.mp hd₁).trans (List.mem_singleton.mp hd₂).symm
  have hne : ∀ {x}, x ∈ s.completed → some c ≠ some x.client := by
    rintro ⟨d, ok⟩ hx heq
    cases heq
    exact hnew ok hx
  cases ec with
  | true =>
    exact { hI with
      connecting := fun d hd => (by cases hd)
      clients := hclients
      unique := hunique
      waiting := fun d hd => ⟨hold (hI.waiting d hd).1, (hI.waiting d hd).2⟩
      success := fun d hd => ⟨hold (hI.success d hd).1, (hI.success d hd).2⟩
      fail := fun d hd => hold (hI.fail d hd)
      beforeUpdate := fun x hx => hold (hI.beforeUpdate hx) }
  | false =>
    have hslot : (s.asyncConnect false).asyncConnectSuccess = some c := hclient
    refine { hI with
      connecting := fun d hd => (by cases hd)
      clients := hclients
      unique := hunique
      waiting := fun d hd => ?_
      success := fun d hd => ⟨hold (hI.success d hd).1, (hI.success d hd).2⟩
      fail := fun d hd => hold (hI.fail d hd)
      beforeUpdate := fun x hx => hold (hI.beforeUpdate hx)
      taken := fun _ x hx => ?_
      takenLast := fun x hx => ⟨?_, (hI.takenLast x hx).2⟩ }
    · cases hslot.symm.trans hd
      exact ⟨List.mem_append_right _ List.mem_cons_self, fun hmem => hnew true (hI.success c hmem).1⟩
    · exact hslot ▸ hne (hI.beforeUpdate hx)
    · exact hslot ▸ hne (hI.beforeUpdate (hI.beforeLast hx))

theorem inv_step (hI : Inv s) (h : step cb s a = .ok t) : Inv t := by
  rcases step_cases hI h with ⟨-, rfl | ⟨started, hk, rfl⟩⟩ | ⟨ec, c, -, hk, rfl⟩ | ⟨-, timeout, closed, pkgs, rfl⟩ |
    ⟨-, rfl⟩
  · exact hI
  · refine { hI with connecting := ?_, clients := ?_, asyncClient := ?_ }
    · intro c hc
      split at hc <;> cases hc
      exact ⟨rfl, Nat.lt_succ_self _, fun ok hmem => Nat.lt_irrefl _ (hI.clients _ hmem)⟩
    · exact fun x hx => Nat.lt_succ_of_lt (hI.clients x hx)
    · intro c hc
      cases hc
      exact Nat.lt_succ_self _
  · exact inv_asyncConnect hI hk ec
  · exact ⟨hI.connecting, hI.clients, hI.asyncClient, hI.unique, hI.waiting, hI.success, hI.fail, hI.calls,
      hI.beforeUpdate, hI.beforeLast, hI.taken, hI.takenLast⟩
  · exact inv_update hI

/-! ### Steps and what is reported -/

theorem good_asyncConnect (hI : Inv s) {c : Nat} (hk : s.connecting = some c) (ec : Bool) :
    Good cb { s.asyncConnect ec with connecting := none, completed := s.completed ++ [⟨c, !ec⟩] } ↔
      Good cb s ∧ Reports cb s (.asyncConnect ec) := by
  obtain ⟨hclient, hlt, hnew⟩ := hI.connecting c hk
  cases ec with
  | true =>
    constructor
    · intro hg
      refine ⟨⟨hg.noFail, fun hcb d hd => hg.noFailed hcb d (List.mem_append_left _ hd), fun hcb d hd =>
        hg.success hcb d (List.mem_append_left _ hd)⟩, ?_⟩
      cases hcb : cb.syncConnectFail with
      | false => exact hcb
      | true => exact absurd (List.mem_append_right _ List.mem_cons_self) (hg.noFailed hcb c)
    · rintro ⟨hg, hr⟩
      refine ⟨hg.noFail, fun hcb => (by rw [show cb.syncConnectFail = false from hr] at hcb; cases hcb), fun hcb d hd => ?_⟩
      rcases List.mem_append.mp hd with hd | hd
      · exact hg.success hcb d hd
      · cases List.mem_singleton.mp hd
  | false =>
    have hslot : (s.asyncConnect false).asyncConnectSuccess = some c := hclient
    constructor
    · intro hg
      have hmem : ∀ d, cb.syncConnectSuccess = true → ⟨d, true⟩ ∈ s.completed → .connectSuccess d ∈ s.events := by
        intro d hcb hd
        refine (hg.success hcb d (List.mem_append_left _ hd)).resolve_left fun h => ?_
        cases hslot.symm.trans h
        exact hnew true hd
      refine ⟨⟨hg.noFail, fun hcb d hd => hg.noFailed hcb d (List.mem_append_left _ hd), fun hcb d hd =>
        Or.inr (hmem d hcb hd)⟩, fun hcb => ?_⟩
      cases hw : s.asyncConnectSuccess with
      | none => rfl
      | some d => exact absurd (hmem d hcb (hI.waiting d hw).1) (hI.waiting d hw).2
    · rintro ⟨hg, hr⟩
      refine ⟨hg.noFail, fun hcb d hd => ?_, fun hcb d hd => ?_⟩
      · rcases List.mem_append.mp hd with hd | hd
        · exact hg.noFailed hcb d hd
        · cases List.mem_singleton.mp hd
      · rcases List.mem_append.mp hd with hd | hd
        · refine Or.inr ((hg.success hcb d hd).resolve_left fun h => ?_)
          rw [hr hcb] at h
          cases h
        · cases List.mem_singleton.mp hd
          exact Or.inl hslot

/-- What is good or not is in the events, the ends of the attempts and the member. -/
theorem good_congr (hevents : t.events = s.events) (hcompleted : t.completed = s.completed)
    (hslot : t.asyncConnectSuccess = s.asyncConnectSuccess) : Good cb t ↔ Good cb s := by
  constructor
  · intro hg
    refine ⟨hevents ▸ hg.noFail, hcompleted ▸ hg.noFailed, fun hcb c hc => ?_⟩
    rw [← hslot, ← hevents]
    exact hg.success hcb c (hcompleted ▸ hc)
  · intro hg
    refine ⟨hevents ▸ hg.noFail, hcompleted ▸ hg.noFailed, fun hcb c hc => ?_⟩
    rw [hslot, hevents]
    exact hg.success hcb c (hcompleted ▸ hc)

theorem takes_iff {f g : ClientSync} {calls : List ClientSync} (htodo : s.todo = []) (hcalls : s.calls = f :: calls) :
    s.Takes g ↔ f = g := by
  simp [Takes, htodo, hcalls]

/-- A step that makes a callback, or begins an `update`, takes no member. -/
theorem reports_of_idle (h : s.todo ≠ [] ∨ s.calls = []) : Reports cb s .update := by
  rintro ⟨htodo, hcalls⟩
  rcases h with h | h
  · exact absurd htodo h
  · rw [h] at hcalls
    cases hcalls

variable (cb) in
theorem update_of_takes {f : ClientSync} (ht : s.Takes f) : (s.update cb).events = s.events ++ (s.sync cb f).1 ∧
    (s.update cb).completed = s.completed ∧ (s.update cb).asyncConnectSuccess =
      if f = .syncConnectSuccess ∨ f = .syncConnectFail then none else s.asyncConnectSuccess := by
  obtain ⟨htodo', hcalls'⟩ := ht
  rcases update_cases cb s with ⟨c, todo, htodo, -⟩ | ⟨g, calls, htodo, hcalls, timeout, closed, pkgs, hs⟩ | ⟨-, hcalls, -⟩
  · cases htodo.symm.trans htodo'
  · obtain rfl := (takes_iff htodo hcalls).mp ⟨htodo', hcalls'⟩
    rw [hs]
    exact ⟨by simp [events, htodo], rfl, rfl⟩
  · rw [hcalls] at hcalls'
    cases hcalls'

theorem good_sync {f : ClientSync} (hI : Inv s) (ht : s.Takes f) :
    Good cb (s.update cb) ↔ Good cb s ∧ Reports cb s .update := by
  obtain ⟨hevents, hcompleted, hslot⟩ := update_of_takes cb ht
  have htakes : s.Takes .syncConnectFail ↔ f = .syncConnectFail :=
    ⟨fun h => Option.some.inj (ht.2.symm.trans h.2), fun h => h ▸ ht⟩
  constructor
  · intro hg
    have hnoFail := hg.noFail
    have hsuccess := hg.success
    rw [hevents] at hnoFail hsuccess
    rw [hslot, hcompleted] at hsuccess
    refine ⟨⟨fun c hc => hnoFail c (List.mem_append_left _ hc), hcompleted ▸ hg.noFailed, fun hcb c hc => ?_⟩, ?_⟩
    · rcases hsuccess hcb c hc with h | h
      · split at h
        · cases h
        · exact Or.inl h
      · exact (List.mem_append.mp h).symm.imp_left fun h => (connectSuccess_mem_sync.mp h).2.2
    · intro hfail hcb
      obtain rfl := htakes.mp hfail
      cases hw : s.asyncConnectSuccess with
      | none => rfl
      | some c =>
        rcases hcb with hcb | hcb
        · rcases hsuccess hcb c (hI.waiting c hw).1 with h | h
          · simp at h
          · rcases List.mem_append.mp h with h | h
            · exact absurd h (hI.waiting c hw).2
            · cases (connectSuccess_mem_sync.mp h).1
        · exact absurd (List.mem_append_right _ (connectFail_mem_sync.mpr ⟨rfl, hcb, hw⟩)) (hnoFail c)
  · rintro ⟨hg, hr⟩
    refine ⟨fun c hc => ?_, hcompleted ▸ hg.noFailed, fun hcb c hc => ?_⟩
    · rw [hevents] at hc
      rcases List.mem_append.mp hc with hc | hc
      · exact hg.noFail c hc
      · obtain ⟨hf, hcb, hw⟩ := connectFail_mem_sync.mp hc
        rw [hr (htakes.mpr hf) (Or.inr hcb)] at hw
        cases hw
    · rw [hcompleted] at hc
      rw [hslot, hevents]
      rcases hg.success hcb c hc with h | h
      · by_cases hf : f = .syncConnectSuccess
        · exact Or.inr (List.mem_append_right _ (connectSuccess_mem_sync.mpr ⟨hf, hcb, h⟩))
        · have hfail : f ≠ .syncConnectFail := by
            intro hf
            rw [hr (htakes.mpr hf) (Or.inl hcb)] at h
            cases h
          exact Or.inl (by rw [if_neg (by simp [hf, hfail]), h])
      · exact Or.inr (List.mem_append_left _ h)

theorem good_update (hI : Inv s) : Good cb (s.update cb) ↔ Good cb s ∧ Reports cb s .update := by
  rcases update_cases cb s with ⟨c, todo, htodo, hs⟩ | ⟨f, calls, htodo, hcalls, -⟩ | ⟨htodo, hcalls, hs⟩
  · have hevents : (s.update cb).events = s.events := by simp [hs, events, htodo]
    rw [and_iff_left (reports_of_idle (Or.inl (htodo ▸ List.cons_ne_nil c todo)))]
    exact good_congr hevents (by rw [hs]) (by rw [hs])
  · exact good_sync hI ((takes_iff htodo hcalls).mpr rfl)
  · rw [and_iff_left (reports_of_idle (Or.inr hcalls)), hs]
    exact good_congr rfl rfl rfl

theorem good_step (hI : Inv s) (h : step cb s a = .ok t) : Good cb t ↔ Good cb s ∧ Reports cb s a := by
  rcases step_cases hI h with ⟨hr, rfl | ⟨started, hk, rfl⟩⟩ | ⟨ec, c, rfl, hk, rfl⟩ | ⟨hr, timeout, closed, pkgs, rfl⟩ |
    ⟨rfl, rfl⟩
  · exact (and_iff_left hr).symm
  · rw [and_iff_left hr]
    exact good_congr rfl rfl rfl
  · exact good_asyncConnect hI hk ec
  · rw [and_iff_left hr]
    exact good_congr rfl rfl rfl
  · exact good_update hI

/-! ### Runs -/

/-- What is due is no longer in the member, nor is its callback still to be made. -/
theorem callback_of_due (hI : Inv s) (hg : Good cb s) (hcb : cb.syncConnectSuccess = true) {c : Nat}
    (hc : ⟨c, true⟩ ∈ s.due) : .connectSuccess c ∈ s.callbacks := by
  unfold due at hc
  split at hc
  · rename_i hidle
    rcases hg.success hcb c (hI.beforeUpdate hc) with h | h
    · exact absurd h (hI.taken (by simp [hidle.2]) _ hc)
    · simpa [events, hidle.1] using h
  · obtain ⟨hslot, htodo⟩ := hI.takenLast _ hc
    rcases hg.success hcb c (hI.beforeUpdate (hI.beforeLast hc)) with h | h
    · exact absurd h hslot
    · exact (List.mem_append.mp h).resolve_right htodo

theorem due_subset (hI : Inv s) : s.due ⊆ s.completed := by
  unfold due
  split
  · exact hI.beforeUpdate
  · exact fun x hx => hI.beforeUpdate (hI.beforeLast hx)

theorem reported_of_good (hI : Inv s) (hg : Good cb s) : Reported cb s := by
  have hevent : ∀ {c}, c ∈ s.callbacks → c ∈ s.events := List.mem_append_left _
  have hcount : ∀ c, .connectSuccess c ∈ s.callbacks → s.callbacks.count (.connectSuccess c) = 1 := by
    intro c hc
    have hle : s.callbacks.count (.connectSuccess c) ≤ s.events.count (.connectSuccess c) :=
      (List.sublist_append_left _ _).count_le _
    have hpos := List.count_pos_iff.mpr hc
    rw [(hI.success c (hevent hc)).2] at hle
    omega
  exact {
    success := fun c hc => ⟨(hI.success c (hevent hc)).1, hcount c hc⟩
    fail := fun c hc => absurd (hevent hc) (hg.noFail c)
    notFail := fun c _ hc => hg.noFail c (hevent hc)
    notSuccess := fun c hc hmem => hI.unique c (hI.success c (hevent hmem)).1 hc
    dueSuccess := fun hcb c hc => hcount c (callback_of_due hI hg hcb hc)
    dueFail := fun hcb c hc => absurd (due_subset hI hc) (hg.noFailed hcb c) }

theorem good_of_reported (hI : Inv s) (htodo : s.todo = []) (hcalls : s.calls = []) (hall : s.beforeUpdate = s.completed)
    (hr : Reported cb s) : Good cb s := by
  have hevents : s.events = s.callbacks := by simp [events, htodo]
  have hdue : s.due = s.completed := by simp [due, htodo, hcalls, hall]
  have hmem : ∀ {c}, s.callbacks.count c = 1 → c ∈ s.callbacks := fun h => List.count_pos_iff.mp (by omega)
  have hfail : ∀ c, .connectFail c ∉ s.callbacks := fun c hc => hr.notFail c (hI.fail c (hevents ▸ hc)) hc
  refine ⟨hevents ▸ hfail, fun hcb c hc => ?_, fun hcb c hc => Or.inr ?_⟩
  · exact hfail c (hmem (hr.dueFail hcb c (hdue ▸ hc)))
  · exact hevents ▸ hmem (hr.dueSuccess hcb c (hdue ▸ hc))

/-- If no attempt fails, none succeeds while a success waits, and none waits when `syncConnectFail` is
    called, each attempt is reported as it ended, once, when a complete `update` has run since. The
    converse holds when such an `update` has run since the last attempt ended. -/
theorem connect_reported {as : List Action} (h : run (step cb) {} as = .ok s) :
    (Along (step cb) (Reports cb) {} as → Reported cb s) ∧
    (s.todo = [] → s.calls = [] → s.beforeUpdate = s.completed → Reported cb s → Along (step cb) (Reports cb) {} as) := by
  have hI : Inv s := run_invariant (fun hI _ hs => inv_step hI hs) inv_init (along_true _ _) h
  have hgood : Good cb {} := ⟨by simp [events], by simp, by simp⟩
  have hiff := (run_iff_along inv_step good_step inv_init h).trans (and_iff_right hgood)
  exact ⟨fun ha => reported_of_good hI (hiff.mpr ha), fun htodo hcalls hall hr =>
    hiff.mp (good_of_reported hI htodo hcalls hall hr)⟩

end

/-- An attempt that succeeds, and an `update`. -/
theorem connect_reported_one :
    let as := [.connect true, .asyncConnect false, .update, .update, .update, .update, .update, .update, .update]
    let s : CallbackClient := {
      asyncClient := some 0
      clients := 1
      callbacks := [.connectSuccess 0]
      completed := [⟨0, true⟩]
      beforeUpdate := [⟨0, true⟩] }
    (Along (step {}) (Reports {}) {} as → Reported {} s) ∧
    (s.todo = [] → s.calls = [] → s.beforeUpdate = s.completed → Reported {} s → Along (step {}) (Reports {}) {} as) :=
  connect_reported (by rfl)

/-- An attempt that fails is not reported by the `update` that follows. -/
theorem connectFail_not_reported : ¬∀ (cb : ClientCallbacks) (as : List Action) (s : CallbackClient),
    run (step cb) {} as = .ok s → Reported cb s := by
  intro h
  have hr := h {} [.connect true, .asyncConnect true, .update, .update, .update, .update, .update, .update]
    { asyncClient := some 0
      asyncConnectFail := some 0
      clients := 1
      completed := [⟨0, false⟩]
      beforeUpdate := [⟨0, false⟩] } (by rfl)
  exact absurd (hr.dueFail rfl 0 List.mem_cons_self) (by decide)

end Zylib.StreamServer.CallbackClient
