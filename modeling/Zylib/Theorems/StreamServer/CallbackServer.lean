import Zylib.StreamServer.CallbackServer
import Zylib.Lib.Log
import Zylib.Lib.Run

/-! The order of the callbacks that `CallbackServer::update` makes for a handler. The four queues are
    taken one after the other, each under the lock for itself: the order of the pushes is kept only
    if what was pushed later does not go first. -/

namespace Zylib.StreamServer.CallbackServer
open Log Run

/-- The callbacks made, and those that the current call of `update` makes next. -/
def events (s : CallbackServer) : List Callback := s.callbacks ++ s.todo

section
variable (cb : Callbacks)

/-- A message callback comes after the accept callback of its handler, and not after that of its end. -/
def MsgInOrder (pre : List Callback) : Callback → Prop
  | .receivedMsg hdl _ => (cb.syncAccept = true → .accept hdl ∈ pre) ∧ .timeout hdl ∉ pre ∧ .closed hdl ∉ pre
  | _ => True

/-- The callback of the end of a handler comes after its accept callback. -/
def EndInOrder (pre : List Callback) : Callback → Prop
  | .timeout hdl => cb.syncAccept = true → .accept hdl ∈ pre
  | .closed hdl => cb.syncAccept = true → .accept hdl ∈ pre
  | _ => True

/-- The next step of the main thread takes the queue of `f`. -/
def Takes (s : CallbackServer) (f : Sync) : Prop := s.todo = [] ∧ s.calls.head? = some f

/-- A message of the handler waits that has a callback. -/
def HasMsg (s : CallbackServer) (hdl : Hdl) : Prop := ∃ pkg ∈ s.receivedMsg, pkg.hdl = hdl ∧ msgCallbacks cb pkg ≠ []

/-- No message is left behind that was received before the end that is taken, and none is taken whose
    handler is still to be accepted. -/
structure TakesMsgInOrder (s : CallbackServer) : Prop where
  timeout : s.Takes .syncTimeout → cb.syncTimeout = true → ∀ hdl ∈ s.hdlTimeout, ¬s.HasMsg cb hdl
  closed : s.Takes .syncClosed → cb.syncClosed = true → ∀ hdl ∈ s.hdlClosed, ¬s.HasMsg cb hdl
  receivedMsg : s.Takes .syncReceivedMsg → cb.syncAccept = true → ∀ hdl ∈ s.hdlAccept, ¬s.HasMsg cb hdl

/-- No end is taken of a handler that is still to be accepted. -/
structure TakesEndInOrder (s : CallbackServer) : Prop where
  timeout : s.Takes .syncTimeout → cb.syncTimeout = true → cb.syncAccept = true → ∀ hdl ∈ s.hdlTimeout, hdl ∉ s.hdlAccept
  closed : s.Takes .syncClosed → cb.syncClosed = true → cb.syncAccept = true → ∀ hdl ∈ s.hdlClosed, hdl ∉ s.hdlAccept

def MsgStep (s : CallbackServer) (a : Action) : Prop := a = .update → s.TakesMsgInOrder cb

def EndStep (s : CallbackServer) (a : Action) : Prop := a = .update → s.TakesEndInOrder cb

/-- An event, made or to be made, that a handler has ended. -/
def EndEvent (s : CallbackServer) (hdl : Hdl) : Prop := .timeout hdl ∈ s.events ∨ .closed hdl ∈ s.events

structure Inv (s : CallbackServer) : Prop where
  hdlAccept : ∀ hdl ∈ s.hdlAccept, hdl ∈ s.accepted
  accepted : cb.syncAccept = true → ∀ hdl ∈ s.accepted, hdl ∈ s.hdlAccept ∨ .accept hdl ∈ s.events
  acceptEvent : ∀ hdl, .accept hdl ∈ s.events → hdl ∈ s.accepted ∧ hdl ∉ s.hdlAccept
  packages : ∀ pkg ∈ s.receivedMsg, pkg.hdl ∈ s.accepted
  hdlTimeout : ∀ hdl ∈ s.hdlTimeout, hdl ∈ s.ended
  hdlClosed : ∀ hdl ∈ s.hdlClosed, hdl ∈ s.ended
  endEvent : ∀ hdl, s.EndEvent hdl → hdl ∈ s.ended
  ended : ∀ hdl ∈ s.ended, hdl ∈ s.accepted
  calls : s.calls <:+ updateCalls
  late : .syncReceivedMsg ∉ s.calls → ∀ hdl, s.EndEvent hdl → ∀ pkg ∈ s.receivedMsg, pkg.hdl ≠ hdl

end

section
variable {cb : Callbacks} {s t : CallbackServer} {a : Action}

theorem step_cases (h : step cb s a = .ok t) :
    (∃ hdl, a = .accept hdl ∧ hdl ∉ s.accepted ∧ t = { s.asyncAccept hdl with accepted := s.accepted ++ [hdl] }) ∨
    (∃ hdl msgList, a = .receivedMsg hdl msgList ∧ hdl ∈ s.accepted ∧ hdl ∉ s.ended ∧
      t = s.asyncReceivedMsg hdl msgList) ∨
    (∃ hdl, hdl ∈ s.accepted ∧ hdl ∉ s.ended ∧ (a = .timeout hdl ∧ t = { s.asyncTimeout hdl with ended := s.ended ++ [hdl] } ∨
      a = .closed hdl ∧ t = { s.asyncClosed hdl with ended := s.ended ++ [hdl] })) ∨
    (a = .update ∧ t = s.update cb) := by
  cases a with
  | accept hdl =>
    simp only [step] at h
    split at h <;> cases h
    exact Or.inl ⟨hdl, rfl, ‹_›, rfl⟩
  | receivedMsg hdl msgList =>
    simp only [step] at h
    split at h <;> cases h
    rename_i hnew
    exact Or.inr (Or.inl ⟨hdl, msgList, rfl, hnew.1, hnew.2, rfl⟩)
  | timeout hdl =>
    simp only [step] at h
    split at h <;> cases h
    rename_i hnew
    exact Or.inr (Or.inr (Or.inl ⟨hdl, hnew.1, hnew.2, Or.inl ⟨rfl, rfl⟩⟩))
  | closed hdl =>
    simp only [step] at h
    split at h <;> cases h
    rename_i hnew
    exact Or.inr (Or.inr (Or.inl ⟨hdl, hnew.1, hnew.2, Or.inr ⟨rfl, rfl⟩⟩))
  | update =>
    cases h
    exact Or.inr (Or.inr (Or.inr ⟨rfl, rfl⟩))

variable (cb) in
/-- What a step of the main thread does: a callback, the next call of `update`, or a new `update`. -/
theorem update_cases (s : CallbackServer) :
    (∃ c todo, s.todo = c :: todo ∧ s.update cb = { s with todo, callbacks := s.callbacks ++ [c] }) ∨
    (∃ f calls, s.todo = [] ∧ s.calls = f :: calls ∧
      s.update cb = { s with
        hdlAccept := if f = .syncAccept then [] else s.hdlAccept
        hdlTimeout := if f = .syncTimeout then [] else s.hdlTimeout
        hdlClosed := if f = .syncClosed then [] else s.hdlClosed
        receivedMsg := if f = .syncReceivedMsg then [] else s.receivedMsg
        todo := (s.sync cb f).1
        calls }) ∨
    (s.todo = [] ∧ s.calls = [] ∧ s.update cb = { s with calls := updateCalls }) := by
  unfold update
  cases h : s.todo with
  | cons c todo => exact Or.inl ⟨c, todo, rfl, rfl⟩
  | nil =>
    cases hc : s.calls with
    | cons f calls => exact Or.inr (Or.inl ⟨f, calls, rfl, rfl, by cases f <;> rfl⟩)
    | nil => exact Or.inr (Or.inr ⟨rfl, rfl, rfl⟩)

/-! ### What a call takes -/

theorem accept_mem_sync {f : Sync} {hdl : Hdl} :
    .accept hdl ∈ (s.sync cb f).1 ↔ f = .syncAccept ∧ cb.syncAccept = true ∧ hdl ∈ s.hdlAccept := by
  cases f <;> simp [sync, syncAccept, syncTimeout, syncClosed, syncReceivedMsg, msgCallbacks]

theorem timeout_mem_sync {f : Sync} {hdl : Hdl} :
    .timeout hdl ∈ (s.sync cb f).1 ↔ f = .syncTimeout ∧ cb.syncTimeout = true ∧ hdl ∈ s.hdlTimeout := by
  cases f <;> simp [sync, syncAccept, syncTimeout, syncClosed, syncReceivedMsg, msgCallbacks]

theorem closed_mem_sync {f : Sync} {hdl : Hdl} :
    .closed hdl ∈ (s.sync cb f).1 ↔ f = .syncClosed ∧ cb.syncClosed = true ∧ hdl ∈ s.hdlClosed := by
  cases f <;> simp [sync, syncAccept, syncTimeout, syncClosed, syncReceivedMsg, msgCallbacks]

theorem receivedMsg_mem_sync {f : Sync} {hdl : Hdl} {msg : CallbackMessage} (h : .receivedMsg hdl msg ∈ (s.sync cb f).1) :
    f = .syncReceivedMsg ∧ s.HasMsg cb hdl := by
  cases f with
  | syncReceivedMsg =>
    obtain ⟨pkg, hpkg, hmem⟩ := List.mem_flatMap.mp h
    refine ⟨rfl, pkg, hpkg, ?_, List.ne_nil_of_mem hmem⟩
    obtain ⟨msg', -, heq⟩ := List.mem_map.mp hmem
    cases heq
    rfl
  | _ => simp [sync, syncAccept, syncTimeout, syncClosed] at h

theorem exists_receivedMsg_of_hasMsg {hdl : Hdl} (h : s.HasMsg cb hdl) :
    ∃ msg, .receivedMsg hdl msg ∈ (s.sync cb .syncReceivedMsg).1 := by
  obtain ⟨pkg, hpkg, rfl, hne⟩ := h
  obtain ⟨c, hc⟩ := List.exists_mem_of_ne_nil _ hne
  obtain ⟨msg, -, rfl⟩ := List.mem_map.mp hc
  exact ⟨msg, List.mem_flatMap.mpr ⟨pkg, hpkg, hc⟩⟩

/-! ### The invariant -/

theorem inv_init : Inv cb {} := by
  constructor <;> simp [events, EndEvent, updateCalls]

theorem receivedMsg_mem_of_suffix {l : List Sync} (h : l <:+ updateCalls) (hl : l ≠ []) : .syncReceivedMsg ∈ l := by
  have hlast : l.getLast hl = .syncReceivedMsg := h.getLast hl
  exact hlast ▸ List.getLast_mem hl

theorem inv_update (hI : Inv cb s) : Inv cb (s.update cb) := by
  rcases update_cases cb s with ⟨c, todo, htodo, hs⟩ | ⟨f, calls, htodo, hcalls, hs⟩ | ⟨htodo, hcalls, hs⟩ <;> rw [hs]
  · -- A callback that is made was already counted as an event.
    have hevents : events { s with todo, callbacks := s.callbacks ++ [c] } = s.events := by simp [events, htodo]
    constructor <;> simp only [EndEvent, hevents]
    exacts [hI.hdlAccept, hI.accepted, hI.acceptEvent, hI.packages, hI.hdlTimeout, hI.hdlClosed, hI.endEvent, hI.ended,
      hI.calls, hI.late]
  · have hevents : ∀ c, c ∈ s.callbacks ++ (s.sync cb f).1 ↔ c ∈ s.events ∨ c ∈ (s.sync cb f).1 := by simp [events, htodo]
    constructor <;> simp only [EndEvent, events, hevents, accept_mem_sync, timeout_mem_sync, closed_mem_sync,
      List.mem_ite_nil_left]
    · exact fun hdl hmem => hI.hdlAccept hdl hmem.2
    · intro hcb hdl hmem
      rcases hI.accepted hcb hdl hmem with h | h
      · by_cases hf : f = .syncAccept
        · exact Or.inr (Or.inr ⟨hf, hcb, h⟩)
        · exact Or.inl ⟨hf, h⟩
      · exact Or.inr (Or.inl h)
    · rintro hdl (h | ⟨hf, -, h⟩)
      · exact ⟨(hI.acceptEvent hdl h).1, fun hmem => (hI.acceptEvent hdl h).2 hmem.2⟩
      · exact ⟨hI.hdlAccept hdl h, fun hmem => hmem.1 hf⟩
    · exact fun pkg hpkg => hI.packages pkg hpkg.2
    · exact fun hdl hmem => hI.hdlTimeout hdl hmem.2
    · exact fun hdl hmem => hI.hdlClosed hdl hmem.2
    · rintro hdl ((h | ⟨-, -, h⟩) | (h | ⟨-, -, h⟩))
      · exact hI.endEvent hdl (Or.inl h)
      · exact hI.hdlTimeout hdl h
      · exact hI.endEvent hdl (Or.inr h)
      · exact hI.hdlClosed hdl h
    · exact hI.ended
    · exact (List.suffix_cons f calls).trans (hcalls ▸ hI.calls)
    · rintro hlast - - pkg ⟨hf, -⟩
      rcases List.mem_cons.mp (receivedMsg_mem_of_suffix (hcalls ▸ hI.calls) (List.cons_ne_nil f calls)) with h | h
      · exact absurd h.symm hf
      · exact absurd h hlast
  · exact { hI with
      calls := List.suffix_rfl
      late := fun h => absurd h (by simp [updateCalls]) }

theorem inv_step (hI : Inv cb s) (h : step cb s a = .ok t) : Inv cb t := by
  rcases step_cases h with ⟨hdl, -, hnew, rfl⟩ | ⟨hdl, msgList, -, hacc, hend, rfl⟩ |
    ⟨hdl, hacc, hend, ⟨-, rfl⟩ | ⟨-, rfl⟩⟩ | ⟨-, rfl⟩
  · refine { hI with hdlAccept := ?_, accepted := ?_, acceptEvent := ?_, packages := ?_, ended := ?_ }
    · intro x hx
      exact List.mem_append.mpr ((List.mem_append.mp hx).imp_left (hI.hdlAccept x))
    · intro hcb x hx
      rcases List.mem_append.mp hx with hx | hx
      · exact (hI.accepted hcb x hx).imp_left (List.mem_append_left _)
      · exact Or.inl (List.mem_append_right _ hx)
    · intro x hx
      have hold := hI.acceptEvent x hx
      refine ⟨List.mem_append_left _ hold.1, fun hmem => ?_⟩
      rcases List.mem_append.mp hmem with hmem | hmem
      · exact hold.2 hmem
      · exact hnew (List.mem_singleton.mp hmem ▸ hold.1)
    · exact fun pkg hpkg => List.mem_append_left _ (hI.packages pkg hpkg)
    · exact fun x hx => List.mem_append_left _ (hI.ended x hx)
  · have hpkg : ∀ {pkg}, pkg ∈ s.receivedMsg ++ [⟨hdl, msgList⟩] → pkg ∈ s.receivedMsg ∨ pkg.hdl = hdl := by
      intro pkg hpkg
      exact (List.mem_append.mp hpkg).imp_right fun h => by rw [List.mem_singleton.mp h]
    refine { hI with packages := ?_, late := ?_ }
    · intro pkg hmem
      rcases hpkg hmem with hmem | hmem
      · exact hI.packages pkg hmem
      · exact hmem ▸ hacc
    · intro hcalls x hx pkg hmem
      rcases hpkg hmem with hmem | hmem
      · exact hI.late hcalls x hx pkg hmem
      · rintro rfl
        exact hend (hmem ▸ hI.endEvent _ hx)
  · refine { hI with hdlTimeout := ?_, hdlClosed := ?_, endEvent := ?_, ended := ?_ }
    · intro x hx
      exact List.mem_append.mpr ((List.mem_append.mp hx).imp_left (hI.hdlTimeout x))
    · exact fun x hx => List.mem_append_left _ (hI.hdlClosed x hx)
    · exact fun x hx => List.mem_append_left _ (hI.endEvent x hx)
    · intro x hx
      rcases List.mem_append.mp hx with hx | hx
      · exact hI.ended x hx
      · exact List.mem_singleton.mp hx ▸ hacc
  · refine { hI with hdlTimeout := ?_, hdlClosed := ?_, endEvent := ?_, ended := ?_ }
    · exact fun x hx => List.mem_append_left _ (hI.hdlTimeout x hx)
    · intro x hx
      exact List.mem_append.mpr ((List.mem_append.mp hx).imp_left (hI.hdlClosed x))
    · exact fun x hx => List.mem_append_left _ (hI.endEvent x hx)
    · intro x hx
      rcases List.mem_append.mp hx with hx | hx
      · exact hI.ended x hx
      · exact List.mem_singleton.mp hx ▸ hacc
  · exact inv_update hI

/-! ### Steps and the order of the callbacks -/

variable (cb) in
/-- The messages are in order so far, and those that wait can still be. -/
def MsgGood (s : CallbackServer) : Prop :=
  Respects (MsgInOrder cb) s.events ∧ ∀ hdl, s.EndEvent hdl → ¬s.HasMsg cb hdl

variable (cb) in
def EndGood (s : CallbackServer) : Prop := Respects (EndInOrder cb) s.events

theorem msgInOrder_append {pre es : List Callback} (hes : ∀ c ∈ es, ∃ hdl msg, c = .receivedMsg hdl msg) (e : Callback) :
    MsgInOrder cb (pre ++ es) e ↔ MsgInOrder cb pre e := by
  have hmem : ∀ {c}, (∀ hdl msg, c ≠ .receivedMsg hdl msg) → (c ∈ pre ++ es ↔ c ∈ pre) := by
    intro c hc
    refine ⟨fun h => (List.mem_append.mp h).resolve_right fun h => ?_, List.mem_append_left _⟩
    obtain ⟨hdl, msg, rfl⟩ := hes c h
    exact hc hdl msg rfl
  cases e <;> simp [MsgInOrder, hmem, -List.mem_append]

theorem endInOrder_append {pre es : List Callback} (hes : ∀ hdl, .accept hdl ∉ es) (e : Callback) :
    EndInOrder cb (pre ++ es) e ↔ EndInOrder cb pre e := by
  cases e <;> simp [EndInOrder, hes]

theorem hasMsg_accepted (hI : Inv cb s) {hdl : Hdl} (h : s.HasMsg cb hdl) : hdl ∈ s.accepted := by
  obtain ⟨pkg, hpkg, rfl, -⟩ := h
  exact hI.packages pkg hpkg

/-- The messages that `syncReceivedMsg` takes are in order if and only if nothing that should go first
    is left in the queues, and nothing that should go last is gone. -/
theorem sync_receivedMsg_inOrder (hI : Inv cb s) :
    (∀ e ∈ (s.sync cb .syncReceivedMsg).1, MsgInOrder cb s.events e) ↔
      (∀ hdl, s.EndEvent hdl → ¬s.HasMsg cb hdl) ∧ (cb.syncAccept = true → ∀ hdl ∈ s.hdlAccept, ¬s.HasMsg cb hdl) := by
  constructor
  · intro h
    have hmsg : ∀ {hdl}, s.HasMsg cb hdl → (cb.syncAccept = true → .accept hdl ∈ s.events) ∧ ¬s.EndEvent hdl := by
      intro hdl hhas
      obtain ⟨msg, hmem⟩ := exists_receivedMsg_of_hasMsg hhas
      obtain ⟨hacc, hto, hcl⟩ := h _ hmem
      exact ⟨hacc, fun hend => hend.elim hto hcl⟩
    refine ⟨fun hdl hend hhas => (hmsg hhas).2 hend, fun hcb hdl hmem hhas => ?_⟩
    exact (hI.acceptEvent hdl ((hmsg hhas).1 hcb)).2 hmem
  · rintro ⟨hend, hacc⟩ e he
    cases e with
    | receivedMsg hdl msg =>
      have hhas := (receivedMsg_mem_sync he).2
      refine ⟨fun hcb => ?_, fun h => hend hdl (Or.inl h) hhas, fun h => hend hdl (Or.inr h) hhas⟩
      rcases hI.accepted hcb hdl (hasMsg_accepted hI hhas) with h | h
      · exact absurd hhas (hacc hcb hdl h)
      · exact h
    | _ => trivial

theorem takes_iff {f g : Sync} {calls : List Sync} (htodo : s.todo = []) (hcalls : s.calls = f :: calls) :
    s.Takes g ↔ f = g := by
  simp [Takes, htodo, hcalls]

/-- A step that makes a callback, or begins an `update`, takes no queue. -/
theorem not_takes (h : s.todo ≠ [] ∨ s.calls = []) (f : Sync) : ¬s.Takes f := by
  rintro ⟨htodo, hcalls⟩
  rcases h with h | h
  · exact h htodo
  · rw [h] at hcalls
    cases hcalls

theorem takesMsgInOrder_of_idle (h : s.todo ≠ [] ∨ s.calls = []) : s.TakesMsgInOrder cb :=
  ⟨fun ht => absurd ht (not_takes h _), fun ht => absurd ht (not_takes h _), fun ht => absurd ht (not_takes h _)⟩

theorem takesEndInOrder_of_idle (h : s.todo ≠ [] ∨ s.calls = []) : s.TakesEndInOrder cb :=
  ⟨fun ht => absurd ht (not_takes h _), fun ht => absurd ht (not_takes h _)⟩

variable (cb) in
theorem update_of_takes {f : Sync} (ht : s.Takes f) : (s.update cb).events = s.events ++ (s.sync cb f).1 ∧
    (s.update cb).receivedMsg = if f = .syncReceivedMsg then [] else s.receivedMsg := by
  rcases update_cases cb s with ⟨c, todo, htodo, -⟩ | ⟨g, calls, htodo, hcalls, hs⟩ | ⟨-, hcalls, -⟩
  · exact absurd ht (not_takes (Or.inl (htodo ▸ List.cons_ne_nil c todo)) f)
  · obtain rfl := (takes_iff htodo hcalls).mp ht
    rw [hs]
    exact ⟨by simp [events, htodo], rfl⟩
  · exact absurd ht (not_takes (Or.inr hcalls) f)

theorem takes_unique {f g : Sync} (hf : s.Takes f) (hg : s.Takes g) : f = g :=
  Option.some.inj (hf.2.symm.trans hg.2)

theorem msgGood_syncReceivedMsg (hI : Inv cb s) (ht : s.Takes .syncReceivedMsg) :
    MsgGood cb (s.update cb) ↔ MsgGood cb s ∧ s.TakesMsgInOrder cb := by
  obtain ⟨hevents, hmsgs⟩ := update_of_takes cb ht
  have hes : ∀ c ∈ (s.sync cb .syncReceivedMsg).1, ∃ hdl msg, c = .receivedMsg hdl msg := by
    intro c hc
    obtain ⟨pkg, -, hc⟩ := List.mem_flatMap.mp hc
    obtain ⟨msg, -, rfl⟩ := List.mem_map.mp hc
    exact ⟨pkg.hdl, msg, rfl⟩
  have hrespects : Respects (MsgInOrder cb) (s.events ++ (s.sync cb .syncReceivedMsg).1) ↔
      Respects (MsgInOrder cb) s.events ∧ ∀ e ∈ (s.sync cb .syncReceivedMsg).1, MsgInOrder cb s.events e :=
    respects_append_iff fun pre e hpre =>
      msgInOrder_append (fun c hc => hes c (hpre.subset (List.mem_append_left _ hc))) e
  have hempty : ∀ hdl, ¬(s.update cb).HasMsg cb hdl := by simp [HasMsg, hmsgs]
  unfold MsgGood
  rw [hevents, hrespects, sync_receivedMsg_inOrder hI]
  constructor
  · rintro ⟨⟨hgood, hend, hacc⟩, -⟩
    exact ⟨⟨hgood, hend⟩, fun h => (by cases takes_unique h ht), fun h => (by cases takes_unique h ht), fun _ => hacc⟩
  · rintro ⟨⟨hgood, hend⟩, htake⟩
    exact ⟨⟨hgood, hend, htake.receivedMsg ht⟩, fun hdl _ => hempty hdl⟩

/-- A queue that holds no messages: the handlers that end must have none left. -/
theorem msgGood_sync {f : Sync} (ht : s.Takes f) (hf : f ≠ .syncReceivedMsg) :
    MsgGood cb (s.update cb) ↔ MsgGood cb s ∧ s.TakesMsgInOrder cb := by
  obtain ⟨hevents, hmsgs⟩ := update_of_takes cb ht
  rw [if_neg hf] at hmsgs
  have hes : ∀ e ∈ (s.sync cb f).1, ∀ pre, MsgInOrder cb pre e := by
    intro e he pre
    cases e with
    | receivedMsg hdl msg => exact absurd (receivedMsg_mem_sync he).1 hf
    | _ => trivial
  unfold MsgGood EndEvent HasMsg
  rw [hevents, hmsgs, respects_append]
  constructor
  · rintro ⟨⟨hgood, -⟩, hend⟩
    refine ⟨⟨hgood, fun hdl h => hend hdl ?_⟩, fun hg hcb hdl hmem => hend hdl (Or.inl ?_),
      fun hg hcb hdl hmem => hend hdl (Or.inr ?_), fun hg => absurd (takes_unique ht hg) hf⟩
    · exact h.imp (List.mem_append_left _) (List.mem_append_left _)
    · exact List.mem_append_right _ (timeout_mem_sync.mpr ⟨takes_unique ht hg, hcb, hmem⟩)
    · exact List.mem_append_right _ (closed_mem_sync.mpr ⟨takes_unique ht hg, hcb, hmem⟩)
  · rintro ⟨⟨hgood, hend⟩, htake⟩
    refine ⟨⟨hgood, fun pre e hpre => hes e (hpre.subset (List.mem_append_right _ List.mem_cons_self)) _⟩, ?_⟩
    intro hdl h
    rw [List.mem_append, List.mem_append, timeout_mem_sync, closed_mem_sync] at h
    rcases h with (h | ⟨rfl, hcb, hmem⟩) | (h | ⟨rfl, hcb, hmem⟩)
    · exact hend hdl (Or.inl h)
    · exact htake.timeout ht hcb hdl hmem
    · exact hend hdl (Or.inr h)
    · exact htake.closed ht hcb hdl hmem

/-- The messages are in order after a step if and only if they were before and the step, if it takes
    a queue, leaves no message or accept behind that should go first. -/
theorem msgGood_update (hI : Inv cb s) : MsgGood cb (s.update cb) ↔ MsgGood cb s ∧ s.TakesMsgInOrder cb := by
  rcases update_cases cb s with ⟨c, todo, htodo, hs⟩ | ⟨f, calls, htodo, hcalls, -⟩ | ⟨htodo, hcalls, hs⟩
  · have hevents : (s.update cb).events = s.events := by simp [hs, events, htodo]
    unfold MsgGood EndEvent HasMsg
    rw [hevents, hs]
    exact (and_iff_left (takesMsgInOrder_of_idle (Or.inl (htodo ▸ List.cons_ne_nil c todo)))).symm
  · have ht : s.Takes f := (takes_iff htodo hcalls).mpr rfl
    by_cases hf : f = .syncReceivedMsg
    · exact msgGood_syncReceivedMsg hI (hf ▸ ht)
    · exact msgGood_sync ht hf
  · rw [hs]
    exact (and_iff_left (takesMsgInOrder_of_idle (Or.inr hcalls))).symm

theorem endGood_syncAccept (ht : s.Takes .syncAccept) : EndGood cb (s.update cb) ↔ EndGood cb s ∧ s.TakesEndInOrder cb := by
  have hes : ∀ e ∈ (s.sync cb .syncAccept).1, ∀ pre, EndInOrder cb pre e := by
    intro e he pre
    simp only [sync, syncAccept, List.mem_ite_nil_right, List.mem_map] at he
    obtain ⟨-, hdl, -, rfl⟩ := he
    trivial
  have htake : s.TakesEndInOrder cb := ⟨fun h => (by cases takes_unique h ht), fun h => (by cases takes_unique h ht)⟩
  unfold EndGood
  rw [(update_of_takes cb ht).1, respects_append]
  refine and_congr_right fun _ => iff_of_true (fun pre e hpre => ?_) htake
  exact hes e (hpre.subset (List.mem_append_right _ List.mem_cons_self)) _

theorem endGood_sync {f : Sync} (hI : Inv cb s) (ht : s.Takes f) (hf : f ≠ .syncAccept) :
    EndGood cb (s.update cb) ↔ EndGood cb s ∧ s.TakesEndInOrder cb := by
  have hes : ∀ hdl, .accept hdl ∉ (s.sync cb f).1 := fun hdl h => hf (accept_mem_sync.mp h).1
  have hrespects : Respects (EndInOrder cb) (s.events ++ (s.sync cb f).1) ↔
      Respects (EndInOrder cb) s.events ∧ ∀ e ∈ (s.sync cb f).1, EndInOrder cb s.events e :=
    respects_append_iff fun pre e hpre => endInOrder_append (fun hdl h => hes hdl (hpre.subset (List.mem_append_left _ h))) e
  unfold EndGood
  rw [(update_of_takes cb ht).1, hrespects]
  refine and_congr_right fun _ => ⟨fun h => ⟨fun hg hcb hacc hdl hmem => ?_, fun hg hcb hacc hdl hmem => ?_⟩, ?_⟩
  · have hto := h _ (timeout_mem_sync.mpr ⟨takes_unique ht hg, hcb, hmem⟩) hacc
    exact (hI.acceptEvent hdl hto).2
  · have hcl := h _ (closed_mem_sync.mpr ⟨takes_unique ht hg, hcb, hmem⟩) hacc
    exact (hI.acceptEvent hdl hcl).2
  · intro htake e he
    cases e with
    | timeout hdl =>
      obtain ⟨rfl, hcb, hmem⟩ := timeout_mem_sync.mp he
      intro hacc
      exact (hI.accepted hacc hdl (hI.ended hdl (hI.hdlTimeout hdl hmem))).resolve_left (htake.timeout ht hcb hacc hdl hmem)
    | closed hdl =>
      obtain ⟨rfl, hcb, hmem⟩ := closed_mem_sync.mp he
      intro hacc
      exact (hI.accepted hacc hdl (hI.ended hdl (hI.hdlClosed hdl hmem))).resolve_left (htake.closed ht hcb hacc hdl hmem)
    | _ => trivial

theorem endGood_update (hI : Inv cb s) : EndGood cb (s.update cb) ↔ EndGood cb s ∧ s.TakesEndInOrder cb := by
  rcases update_cases cb s with ⟨c, todo, htodo, hs⟩ | ⟨f, calls, htodo, hcalls, -⟩ | ⟨htodo, hcalls, hs⟩
  · have hevents : (s.update cb).events = s.events := by simp [hs, events, htodo]
    unfold EndGood
    rw [hevents]
    exact (and_iff_left (takesEndInOrder_of_idle (Or.inl (htodo ▸ List.cons_ne_nil c todo)))).symm
  · have ht : s.Takes f := (takes_iff htodo hcalls).mpr rfl
    by_cases hf : f = .syncAccept
    · exact endGood_syncAccept (hf ▸ ht)
    · exact endGood_sync hI ht hf
  · rw [hs]
    exact (and_iff_left (takesEndInOrder_of_idle (Or.inr hcalls))).symm

theorem msgGood_step (hI : Inv cb s) (h : step cb s a = .ok t) : MsgGood cb t ↔ MsgGood cb s ∧ MsgStep cb s a := by
  rcases step_cases h with ⟨hdl, rfl, -, rfl⟩ | ⟨hdl, msgList, rfl, -, hend, rfl⟩ |
    ⟨hdl, -, -, ⟨rfl, rfl⟩ | ⟨rfl, rfl⟩⟩ | ⟨rfl, rfl⟩
  · exact (and_iff_left (fun h => by cases h)).symm
  · refine Iff.trans ?_ (and_iff_left (fun h => by cases h)).symm
    refine and_congr_right fun _ => forall₂_congr fun x hx => not_congr ⟨fun ⟨pkg, hpkg, hdl', hne⟩ => ?_, ?_⟩
    · rcases List.mem_append.mp hpkg with hpkg | hpkg
      · exact ⟨pkg, hpkg, hdl', hne⟩
      · rw [List.mem_singleton.mp hpkg] at hdl'
        cases hdl'
        exact absurd (hI.endEvent hdl hx) hend
    · rintro ⟨pkg, hpkg, hrest⟩
      exact ⟨pkg, List.mem_append_left _ hpkg, hrest⟩
  · exact (and_iff_left (fun h => by cases h)).symm
  · exact (and_iff_left (fun h => by cases h)).symm
  · refine (msgGood_update hI).trans (and_congr_right fun _ => ⟨fun h _ => h, fun h => h rfl⟩)

theorem endGood_step (hI : Inv cb s) (h : step cb s a = .ok t) : EndGood cb t ↔ EndGood cb s ∧ EndStep cb s a := by
  rcases step_cases h with ⟨hdl, rfl, -, rfl⟩ | ⟨hdl, msgList, rfl, -, hend, rfl⟩ |
    ⟨hdl, -, -, ⟨rfl, rfl⟩ | ⟨rfl, rfl⟩⟩ | ⟨rfl, rfl⟩
  · exact (and_iff_left (fun h => by cases h)).symm
  · exact (and_iff_left (fun h => by cases h)).symm
  · exact (and_iff_left (fun h => by cases h)).symm
  · exact (and_iff_left (fun h => by cases h)).symm
  · refine (endGood_update hI).trans (and_congr_right fun _ => ⟨fun h _ => h, fun h => h rfl⟩)

/-! ### Runs -/

theorem inv_run {as : List Action} (h : run (step cb) {} as = .ok s) : Inv cb s :=
  run_invariant (fun hI _ hs => inv_step hI hs) inv_init (along_true _ _) h

theorem msgGood_iff {as : List Action} (h : run (step cb) {} as = .ok s) :
    MsgGood cb s ↔ Along (step cb) (MsgStep cb) {} as := by
  have hinit : MsgGood cb {} := ⟨respects_nil, by simp [EndEvent, events]⟩
  exact (run_iff_along inv_step msgGood_step inv_init h).trans (and_iff_right hinit)

theorem endGood_iff {as : List Action} (h : run (step cb) {} as = .ok s) :
    EndGood cb s ↔ Along (step cb) (EndStep cb) {} as :=
  (run_iff_along inv_step endGood_step inv_init h).trans (and_iff_right respects_nil)

/-- The callbacks of each handler are in the order of what they tell of if each queue is taken in
    order, for the messages and for the end of a handler. The converse holds whenever no call of
    `update` is under way. -/
theorem callbacks_inOrder {as : List Action} (h : run (step cb) {} as = .ok s) :
    (Along (step cb) (MsgStep cb) {} as → Respects (MsgInOrder cb) s.callbacks) ∧
    (Along (step cb) (EndStep cb) {} as → Respects (EndInOrder cb) s.callbacks) ∧
    (s.todo = [] → s.calls = [] →
      (Respects (MsgInOrder cb) s.callbacks → Along (step cb) (MsgStep cb) {} as) ∧
      (Respects (EndInOrder cb) s.callbacks → Along (step cb) (EndStep cb) {} as)) := by
  rw [← msgGood_iff h, ← endGood_iff h]
  refine ⟨fun hgood => hgood.1.initial (List.prefix_append _ _), fun hgood => hgood.initial (List.prefix_append _ _), ?_⟩
  intro htodo hcalls
  have hevents : s.events = s.callbacks := by simp [events, htodo]
  unfold MsgGood EndGood
  rw [hevents]
  refine ⟨fun hgood => ⟨hgood, fun hdl hend => ?_⟩, id⟩
  rintro ⟨pkg, hpkg, heq, -⟩
  exact (inv_run h).late (by simp [hcalls]) hdl hend pkg hpkg heq

end

/-- A handler that is accepted and has a message, and an `update`. -/
theorem callbacks_inOrder_one :
    let cb : Callbacks := { syncReceivedMsgArray := [1] }
    let as := [.accept 0, .receivedMsg 0 [⟨1, []⟩], .update, .update, .update, .update, .update, .update, .update]
    let s : CallbackServer := { callbacks := [.accept 0, .receivedMsg 0 ⟨1, []⟩], accepted := [0] }
    (Along (step cb) (MsgStep cb) {} as → Respects (MsgInOrder cb) s.callbacks) ∧
    (Along (step cb) (EndStep cb) {} as → Respects (EndInOrder cb) s.callbacks) ∧
    (s.todo = [] → s.calls = [] →
      (Respects (MsgInOrder cb) s.callbacks → Along (step cb) (MsgStep cb) {} as) ∧
      (Respects (EndInOrder cb) s.callbacks → Along (step cb) (EndStep cb) {} as)) :=
  callbacks_inOrder (by rfl)

/-- A handler that is accepted, has a message and is closed before `update`: the message comes last. -/
theorem closed_before_receivedMsg : ¬∀ (cb : Callbacks) (as : List Action) (s : CallbackServer),
    run (step cb) {} as = .ok s → Respects (MsgInOrder cb) s.callbacks := by
  intro h
  have hrespects := h { syncReceivedMsgArray := [1] } [.accept 0, .receivedMsg 0 [⟨1, []⟩], .closed 0, .update, .update,
    .update, .update, .update, .update, .update, .update] _ rfl
  have hmsg := hrespects [.accept 0, .closed 0] (.receivedMsg 0 ⟨1, []⟩) List.prefix_rfl
  exact hmsg.2.2 (by simp)

end Zylib.StreamServer.CallbackServer
