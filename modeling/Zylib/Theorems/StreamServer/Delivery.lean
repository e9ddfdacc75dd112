import Zylib.Theorems.StreamServer.CallbackServer

/-! The delivery of the message packages of a `CallbackServer`. What was pushed is what was dispatched and what
    still waits, in this order, after every step of either thread. -/

namespace Zylib.StreamServer.CallbackServer

section
variable (cb : Callbacks)

/-- A push of the thread of the `io_service`, about any handler, or a step of the main thread. -/
def interleave (s : CallbackServer) : Action → CallbackServer
  | .accept hdl => s.asyncAccept hdl
  | .receivedMsg hdl msgList => s.asyncReceivedMsg hdl msgList
  | .timeout hdl => s.asyncTimeout hdl
  | .closed hdl => s.asyncClosed hdl
  | .update => s.update cb

def after (s : CallbackServer) (as : List Action) : CallbackServer := as.foldl (interleave cb) s

end

/-- The package that a step pushes. -/
def pushed : Action → List CallbackMessagePkg
  | .receivedMsg hdl msgList => [⟨hdl, msgList⟩]
  | _ => []

/-- The message callbacks. -/
def messages (callbacks : List Callback) : List Callback :=
  callbacks.filter fun c => match c with | .receivedMsg _ _ => true | _ => false

/-- No call of `update` is under way. -/
def Idle (s : CallbackServer) : Prop := s.todo = [] ∧ s.calls = []

/-- The callbacks for the messages of the packages. -/
def dispatch (cb : Callbacks) (pkgs : List CallbackMessagePkg) : List Callback := pkgs.flatMap (msgCallbacks cb)

section
variable {cb : Callbacks} {s : CallbackServer}

theorem messages_append (l₁ l₂ : List Callback) : messages (l₁ ++ l₂) = messages l₁ ++ messages l₂ :=
  List.filter_append ..

theorem messages_dispatch (pkgs : List CallbackMessagePkg) : messages (dispatch cb pkgs) = dispatch cb pkgs := by
  refine List.filter_eq_self.mpr fun c hc => ?_
  obtain ⟨pkg, -, hmem⟩ := List.mem_flatMap.mp hc
  obtain ⟨msg, -, rfl⟩ := List.mem_map.mp hmem
  rfl

theorem messages_map (f : Hdl → Callback) (hf : ∀ hdl hdl' msg, f hdl ≠ .receivedMsg hdl' msg) (set : Bool)
    (hdls : List Hdl) : messages (if set then hdls.map f else []) = [] := by
  refine List.filter_eq_nil_iff.mpr fun c hc => ?_
  obtain ⟨-, hc⟩ := List.mem_ite_nil_right.mp hc
  obtain ⟨hdl, -, rfl⟩ := List.mem_map.mp hc
  split
  · rename_i heq
    exact absurd heq (hf _ _ _)
  · exact Bool.false_ne_true

theorem messages_sync (f : Sync) : messages (s.sync cb f).1 = if f = .syncReceivedMsg then dispatch cb s.receivedMsg else [] := by
  cases f with
  | syncAccept => exact messages_map .accept nofun cb.syncAccept s.hdlAccept
  | syncTimeout => exact messages_map .timeout nofun cb.syncTimeout s.hdlTimeout
  | syncClosed => exact messages_map .closed nofun cb.syncClosed s.hdlClosed
  | syncReceivedMsg => exact messages_dispatch s.receivedMsg

theorem syncReceivedMsg_mem : .syncReceivedMsg ∈ updateCalls := List.getLast_mem (List.cons_ne_nil _ _)

theorem Idle.update_calls (h : Idle s) : (s.update cb).calls = updateCalls := by
  unfold update
  rw [h.1, h.2]

theorem after_cons (s : CallbackServer) (a : Action) (as : List Action) :
    after cb s (a :: as) = after cb (interleave cb s a) as := rfl

theorem after_append (s : CallbackServer) (as bs : List Action) : after cb s (as ++ bs) = after cb (after cb s as) bs :=
  List.foldl_append ..

/-! ### Nothing is lost or repeated -/

/-- A step of the main thread moves messages from the queue to the events, at their end. -/
theorem update_conserves (s : CallbackServer) :
    messages (s.update cb).events ++ dispatch cb (s.update cb).receivedMsg = messages s.events ++ dispatch cb s.receivedMsg := by
  rcases update_cases cb s with ⟨c, todo, htodo, hs⟩ | ⟨f, calls, htodo, hcalls, hs⟩ | ⟨htodo, hcalls, hs⟩ <;> rw [hs]
  · simp [events, htodo]
  · simp only [events, htodo, List.append_nil, messages_append, messages_sync]
    by_cases hf : f = .syncReceivedMsg
    · rw [if_pos hf, if_pos hf]
      exact List.append_nil _
    · rw [if_neg hf, if_neg hf, List.append_nil]
  · rfl

theorem interleave_conserves (s : CallbackServer) (a : Action) :
    messages (interleave cb s a).events ++ dispatch cb (interleave cb s a).receivedMsg =
      messages s.events ++ dispatch cb s.receivedMsg ++ dispatch cb (pushed a) := by
  cases a with
  | receivedMsg hdl msgList =>
    rw [List.append_assoc]
    exact congrArg (_ ++ ·) List.flatMap_append
  | update => exact (update_conserves s).trans (List.append_nil _).symm
  | _ => exact (List.append_nil _).symm

theorem after_conserves (s : CallbackServer) (as : List Action) :
    messages (after cb s as).events ++ dispatch cb (after cb s as).receivedMsg =
      messages s.events ++ dispatch cb s.receivedMsg ++ dispatch cb (as.flatMap pushed) := by
  induction as generalizing s with
  | nil => exact (List.append_nil _).symm
  | cons a as ih =>
    rw [after_cons, ih, interleave_conserves, List.append_assoc, List.flatMap_cons]
    exact congrArg (_ ++ ·) List.flatMap_append.symm

/-! ### What an update leaves -/

/-- The messages `front` are taken from the queue, or the current `update` is still to take it. -/
def Taken (front : List Callback) (s : CallbackServer) : Prop := .syncReceivedMsg ∈ s.calls ∨ front <+: messages s.events

theorem interleave_taken {front : List Callback} (hfront : front <+: messages s.events ++ dispatch cb s.receivedMsg)
    (h : Taken front s) (a : Action) : Taken front (interleave cb s a) := by
  cases a with
  | update =>
    unfold Taken at h ⊢
    rcases update_cases cb s with ⟨c, todo, htodo, hs⟩ | ⟨f, calls, htodo, hcalls, hs⟩ | ⟨htodo, hcalls, hs⟩
    · have hevents : (s.update cb).events = s.events := by simp [hs, events, htodo]
      have hcalls : (s.update cb).calls = s.calls := by rw [hs]
      rw [interleave, hevents, hcalls]
      exact h
    · have hmessages : messages (s.update cb).events = messages s.events ++ messages (s.sync cb f).1 := by
        simp [hs, events, htodo, messages_append]
      rw [interleave, hmessages, messages_sync]
      by_cases hf : f = .syncReceivedMsg
      · rw [if_pos hf]
        exact Or.inr hfront
      · rw [if_neg hf, List.append_nil]
        refine h.imp_left fun hmem => ?_
        have hmem : .syncReceivedMsg ∈ calls := List.mem_of_ne_of_mem (Ne.symm hf) (hcalls ▸ hmem)
        rw [hs]
        exact hmem
    · left
      rw [interleave, hs]
      exact syncReceivedMsg_mem
  | _ => exact h

theorem after_taken {front : List Callback} (hfront : front <+: messages s.events ++ dispatch cb s.receivedMsg)
    (h : Taken front s) (as : List Action) : Taken front (after cb s as) := by
  induction as generalizing s with
  | nil => exact h
  | cons a as ih =>
    refine ih ?_ (interleave_taken hfront h a)
    rw [interleave_conserves]
    exact hfront.trans (List.prefix_append _ _)

/-- The queue is empty, or the current `update` is still to take it. -/
def Emptied (s : CallbackServer) : Prop := .syncReceivedMsg ∈ s.calls ∨ s.receivedMsg = []

theorem update_emptied (h : Emptied s) : Emptied (s.update cb) := by
  unfold Emptied at h ⊢
  rcases update_cases cb s with ⟨c, todo, htodo, hs⟩ | ⟨f, calls, htodo, hcalls, hs⟩ | ⟨htodo, hcalls, hs⟩ <;> rw [hs]
  · exact h
  · by_cases hf : f = .syncReceivedMsg
    · exact Or.inr (if_pos hf)
    · rw [if_neg hf]
      exact h.imp_left fun hmem => List.mem_of_ne_of_mem (Ne.symm hf) (hcalls ▸ hmem)
  · exact Or.inl syncReceivedMsg_mem

/-! ### An update comes to its end -/

/-- `n` steps of the main thread. -/
def updates (cb : Callbacks) (n : Nat) (s : CallbackServer) : CallbackServer := after cb s (List.replicate n .update)

theorem updates_succ (n : Nat) (s : CallbackServer) : updates cb (n + 1) s = updates cb n (s.update cb) := rfl

theorem updates_add (m n : Nat) (s : CallbackServer) : updates cb (m + n) s = updates cb n (updates cb m s) := by
  rw [updates, List.replicate_add, after_append]
  rfl

variable (cb) in
/-- The callbacks that the last call has taken are made. -/
theorem updates_todo (todo : List Callback) (s : CallbackServer) (htodo : s.todo = todo) :
    (updates cb todo.length s).todo = [] ∧ (updates cb todo.length s).calls = s.calls := by
  induction todo generalizing s with
  | nil => exact ⟨htodo, rfl⟩
  | cons c todo ih =>
    have hs : s.update cb = { s with todo, callbacks := s.callbacks ++ [c] } := by
      unfold update
      rw [htodo]
    rw [List.length_cons, updates_succ, hs]
    exact ih _ rfl

theorem updates_idle (calls : List Sync) (s : CallbackServer) (hcalls : s.calls = calls) : ∃ n, Idle (updates cb n s) := by
  induction calls generalizing s with
  | nil => exact ⟨s.todo.length, (updates_todo cb s.todo s rfl).1, (updates_todo cb s.todo s rfl).2.trans hcalls⟩
  | cons f calls ih =>
    obtain ⟨htodo, hkept⟩ := updates_todo cb s.todo s rfl
    have hnext : ((updates cb s.todo.length s).update cb).calls = calls := by
      unfold update
      rw [htodo, hkept, hcalls]
    obtain ⟨n, hn⟩ := ih _ hnext
    exact ⟨s.todo.length + (n + 1), by rwa [updates_add, updates_succ]⟩

theorem updates_emptied (h : Emptied s) (n : Nat) : Emptied (updates cb n s) := by
  induction n generalizing s with
  | zero => exact h
  | succ n ih => exact ih (update_emptied h)

theorem pushed_updates (n : Nat) : (List.replicate n Action.update).flatMap pushed = [] := by
  simp [List.flatMap_eq_nil_iff, pushed]

end

/-! ### Runs -/

end Zylib.StreamServer.CallbackServer
