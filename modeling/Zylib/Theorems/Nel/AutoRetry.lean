import Zylib.Theorems.Nel.UnifiedConnection

/-! What a `UnifiedConnection` with `m_auto_retry` reports of its client endpoints. Until an attempt to connect
    fails or is made again, and as long as no socket is found closed before it is found connected, each
    endpoint goes once through the stages below; the first step that is not so breaks the order of the callbacks. -/

namespace Zylib.Nel

def Item.succeeded? : Item → Option Sock
  | .connectSuccess client => some client.sock
  | _ => none

def ServiceCallback.sock : ServiceCallback → Sock
  | .serviceConnect sock => sock
  | .serviceDisconnect sock => sock

namespace UnifiedConnection
open Run

/-- The sockets whose attempt to connect succeeded, until that is reported. -/
def succeeding (c : UnifiedConnection) : List Sock :=
  c.clientConnectSuccess.map NetClient.sock ++ c.todo.filterMap Item.succeeded?

/-- The sockets whose attempt to connect has not succeeded. -/
def attempting (c : UnifiedConnection) : List Sock := c.connecting ++ c.failing

/-- The sockets that are connected, or were until something that still has to be seen. -/
def opened (c : UnifiedConnection) : List Sock := c.live ++ c.closing

/-- The callbacks about a socket. -/
def about (c : UnifiedConnection) (x : Sock) : List ServiceCallback := c.callbacks.filter (·.sock = x)

/-- Connects and disconnects in turn, with a connect first. -/
def InTurn (x : Sock) : List ServiceCallback → Prop
  | [] => True
  | [cb] => cb = .serviceConnect x
  | cb :: cb' :: cbs => cb = .serviceConnect x ∧ cb' = .serviceDisconnect x ∧ InTurn x cbs

/-- After the inputs `past`, of which `addService` makes the client endpoints and `clientConnect` says which of their
    attempts to connect succeeded. -/
structure Reported (past : List Action) (c : UnifiedConnection) : Prop where
  inTurn : ∀ x, .addService x ∈ past → InTurn x (c.about x)
  succeeded : ∀ x, .addService x ∈ past → c.callbacks.count (.serviceConnect x) ≤ past.count (.clientConnect false x)
  disjoint : ∀ x ∈ c.retryEndpoints, x ∉ c.endpoints

/-- Of the things that `update` goes through, no failed attempt, none that is made again, and no socket that was
    closed or timed out before it was reported to be connected. -/
def NothingToRetry (c : UnifiedConnection) (started : Bool) : Item → Prop
  | .closedSock sock => sock ∉ c.succeeding
  | .timeoutSock sock => sock ∉ c.succeeding
  | .connectFail _ => False
  | .retry sock => started = true → sock ∉ c.retryEndpoints
  | _ => True

def NoRetry (c : UnifiedConnection) : Action → Prop
  | .update started => ∀ item ∈ c.todo.head?, NothingToRetry c started item
  | _ => True

instance (c : UnifiedConnection) (started : Bool) : ∀ item, Decidable (NothingToRetry c started item)
  | .closedSock _ => inferInstanceAs (Decidable (¬_))
  | .timeoutSock _ => inferInstanceAs (Decidable (¬_))
  | .connectFail _ => inferInstanceAs (Decidable False)
  | .retry _ => inferInstanceAs (Decidable (_ → ¬_))
  | .newSock _ => .isTrue trivial
  | .connectSuccess _ => .isTrue trivial

instance (c : UnifiedConnection) : ∀ a, Decidable (NoRetry c a)
  | .update started => inferInstanceAs (Decidable (∀ item ∈ c.todo.head?, NothingToRetry c started item))
  | .addService _ => .isTrue trivial
  | .serverAccept _ => .isTrue trivial
  | .clientConnect _ _ => .isTrue trivial
  | .sockClosed _ => .isTrue trivial
  | .sockTimeout _ => .isTrue trivial

/-! ### The life of an endpoint -/

/-- What the state and the inputs before it say of one socket. -/
structure View where
  added : Prop
  made : Prop
  waiting : Prop
  attempting : Prop
  succeeding : Prop
  opened : Prop
  endpoint : Option TEndpoint
  retry : Option TEndpoint
  about : List ServiceCallback
  successes : ℕ

def view (past : List Action) (c : UnifiedConnection) (x : Sock) : View where
  added := .addService x ∈ past
  made := x ∈ c.socks
  waiting := x ∈ c.waiting
  attempting := x ∈ c.attempting
  succeeding := x ∈ c.succeeding
  opened := x ∈ c.opened
  endpoint := c.endpoints.lookup x
  retry := c.retryEndpoints.lookup x
  about := c.about x
  successes := past.count (.clientConnect false x)

/-- The stages of the sockets: those of a client, of which each has one attempt to connect, and one for all sockets of the
    server. -/
inductive Stage (x : Sock) : View → Prop
  | unmade : Stage x ⟨False, False, False, False, False, False, none, none, [], 0⟩
  | server {waiting opened endpoint retry about successes} (hend : ∀ e, endpoint = some e → e.client = none)
      (hretry : ∀ e, retry = some e → e.client = none) (hdisjoint : retry.isSome → endpoint = none) :
      Stage x ⟨False, True, waiting, False, False, opened, endpoint, retry, about, successes⟩
  | connecting : Stage x ⟨True, True, False, True, False, False, some ⟨some ⟨x⟩, x⟩, none, [], 0⟩
  | connected : Stage x ⟨True, True, False, False, True, True, some ⟨some ⟨x⟩, x⟩, none, [], 1⟩
  | reported : Stage x ⟨True, True, False, False, False, True, some ⟨some ⟨x⟩, x⟩, none, [.serviceConnect x], 1⟩
  | disconnected :
      Stage x ⟨True, True, False, False, False, False, none, some ⟨some ⟨x⟩, x⟩,
        [.serviceConnect x, .serviceDisconnect x], 1⟩

structure Told (past : List Action) (c : UnifiedConnection) : Prop where
  inv : Inv c
  autoRetry : c.autoRetry = true
  succeeding : c.succeeding.Nodup
  stage : ∀ x, Stage x (view past c x)

section
variable {c d : UnifiedConnection} {a : Action} {past : List Action} {x : Sock}

theorem count_serviceConnect (c : UnifiedConnection) (x : Sock) :
    c.callbacks.count (.serviceConnect x) = (c.about x).count (.serviceConnect x) := by
  rw [about, List.count_filter]
  simp [ServiceCallback.sock]

theorem view_eq (past : List Action) (c : UnifiedConnection) (x : Sock) : view past c x =
    { added := .addService x ∈ past
      made := x ∈ c.socks
      waiting := x ∈ c.serverNewSock ++ c.todo.filterMap Item.new?
      attempting := x ∈ c.connecting ++ (c.clientConnectFail.map NetClient.sock ++ c.todo.filterMap Item.failed?)
      succeeding := x ∈ c.clientConnectSuccess.map NetClient.sock ++ c.todo.filterMap Item.succeeded?
      opened := x ∈ c.live ++ (c.closedSock ++ c.timeoutSock ++ c.todo.filterMap Item.ended?)
      endpoint := c.endpoints.lookup x
      retry := c.retryEndpoints.lookup x
      about := c.callbacks.filter (·.sock = x)
      successes := past.count (.clientConnect false x) } := rfl

/-- A step that is not an `addService` or a success adds nothing to what the inputs say. -/
theorem view_concat (hadd : a ≠ .addService x) (hsuccess : a ≠ .clientConnect false x) :
    view (past ++ [a]) c x = view past c x := by
  simp [view, List.count_append, hadd.symm, hsuccess]

theorem Stage.of_eq {v w : View} (h : Stage x w) (heq : v = w) : Stage x v := heq ▸ h

theorem Inv.notMem_attempting (hI : Inv c) (hx : x ∈ c.opened) : x ∉ c.attempting := by
  have hnodup := hI.nodup
  rw [UnifiedConnection.active, List.append_assoc] at hnodup
  exact fun h => (List.nodup_append.mp hnodup).2.2 x hx x h rfl

theorem Inv.notMem_opened (hI : Inv c) (hx : x ∈ c.retryEndpoints) : x ∉ c.opened := fun h =>
  (hI.retry x hx).2 (List.mem_append_left _ (List.mem_append_left _ h))

theorem Told.reported (hT : Told past c) : Reported past c := by
  refine ⟨fun x hx => ?_, fun x hx => ?_, fun x hx hend => ?_⟩
  · have hstage := hT.stage x
    generalize hv : view past c x = v at hstage
    cases hstage <;> simp [view, hx] at hv <;> simp [hv, InTurn]
  · rw [count_serviceConnect]
    have hstage := hT.stage x
    generalize hv : view past c x = v at hstage
    cases hstage <;> simp [view, hx] at hv <;> simp [hv]
  · have hstage := hT.stage x
    rw [← AList.lookup_isSome] at hx hend
    generalize hv : view past c x = v at hstage
    cases hstage with
    | server _ _ hdisjoint =>
      simp [view] at hv
      simp [hv] at hx hend
      simp [hdisjoint hx] at hend
    | _ =>
      simp [view] at hv
      simp [hv] at hx hend

/-! ### The thread of the `io_service` -/

theorem told_addService (hT : Told past c) (hx : x ∉ c.socks) :
    Told (past ++ [.addService x])
      { c.addClientEndpoint ⟨x⟩ with socks := c.socks ++ [x], connecting := c.connecting ++ [x] } := by
  refine ⟨inv_addService hT.inv hx, hT.autoRetry, hT.succeeding, fun y => ?_⟩
  have hy := hT.stage y
  by_cases hyx : y = x
  · subst hyx
    refine Stage.of_eq (w := { view past c y with
      added := True, made := True, attempting := True, endpoint := some ⟨some ⟨y⟩, y⟩ }) ?_ ?_
    · generalize hv : view past c y = v at hy
      cases hy with
      | unmade => exact .connecting
      | _ => simp [view, hx] at hv
    · simp [view_eq, addClientEndpoint]
  · refine Stage.of_eq hy ?_
    rw [view_concat (by simpa using Ne.symm hyx) (by simp)]
    simp [view_eq, addClientEndpoint, hyx]

theorem told_serverAccept (hT : Told past c) (hx : x ∉ c.socks) :
    Told (past ++ [.serverAccept x]) { c.cbServerAccept x with socks := c.socks ++ [x], live := c.live ++ [x] } := by
  refine ⟨inv_serverAccept hT.inv hx, hT.autoRetry, hT.succeeding, fun y => ?_⟩
  have hy := hT.stage y
  rw [view_concat (by simp) (by simp)]
  by_cases hyx : y = x
  · subst hyx
    refine Stage.of_eq (w := { view past c y with made := True, waiting := True, opened := True }) ?_ ?_
    · generalize hv : view past c y = v at hy
      cases hy with
      | unmade => exact .server nofun nofun nofun
      | _ => simp [view, hx] at hv
    · simp [view_eq, cbServerAccept]
  · refine Stage.of_eq hy ?_
    simp [view_eq, cbServerAccept, hyx]

theorem told_clientConnect (hT : Told past c) (hx : x ∈ c.connecting) (ec : Bool) :
    Told (past ++ [.clientConnect ec x]) { c.cbClientConnect ec ⟨x⟩ with
      connecting := c.connecting.erase x
      live := if ec then c.live else c.live ++ [x] } := by
  have hinv := inv_clientConnect hT.inv hx ec
  have hattempting : x ∈ c.attempting := List.mem_append_left _ hx
  have herase : ∀ {y}, y ≠ x → (y ∈ c.connecting.erase x ↔ y ∈ c.connecting) := fun h => List.mem_erase_of_ne h
  cases ec with
  | true =>
    refine ⟨hinv, hT.autoRetry, hT.succeeding, fun y => Stage.of_eq (hT.stage y) ?_⟩
    rw [view_concat (by simp) (by simp)]
    by_cases hyx : y = x
    · subst hyx
      simp [view_eq, cbClientConnect, hx]
    · simp [view_eq, cbClientConnect, herase hyx, hyx, eq_comm]
  | false =>
    have hstage := hT.stage x
    have hview : view past c x = ⟨True, True, False, True, False, False, some ⟨some ⟨x⟩, x⟩, none, [], 0⟩ := by
      generalize hv : view past c x = v at hstage
      cases hstage with
      | connecting => rfl
      | _ => simp [view, hattempting] at hv
    have hfresh : x ∉ c.succeeding := by
      have hfield := congrArg View.succeeding hview
      simpa [view] using hfield
    have hsuccesses : past.count (.clientConnect false x) = 0 := congrArg View.successes hview
    have hconnecting : x ∉ c.connecting.erase x ++ c.failing :=
      hinv.notMem_attempting (List.mem_append_left _ (List.mem_append_right _ List.mem_cons_self))
    have hsucceeding : ((c.clientConnectSuccess ++ [(⟨x⟩ : NetClient)]).map NetClient.sock ++
        c.todo.filterMap Item.succeeded?).Perm (x :: c.succeeding) := by
      rw [List.map_append, List.append_assoc]
      exact List.perm_middle
    refine ⟨hinv, hT.autoRetry, hsucceeding.nodup_iff.mpr (List.nodup_cons.mpr ⟨hfresh, hT.succeeding⟩), fun y => ?_⟩
    by_cases hyx : y = x
    · subst hyx
      refine Stage.of_eq (w := { view past c y with
        attempting := False, succeeding := True, opened := True, successes := 1 }) ?_ ?_
      · rw [hview]
        exact .connected
      · simp only [failing, List.mem_append, not_or] at hconnecting
        simp [view_eq, cbClientConnect, hsuccesses, hconnecting]
    · refine Stage.of_eq (hT.stage y) ?_
      rw [view_concat (by simp) (by simpa using Ne.symm hyx)]
      simp [view_eq, cbClientConnect, herase hyx, hyx, eq_comm]

theorem told_sockEnded (hT : Told past c) (hx : x ∈ c.live) :
    Told (past ++ [.sockClosed x]) { c.cbSockClosed x with live := c.live.erase x } ∧
      Told (past ++ [.sockTimeout x]) { c.cbSockTimeout x with live := c.live.erase x } := by
  have hmem : ∀ {y}, y ≠ x → (y ∈ c.live.erase x ↔ y ∈ c.live) := fun h => List.mem_erase_of_ne h
  refine ⟨⟨(inv_sockEnded hT.inv hx).1, hT.autoRetry, hT.succeeding, fun y => Stage.of_eq (hT.stage y) ?_⟩,
    ⟨(inv_sockEnded hT.inv hx).2, hT.autoRetry, hT.succeeding, fun y => Stage.of_eq (hT.stage y) ?_⟩⟩
  · rw [view_concat (by simp) (by simp)]
    by_cases hyx : y = x
    · subst hyx
      simp [view_eq, cbSockClosed, hx]
    · simp [view_eq, cbSockClosed, hmem hyx, hyx]
  · rw [view_concat (by simp) (by simp)]
    by_cases hyx : y = x
    · subst hyx
      simp [view_eq, cbSockTimeout, hx]
    · simp [view_eq, cbSockTimeout, hmem hyx, hyx]

/-! ### The main thread -/

/-- What the calls of `update` take is nowhere else after that. -/
theorem told_take (hT : Told past c) (htodo : c.todo = []) (f : Process) (calls : List Process) :
    Told past { (c.take f).2 with todo := (c.take f).1, calls } := by
  refine ⟨inv_take hT.inv htodo f calls, ?_, ?_, fun y => Stage.of_eq (hT.stage y) ?_⟩
  · cases f <;> exact hT.autoRetry
  · have hsucceeding := hT.succeeding
    cases f <;>
      simpa [take, UnifiedConnection.succeeding, htodo, List.filterMap_map, Function.comp_def, Item.succeeded?] using hsucceeding
  · cases f <;>
      simp [view_eq, take, htodo, List.filterMap_map, Function.comp_def, Item.new?, Item.ended?, Item.failed?, Item.succeeded?,
        or_comm]

theorem succeeding_tail {item : Item} {todo : List Item} (htodo : c.todo = item :: todo) (hitem : item.succeeded? = none) :
    ({ c with todo } : UnifiedConnection).succeeding = c.succeeding := by
  simp [UnifiedConnection.succeeding, htodo, hitem]

theorem told_newSock (hT : Told past c) {todo : List Item} (htodo : c.todo = .newSock x :: todo) :
    Told past ({ c with todo }.processNewSock x) := by
  have hsucceeding : ({ c with todo }.processNewSock x).succeeding = c.succeeding := succeeding_tail htodo rfl
  refine ⟨processNewSock_inv hT.inv htodo, hT.autoRetry, hsucceeding ▸ hT.succeeding, fun y => ?_⟩
  have hy := hT.stage y
  by_cases hyx : y = x
  · subst hyx
    have hwaiting : y ∈ c.waiting := by simp [waiting, htodo, Item.new?]
    have hnone : c.retryEndpoints.lookup y = none := AList.lookup_eq_none.mpr (hT.inv.waiting y hwaiting).2.2
    refine Stage.of_eq (w := { view past c y with
      waiting := y ∈ ({ c with todo }.processNewSock y).waiting, endpoint := some ⟨none, y⟩
      about := c.about y ++ [.serviceConnect y] }) ?_ ?_
    · generalize hv : view past c y = v at hy
      cases hy with
      | server hend hretry hdisjoint =>
        refine .server (fun e he => ?_) hretry (fun h => ?_)
        · cases he
          rfl
        · have hlookup : c.retryEndpoints.lookup y = _ := congrArg View.retry hv
          rw [← hlookup, hnone] at h
          cases h
      | _ => simp [view, hwaiting] at hv
    · simp [view_eq, waiting, about, processNewSock, callback, htodo, List.filterMap_cons, Item.ended?, Item.failed?,
        Item.succeeded?, ServiceCallback.sock]
  · refine Stage.of_eq hy ?_
    simp [view_eq, processNewSock, callback, hyx, eq_comm, htodo, Item.new?, Item.ended?, Item.failed?, Item.succeeded?,
      ServiceCallback.sock]

theorem processEndedSock_ok (hauto : c.autoRetry = true) (h : c.processEndedSock x = .ok d) :
    ∃ e, c.endpoints.lookup x = some e ∧
      d = ((c.eraseEndpoint x).retryEndpoint x e).callback (.serviceDisconnect x) := by
  unfold processEndedSock at h
  split at h
  · cases h
  · rename_i e he
    refine ⟨e, he, ?_⟩
    cases h
    exact congrArg (UnifiedConnection.callback · (.serviceDisconnect x)) (if_pos hauto)

/-- A socket of the server, or one of a client that `update` has reported to be connected. -/
theorem told_endedSock (hT : Told past c) {item : Item} {todo : List Item} (htodo : c.todo = item :: todo)
    (hitem : item.ended? = some x) (hx : x ∉ c.succeeding) (h : { c with todo }.processEndedSock x = .ok d) : Told past d := by
  have hinv := processEndedSock_inv hT.inv htodo hitem h
  have hnew : item.new? = none := by cases item <;> first | rfl | cases hitem
  have hfailed : item.failed? = none := by cases item <;> first | rfl | cases hitem
  have hsucceeded : item.succeeded? = none := by cases item <;> first | rfl | cases hitem
  have hopened : x ∈ c.opened := by simp [opened, closing, htodo, hitem]
  obtain ⟨e, he, rfl⟩ := processEndedSock_ok (c := { c with todo }) hT.autoRetry h
  have he : c.endpoints.lookup x = some e := he
  have hclosed := hinv.notMem_opened (x := x) ((AList.mem_insert _).mpr (Or.inl rfl))
  refine ⟨hinv, hT.autoRetry, (succeeding_tail htodo hsucceeded).symm ▸ hT.succeeding, fun y => ?_⟩
  have hy := hT.stage y
  by_cases hyx : y = x
  · subst hyx
    refine Stage.of_eq (w := { view past c y with
      opened := False, endpoint := none, retry := some e, about := c.about y ++ [.serviceDisconnect y] }) ?_ ?_
    · generalize hv : view past c y = v at hy
      have hendpoint : some e = v.endpoint := he ▸ congrArg View.endpoint hv
      have habout : c.about y = v.about := congrArg View.about hv
      cases hy with
      | server hend hretry hdisjoint =>
        refine .server (fun e' he' => ?_) (fun e' he' => ?_) fun _ => rfl
        · cases he'
        · cases he'
          exact hend e hendpoint.symm
      | reported =>
        cases hendpoint
        rw [habout]
        exact .disconnected
      | _ => simp [view, hopened, hx] at hv
    · simp only [opened, closing, List.mem_append, not_or, eraseEndpoint, retryEndpoint, callback] at hclosed
      simp [view_eq, about, eraseEndpoint, retryEndpoint, callback, hclosed, htodo, hnew, hfailed, hsucceeded,
        ServiceCallback.sock]
  · refine Stage.of_eq hy ?_
    simp [view_eq, eraseEndpoint, retryEndpoint, callback, hyx, eq_comm, htodo, hnew, hfailed, hsucceeded, hitem,
      ServiceCallback.sock]

theorem told_connectSuccess (hT : Told past c) {client : NetClient} {todo : List Item}
    (htodo : c.todo = .connectSuccess client :: todo) :
    Told past ({ c with todo }.callback (.serviceConnect client.sock)) := by
  have hperm : c.succeeding.Perm (client.sock :: ({ c with todo } : UnifiedConnection).succeeding) := by
    simp [UnifiedConnection.succeeding, htodo, Item.succeeded?]
  obtain ⟨hx, hnodup⟩ := List.nodup_cons.mp (hperm.nodup_iff.mp hT.succeeding)
  have hsucceeding := hperm.mem_iff.mpr List.mem_cons_self
  refine ⟨inv_drop hT.inv htodo rfl rfl rfl _, hT.autoRetry, hnodup, fun y => ?_⟩
  have hy := hT.stage y
  by_cases hyx : y = client.sock
  · subst hyx
    refine Stage.of_eq (w := { view past c client.sock with
      succeeding := False, about := c.about client.sock ++ [.serviceConnect client.sock] }) ?_ ?_
    · generalize hv : view past c client.sock = v at hy
      have habout : _ = v.about := congrArg View.about hv
      cases hy with
      | connected =>
        have habout : c.about client.sock = [] := habout
        rw [habout]
        exact .reported
      | _ => simp [view, hsucceeding] at hv
    · simp only [UnifiedConnection.succeeding, List.mem_append, not_or] at hx
      simp [view_eq, about, callback, hx, htodo, List.filterMap_cons, Item.new?, Item.ended?, Item.failed?, ServiceCallback.sock]
  · refine Stage.of_eq hy ?_
    simp [view_eq, callback, hyx, eq_comm, htodo, Item.new?, Item.ended?, Item.failed?, Item.succeeded?,
      ServiceCallback.sock]

/-- An attempt that is not made again. -/
theorem told_retry (hT : Told past c) {started : Bool} {todo : List Item} (htodo : c.todo = .retry x :: todo)
    (hx : started = true → x ∉ c.retryEndpoints) (h : { c with todo }.processRetry x started = .ok d) : Told past d := by
  have hd : d = { c with todo } := by
    unfold processRetry at h
    split at h
    · cases h
      rfl
    · rename_i e he
      have he : c.retryEndpoints.lookup x = some e := he
      split at h
      · cases h
      · split at h
        · rename_i hstarted
          exact absurd (mem_of_lookup he) (hx hstarted)
        · cases h
          rfl
  subst hd
  refine ⟨inv_drop hT.inv htodo rfl rfl rfl _, hT.autoRetry, (succeeding_tail htodo rfl).symm ▸ hT.succeeding, fun y =>
    Stage.of_eq (hT.stage y) ?_⟩
  simp [view_eq, htodo, List.filterMap_cons, Item.new?, Item.ended?, Item.failed?, Item.succeeded?]

theorem told_update (hT : Told past c) {started : Bool} (hP : NoRetry c (.update started)) (h : c.update started = .ok d) :
    Told past d := by
  rcases update_cases c started with ⟨item, todo, htodo, hu⟩ | ⟨f, calls, htodo, -, hu⟩ | ⟨-, -, hu⟩ <;> rw [hu] at h
  · have hitem := hP item (htodo ▸ rfl)
    cases item with
    | newSock sock =>
      cases h
      exact told_newSock hT htodo
    | closedSock sock => exact told_endedSock hT htodo rfl hitem h
    | timeoutSock sock => exact told_endedSock hT htodo rfl hitem h
    | connectSuccess client =>
      cases h
      exact told_connectSuccess hT htodo
    | connectFail client => exact hitem.elim
    | retry sock => exact told_retry hT htodo hitem h
  · cases h
    exact told_take hT htodo f calls
  · cases h
    exact ⟨inv_update hT.inv hu, hT.autoRetry, hT.succeeding, hT.stage⟩

theorem told_step (hT : Told past c) (hP : NoRetry c a) (h : step c a = .ok d) : Told (past ++ [a]) d := by
  cases a with
  | addService sock =>
    simp only [step] at h
    split at h <;> cases h
    exact told_addService hT ‹_›
  | serverAccept sock =>
    simp only [step] at h
    split at h <;> cases h
    exact told_serverAccept hT ‹_›
  | clientConnect ec sock =>
    simp only [step] at h
    split at h <;> cases h
    exact told_clientConnect hT ‹_› ec
  | sockClosed sock =>
    simp only [step] at h
    split at h <;> cases h
    exact (told_sockEnded hT ‹_›).1
  | sockTimeout sock =>
    simp only [step] at h
    split at h <;> cases h
    exact (told_sockEnded hT ‹_›).2
  | update started =>
    obtain ⟨hinv, hauto, hsucceeding, hstage⟩ := told_update hT hP h
    refine ⟨hinv, hauto, hsucceeding, fun x => ?_⟩
    rw [view_concat (by simp) (by simp)]
    exact hstage x

theorem told_init : Told [] { autoRetry := true } := by
  refine ⟨inv_init true, rfl, List.nodup_nil, fun x => Stage.of_eq .unmade ?_⟩
  simp [view_eq]

/-! ### The steps that break the order -/

/-- A client that is found closed before it is reported to be connected. -/
theorem endedSock_bad (hT : Told past c) {todo : List Item} (h : { c with todo }.processEndedSock x = .ok d)
    (hR : Reported past d) : x ∉ c.succeeding := by
  intro hx
  obtain ⟨e, he, rfl⟩ := processEndedSock_ok (c := { c with todo }) hT.autoRetry h
  have hstage := hT.stage x
  generalize hv : view past c x = v at hstage
  have habout : c.about x = v.about := congrArg View.about hv
  have hadded : (.addService x ∈ past) = v.added := congrArg View.added hv
  cases hstage with
  | connected =>
    have hturn := hR.inTurn x (hadded ▸ trivial)
    have hdisconnect : (((({ c with todo } : UnifiedConnection).eraseEndpoint x).retryEndpoint x e).callback
        (.serviceDisconnect x)).about x = [.serviceDisconnect x] := by
      have hnew : c.about x ++ [.serviceDisconnect x] = [.serviceDisconnect x] := congrArg (· ++ [.serviceDisconnect x]) habout
      simpa [about, callback, retryEndpoint, eraseEndpoint, ServiceCallback.sock] using hnew
    rw [hdisconnect] at hturn
    cases hturn
  | _ => simp [view, hx] at hv

/-- An attempt that failed is tried again while it is still in the table. -/
theorem connectFail_bad (hT : Told past c) {client : NetClient} {todo : List Item}
    (h : { c with todo }.processConnectFail client = .ok d) : ¬Reported past d := by
  intro hR
  unfold processConnectFail at h
  rw [if_pos hT.autoRetry] at h
  split at h
  · cases h
  · rename_i e he
    cases h
    exact hR.disjoint client.sock ((AList.mem_insert _).mpr (Or.inl rfl)) (mem_of_lookup he)

/-- An attempt that is made again is reported before it has succeeded. -/
theorem retry_bad (hT : Told past c) {started : Bool} {todo : List Item}
    (h : { c with todo }.processRetry x started = .ok d) (hR : Reported past d) (hstarted : started = true) :
    x ∉ c.retryEndpoints := by
  intro hx
  obtain ⟨e, he⟩ := Option.isSome_iff_exists.mp (AList.lookup_isSome.mpr hx)
  have hstage := hT.stage x
  generalize hv : view past c x = v at hstage
  have hretry : c.retryEndpoints.lookup x = v.retry := congrArg View.retry hv
  have habout : c.about x = v.about := congrArg View.about hv
  have hsuccesses : past.count (.clientConnect false x) = v.successes := congrArg View.successes hv
  have hadded : (.addService x ∈ past) = v.added := congrArg View.added hv
  unfold processRetry at h
  have he' : ({ c with todo } : UnifiedConnection).retryEndpoints.lookup x = some e := he
  rw [he', hstarted] at h
  cases hstage with
  | server hend hnone hdisjoint =>
    rw [he] at hretry
    simp [hnone e hretry.symm] at h
  | disconnected =>
    cases he.symm.trans hretry
    cases h
    have hcount := hR.succeeded x (hadded ▸ trivial)
    have hconnects : c.callbacks.count (.serviceConnect x) = 1 := by
      rw [count_serviceConnect, habout]
      simp
    simp [callback, List.count_append, hconnects, hsuccesses] at hcount
  | _ => cases he.symm.trans hretry

theorem Reported.of_update {started : Bool} (hR : Reported (past ++ [.update started]) d) : Reported past d := by
  refine ⟨fun x hx => hR.inTurn x (List.mem_append_left _ hx), fun x hx => ?_, hR.disjoint⟩
  have hcount := hR.succeeded x (List.mem_append_left _ hx)
  simpa [List.count_append] using hcount

theorem noRetry_of_reported (hT : Told past c) (h : step c a = .ok d) (hR : Reported (past ++ [a]) d) : NoRetry c a := by
  cases a with
  | update started =>
    have hR := hR.of_update
    intro item hitem
    obtain ⟨todo, htodo⟩ := List.head?_eq_some_iff.mp hitem
    have h : { c with todo }.processItem started item = .ok d := by
      rcases update_cases c started with ⟨item', todo', htodo', hu⟩ | ⟨f, calls, hnil, -, -⟩ | ⟨hnil, -, -⟩
      · cases htodo.symm.trans htodo'
        exact hu.symm.trans h
      · cases htodo.symm.trans hnil
      · cases htodo.symm.trans hnil
    cases item with
    | newSock sock => trivial
    | closedSock sock => exact endedSock_bad hT h hR
    | timeoutSock sock => exact endedSock_bad hT h hR
    | connectSuccess client => trivial
    | connectFail client => exact connectFail_bad hT h hR
    | retry sock => exact retry_bad hT h hR
  | _ => trivial

end

/-- In a run of a connection with `m_auto_retry`, the callbacks about each client endpoint are in turn, only successful
    attempts are reported and no endpoint is in both tables, after every step, if and only if nothing was to be tried
    again. -/
theorem reported_iff {as : List Action} {d : UnifiedConnection} (h : run step { autoRetry := true } as = .ok d) :
    (∀ past c, past <+: as → run step { autoRetry := true } past = .ok c → Reported past c) ↔
      Along step NoRetry { autoRetry := true } as :=
  forall_prefix_iff_along (J := Told) [] Told.reported told_step noRetry_of_reported told_init h

/-- A connection that is made, reported, closed and reported, with a second attempt that `asyncConnect` does not start. -/
theorem reported_iff_once :
    let as : List Action := [.addService 0, .clientConnect false 0] ++ List.replicate 8 (.update true) ++ [.sockClosed 0] ++
      List.replicate 9 (.update false)
    ∃ d, run step { autoRetry := true } as = .ok d ∧ Reported as d :=
  ⟨_, rfl, (reported_iff rfl).mpr (by decide) _ _ (List.prefix_refl _) rfl⟩

/-- The connection is closed and made again: a second connect is reported at once, while the attempt is under way. -/
theorem reconnect_reported : ¬∀ as c, run step { autoRetry := true } as = .ok c → Reported as c := by
  intro h
  have hR := h ([.addService 0, .clientConnect false 0] ++ List.replicate 8 (.update true) ++
    [.sockClosed 0] ++ List.replicate 9 (.update true)) _ rfl
  exact absurd (hR.succeeded 0 (by decide)) (by decide)

end UnifiedConnection

end Zylib.Nel
