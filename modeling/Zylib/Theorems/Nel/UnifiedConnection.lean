import Zylib.Nel.UnifiedConnection
import Zylib.Lib.Run

/-! The table of endpoints of a `UnifiedConnection`. A socket that is accepted and closed between the two
    places where `update` looks at the queues is closed before it has an endpoint, and the assertion
    fails; nothing else makes it fail. -/

namespace Zylib.Nel

def Item.new? : Item → Option Sock
  | .newSock sock => some sock
  | _ => none

def Item.ended? : Item → Option Sock
  | .closedSock sock => some sock
  | .timeoutSock sock => some sock
  | _ => none

def Item.failed? : Item → Option Sock
  | .connectFail client => some client.sock
  | _ => none

namespace UnifiedConnection
open Run

/-! ### Where the sockets are -/

/-- The sockets that are closed or timed out and still have to be taken out of the table. -/
def closing (c : UnifiedConnection) : List Sock := c.closedSock ++ c.timeoutSock ++ c.todo.filterMap Item.ended?

/-- The sockets whose attempt to connect failed, until that is seen. -/
def failing (c : UnifiedConnection) : List Sock := c.clientConnectFail.map NetClient.sock ++ c.todo.filterMap Item.failed?

/-- The sockets that were accepted and still have to be put into the table. -/
def waiting (c : UnifiedConnection) : List Sock := c.serverNewSock ++ c.todo.filterMap Item.new?

/-- The sockets that are connected or connecting, or were and this still has to be seen. -/
def active (c : UnifiedConnection) : List Sock := c.live ++ c.closing ++ c.connecting ++ c.failing

structure Inv (c : UnifiedConnection) : Prop where
  nodup : c.active.Nodup
  active : ∀ x ∈ c.active, x ∈ c.socks ∧ (x ∈ c.endpoints ∨ x ∈ c.waiting)
  client : ∀ x ∈ c.connecting ++ c.failing, x ∈ c.endpoints
  waitingNodup : c.waiting.Nodup
  waiting : ∀ x ∈ c.waiting, x ∈ c.socks ∧ x ∉ c.endpoints ∧ x ∉ c.retryEndpoints
  endpoints : ∀ x ∈ c.endpoints, x ∈ c.socks
  retry : ∀ x ∈ c.retryEndpoints, x ∈ c.socks ∧ x ∉ c.active
  retrySock : ∀ x e, c.retryEndpoints.lookup x = some e → ∀ client, e.client = some client → client.sock = x
  endpointSock : ∀ x e, c.endpoints.lookup x = some e → ∀ client, e.client = some client → client.sock = x
  kind : (∀ i ∈ c.todo, i.new? = none) ∨ ∀ i ∈ c.todo, i.ended? = none

/-- The socket that `update` takes next from the closed or timed out ones is not one that still waits
    to be put into the table. -/
def EndsAfterNew (c : UnifiedConnection) : Action → Prop
  | .update _ => ∀ item todo, c.todo = item :: todo → ∀ sock, item.ended? = some sock → sock ∉ c.serverNewSock
  | _ => True

section
variable {c d : UnifiedConnection} {a : Action}

/-- A step that only moves the active and the waiting sockets keeps the invariant. -/
theorem Inv.of_perm (hI : Inv c) (hactive : d.active.Perm c.active) (hwaiting : d.waiting.Perm c.waiting)
    (hclient : ∀ x ∈ d.connecting ++ d.failing, x ∈ c.connecting ++ c.failing) (hsocks : d.socks = c.socks)
    (hendpoints : d.endpoints = c.endpoints) (hretry : d.retryEndpoints = c.retryEndpoints)
    (hkind : (∀ i ∈ d.todo, i.new? = none) ∨ ∀ i ∈ d.todo, i.ended? = none) : Inv d where
  nodup := hactive.nodup_iff.mpr hI.nodup
  active x hx := by
    rw [hsocks, hendpoints, hwaiting.mem_iff]
    exact hI.active x (hactive.mem_iff.mp hx)
  client x hx := hendpoints ▸ hI.client x (hclient x hx)
  waitingNodup := hwaiting.nodup_iff.mpr hI.waitingNodup
  waiting x hx := by
    rw [hsocks, hendpoints, hretry]
    exact hI.waiting x (hwaiting.mem_iff.mp hx)
  endpoints x hx := hsocks ▸ hI.endpoints x (hendpoints ▸ hx)
  retry x hx := by
    rw [hsocks, hactive.mem_iff]
    exact hI.retry x (hretry ▸ hx)
  retrySock x e h := hI.retrySock x e (hretry ▸ h)
  endpointSock x e h := hI.endpointSock x e (hendpoints ▸ h)
  kind := hkind

/-- A socket that is not made yet is nowhere. -/
theorem Inv.fresh (hI : Inv c) {x : Sock} (hx : x ∉ c.socks) :
    x ∉ c.active ∧ x ∉ c.waiting ∧ x ∉ c.endpoints ∧ x ∉ c.retryEndpoints :=
  ⟨fun h => hx (hI.active x h).1, fun h => hx (hI.waiting x h).1, fun h => hx (hI.endpoints x h), fun h => hx (hI.retry x h).1⟩

/-- A step that puts `x` into the table, where it is active or becomes so. -/
theorem Inv.of_insert (hI : Inv c) {x : Sock} {e : TEndpoint} (hend : d.endpoints = c.endpoints.insert x e)
    (hsock : ∀ client, e.client = some client → client.sock = x) (hsocks : x ∈ d.socks ∧ c.socks ⊆ d.socks)
    (hnodup : d.active.Nodup) (hactive : ∀ y ∈ d.active, y = x ∨ y ∈ c.active)
    (hclient : ∀ y ∈ d.connecting ++ d.failing, y = x ∨ y ∈ c.connecting ++ c.failing) (hwaitingNodup : d.waiting.Nodup)
    (hwaiting : x ∉ d.waiting ∧ ∀ y, y ≠ x → (y ∈ d.waiting ↔ y ∈ c.waiting))
    (hretry : x ∉ d.retryEndpoints ∧ ∀ y e, d.retryEndpoints.lookup y = some e → c.retryEndpoints.lookup y = some e)
    (hkind : (∀ i ∈ d.todo, i.new? = none) ∨ ∀ i ∈ d.todo, i.ended? = none) : Inv d := by
  have hmem : ∀ {y}, y ∈ d.endpoints ↔ y = x ∨ y ∈ c.endpoints := by
    intro y
    rw [hend, AList.mem_insert]
  have hretryMem : ∀ {y}, y ∈ d.retryEndpoints → y ≠ x ∧ y ∈ c.retryEndpoints := by
    intro y hy
    obtain ⟨e, he⟩ := Option.isSome_iff_exists.mp (AList.lookup_isSome.mpr hy)
    refine ⟨fun h => hretry.1 (h ▸ hy), AList.lookup_isSome.mp ?_⟩
    rw [hretry.2 y e he]
    rfl
  refine ⟨hnodup, fun y hy => ?_, fun y hy => ?_, hwaitingNodup, fun y hy => ?_, fun y hy => ?_, fun y hy => ?_,
    fun y e he => hI.retrySock y e (hretry.2 y e he), fun y e he client hc => ?_, hkind⟩
  · by_cases hyx : y = x
    · exact ⟨hyx ▸ hsocks.1, Or.inl (hmem.mpr (Or.inl hyx))⟩
    · obtain ⟨h₁, h₂⟩ := hI.active y ((hactive y hy).resolve_left hyx)
      exact ⟨hsocks.2 h₁, h₂.imp (fun h => hmem.mpr (Or.inr h)) (hwaiting.2 y hyx).mpr⟩
  · exact hmem.mpr ((hclient y hy).imp_right (hI.client y))
  · have hyx : y ≠ x := fun h => hwaiting.1 (h ▸ hy)
    obtain ⟨h₁, h₂, h₃⟩ := hI.waiting y ((hwaiting.2 y hyx).mp hy)
    exact ⟨hsocks.2 h₁, fun h => (hmem.mp h).elim hyx h₂, fun h => h₃ (hretryMem h).2⟩
  · rcases hmem.mp hy with rfl | hy
    · exact hsocks.1
    · exact hsocks.2 (hI.endpoints y hy)
  · obtain ⟨hyx, hy⟩ := hretryMem hy
    exact ⟨hsocks.2 (hI.retry y hy).1, fun h => (hactive y h).elim hyx (hI.retry y hy).2⟩
  · rw [hend] at he
    by_cases hyx : y = x
    · subst hyx
      rw [AList.lookup_insert] at he
      cases he
      exact hsock client hc
    · rw [AList.lookup_insert_ne hyx] at he
      exact hI.endpointSock y e he client hc

/-- A step that takes the active `x` out of the table, or only out of the active ones, and may keep it
    for a retry. -/
theorem Inv.of_release (hI : Inv c) {x : Sock} (hx : x ∈ c.endpoints)
    (hend : ∀ y e, d.endpoints.lookup y = some e → c.endpoints.lookup y = some e)
    (hkeep : ∀ y, y ≠ x → (y ∈ c.endpoints → y ∈ d.endpoints))
    (hactive : c.active.Perm (x :: d.active)) (hclient : ∀ y ∈ d.connecting ++ d.failing, y ∈ c.connecting ++ c.failing)
    (hwaiting : d.waiting = c.waiting) (hsocks : d.socks = c.socks)
    (hretry : ∀ y e, d.retryEndpoints.lookup y = some e → c.retryEndpoints.lookup y = some e ∨
      y = x ∧ c.endpoints.lookup y = some e)
    (hkind : (∀ i ∈ d.todo, i.new? = none) ∨ ∀ i ∈ d.todo, i.ended? = none) : Inv d := by
  obtain ⟨hxactive, hnodup⟩ := List.nodup_cons.mp (hactive.nodup_iff.mp hI.nodup)
  have hsub : ∀ {y}, y ∈ d.active → y ∈ c.active := fun hy => hactive.mem_iff.mpr (List.mem_cons_of_mem _ hy)
  have hne : ∀ {y}, y ∈ d.active → y ≠ x := fun hy h => hxactive (h ▸ hy)
  have hmem : ∀ {y} {m : AList fun _ : Sock => TEndpoint}, y ∈ m ↔ ∃ e, m.lookup y = some e := fun {y m} =>
    AList.lookup_isSome.symm.trans Option.isSome_iff_exists
  have hendMem : ∀ {y}, y ∈ d.endpoints → y ∈ c.endpoints := fun hy =>
    hmem.mpr ((hmem.mp hy).imp fun e he => hend _ e he)
  refine ⟨hnodup, fun y hy => ?_, fun y hy => ?_, hwaiting ▸ hI.waitingNodup, fun y hy => ?_, fun y hy => ?_, fun y hy => ?_,
    fun y e he client hc => ?_, fun y e he => hI.endpointSock y e (hend y e he), hkind⟩
  · obtain ⟨h₁, h₂⟩ := hI.active y (hsub hy)
    exact ⟨hsocks ▸ h₁, h₂.imp (hkeep y (hne hy)) fun h => hwaiting ▸ h⟩
  · refine hkeep y (hne ?_) (hI.client y (hclient y hy))
    unfold UnifiedConnection.active
    rw [List.append_assoc]
    exact List.mem_append_right _ hy
  · rw [hwaiting] at hy
    obtain ⟨h₁, h₂, h₃⟩ := hI.waiting y hy
    refine ⟨hsocks ▸ h₁, fun h => h₂ (hendMem h), fun h => ?_⟩
    obtain ⟨e, he⟩ := hmem.mp h
    rcases hretry y e he with h | ⟨rfl, -⟩
    · exact h₃ (hmem.mpr ⟨e, h⟩)
    · exact h₂ hx
  · exact hsocks ▸ hI.endpoints y (hendMem hy)
  · obtain ⟨e, he⟩ := hmem.mp hy
    rcases hretry y e he with h | ⟨rfl, h⟩
    · have hold := hI.retry y (hmem.mpr ⟨e, h⟩)
      exact ⟨hsocks ▸ hold.1, fun h => hold.2 (hsub h)⟩
    · exact ⟨hsocks ▸ hI.endpoints y hx, hxactive⟩
  · rcases hretry y e he with h | ⟨rfl, h⟩
    · exact hI.retrySock y e h client hc
    · exact hI.endpointSock y e h client hc

/-! ### The thread of the `io_service` -/

theorem mem_concat_append {l l' : List Sock} {x y : Sock} (h : y ∈ l ++ [x] ++ l') : y = x ∨ y ∈ l ++ l' := by
  rcases List.mem_append.mp h with h | h
  · rcases List.mem_append.mp h with h | h
    · exact Or.inr (List.mem_append_left _ h)
    · exact Or.inl (List.mem_singleton.mp h)
  · exact Or.inr (List.mem_append_right _ h)

theorem inv_addService (hI : Inv c) {x : Sock} (hx : x ∉ c.socks) :
    Inv { c.addClientEndpoint ⟨x⟩ with socks := c.socks ++ [x], connecting := c.connecting ++ [x] } := by
  obtain ⟨hactive, hwaiting, hend, hretry⟩ := hI.fresh hx
  have hperm : (c.live ++ c.closing ++ (c.connecting ++ [x]) ++ c.failing).Perm (x :: c.active) := by
    refine List.perm_iff_count.mpr fun y => ?_
    simp only [UnifiedConnection.active, List.count_append, List.count_cons, List.count_nil]
    omega
  refine hI.of_insert (x := x) rfl ?_ ⟨List.mem_append_right _ List.mem_cons_self, List.subset_append_left _ _⟩
    (hperm.nodup_iff.mpr (List.nodup_cons.mpr ⟨hactive, hI.nodup⟩)) (fun y hy => List.mem_cons.mp (hperm.mem_iff.mp hy)) ?_
    hI.waitingNodup ⟨hwaiting, fun _ _ => Iff.rfl⟩ ⟨hretry, fun _ _ h => h⟩ hI.kind
  · rintro _ ⟨⟩
    rfl
  · exact fun y hy => mem_concat_append hy

theorem inv_serverAccept (hI : Inv c) {x : Sock} (hx : x ∉ c.socks) :
    Inv { c.cbServerAccept x with socks := c.socks ++ [x], live := c.live ++ [x] } := by
  obtain ⟨hactive, hwaiting, hend, hretry⟩ := hI.fresh hx
  have hperm : (c.live ++ [x] ++ c.closing ++ c.connecting ++ c.failing).Perm (x :: c.active) := by
    refine List.perm_iff_count.mpr fun y => ?_
    simp only [UnifiedConnection.active, List.count_append, List.count_cons, List.count_nil]
    omega
  have hperm' : (c.serverNewSock ++ [x] ++ c.todo.filterMap Item.new?).Perm (x :: c.waiting) := by
    refine List.perm_iff_count.mpr fun y => ?_
    simp only [UnifiedConnection.waiting, List.count_append, List.count_cons, List.count_nil]
    omega
  have hold : ∀ {y}, y ∈ c.socks → y ∈ c.socks ++ [x] := List.mem_append_left _
  have hnew : x ∈ c.socks ++ [x] := List.mem_append_right _ List.mem_cons_self
  refine ⟨hperm.nodup_iff.mpr (List.nodup_cons.mpr ⟨hactive, hI.nodup⟩), fun y hy => ?_, hI.client,
    hperm'.nodup_iff.mpr (List.nodup_cons.mpr ⟨hwaiting, hI.waitingNodup⟩), fun y hy => ?_,
    fun y hy => hold (hI.endpoints y hy), fun y hy => ⟨hold (hI.retry y hy).1, fun h => ?_⟩, hI.retrySock,
    hI.endpointSock, hI.kind⟩
  · rcases List.mem_cons.mp (hperm.mem_iff.mp hy) with rfl | hy
    · exact ⟨hnew, Or.inr (hperm'.mem_iff.mpr List.mem_cons_self)⟩
    · exact ⟨hold (hI.active y hy).1, (hI.active y hy).2.imp_right fun h => hperm'.mem_iff.mpr (List.mem_cons_of_mem _ h)⟩
  · rcases List.mem_cons.mp (hperm'.mem_iff.mp hy) with rfl | hy
    · exact ⟨hnew, hend, hretry⟩
    · exact ⟨hold (hI.waiting y hy).1, (hI.waiting y hy).2⟩
  · rcases List.mem_cons.mp (hperm.mem_iff.mp h) with rfl | h
    · exact hretry hy
    · exact (hI.retry y hy).2 h

theorem inv_clientConnect (hI : Inv c) {x : Sock} (hx : x ∈ c.connecting) (ec : Bool) :
    Inv { c.cbClientConnect ec ⟨x⟩ with
      connecting := c.connecting.erase x
      live := if ec then c.live else c.live ++ [x] } := by
  have hperm := (List.perm_cons_erase hx).count_eq
  cases ec with
  | true =>
    have hclient : (c.connecting.erase x ++ ((c.clientConnectFail ++ [(⟨x⟩ : NetClient)]).map NetClient.sock ++
        c.todo.filterMap Item.failed?)).Perm (c.connecting ++ c.failing) := by
      refine List.perm_iff_count.mpr fun y => ?_
      have hcount := hperm y
      simp only [failing, List.count_append, List.count_cons, List.map_append, List.map_cons, List.map_nil,
        List.count_nil] at hcount ⊢
      omega
    refine hI.of_perm ?_ (List.Perm.refl _) (fun y hy => hclient.mem_iff.mp hy) rfl rfl rfl hI.kind
    have hactive := hclient.append_left (c.live ++ c.closing)
    rw [← List.append_assoc, ← List.append_assoc (c.live ++ c.closing)] at hactive
    exact hactive
  | false =>
    refine hI.of_perm (List.perm_iff_count.mpr fun y => ?_) (List.Perm.refl _) (fun y hy => ?_) rfl rfl rfl hI.kind
    · have hcount := hperm y
      show (c.live ++ [x] ++ c.closing ++ c.connecting.erase x ++ c.failing).count y = c.active.count y
      simp only [UnifiedConnection.active, List.count_append, List.count_cons, List.count_nil] at hcount ⊢
      omega
    · exact List.mem_append.mpr ((List.mem_append.mp hy).imp_left List.mem_of_mem_erase)

theorem inv_sockEnded (hI : Inv c) {x : Sock} (hx : x ∈ c.live) :
    Inv { c.cbSockClosed x with live := c.live.erase x } ∧ Inv { c.cbSockTimeout x with live := c.live.erase x } := by
  have hperm := (List.perm_cons_erase hx).count_eq
  constructor
  · refine hI.of_perm (List.perm_iff_count.mpr fun y => ?_) (List.Perm.refl _) (fun _ h => h) rfl rfl rfl hI.kind
    have hcount := hperm y
    show (c.live.erase x ++ (c.closedSock ++ [x] ++ c.timeoutSock ++ c.todo.filterMap Item.ended?) ++ c.connecting ++
      c.failing).count y = c.active.count y
    simp only [UnifiedConnection.active, closing, List.count_append, List.count_cons, List.count_nil] at hcount ⊢
    omega
  · refine hI.of_perm (List.perm_iff_count.mpr fun y => ?_) (List.Perm.refl _) (fun _ h => h) rfl rfl rfl hI.kind
    have hcount := hperm y
    show (c.live.erase x ++ (c.closedSock ++ (c.timeoutSock ++ [x]) ++ c.todo.filterMap Item.ended?) ++ c.connecting ++
      c.failing).count y = c.active.count y
    simp only [UnifiedConnection.active, closing, List.count_append, List.count_cons, List.count_nil] at hcount ⊢
    omega

/-! ### The main thread -/

theorem inv_take (hI : Inv c) (htodo : c.todo = []) (f : Process) (calls : List Process) :
    Inv { (c.take f).2 with todo := (c.take f).1, calls } := by
  have hkind : (∀ i ∈ (c.take f).1, i.new? = none) ∨ ∀ i ∈ (c.take f).1, i.ended? = none := by
    cases f <;> simp [take, Item.new?, Item.ended?]
  have hclosing : ((c.take f).2.closedSock ++ (c.take f).2.timeoutSock ++ (c.take f).1.filterMap Item.ended?).Perm
      c.closing := by
    cases f <;> simp [take, closing, htodo, List.filterMap_map, Function.comp_def, Item.ended?, List.perm_append_comm]
  have hfailing : (c.take f).2.clientConnectFail.map NetClient.sock ++ (c.take f).1.filterMap Item.failed? = c.failing := by
    cases f <;> simp [take, failing, htodo, List.filterMap_map, Function.comp_def, Item.failed?]
  have hwaiting : (c.take f).2.serverNewSock ++ (c.take f).1.filterMap Item.new? = c.waiting := by
    cases f <;> simp [take, UnifiedConnection.waiting, htodo, List.filterMap_map, Function.comp_def, Item.new?]
  have hlive : (c.take f).2.live = c.live := by cases f <;> rfl
  have hconnecting : (c.take f).2.connecting = c.connecting := by cases f <;> rfl
  refine hI.of_perm ?_ (List.Perm.of_eq hwaiting) (fun y hy => ?_) (by cases f <;> rfl) (by cases f <;> rfl)
    (by cases f <;> rfl) hkind
  · show ((c.take f).2.live ++ ((c.take f).2.closedSock ++ (c.take f).2.timeoutSock ++
      (c.take f).1.filterMap Item.ended?) ++ (c.take f).2.connecting ++ ((c.take f).2.clientConnectFail.map NetClient.sock ++
      (c.take f).1.filterMap Item.failed?)).Perm _
    rw [hfailing, hlive, hconnecting]
    exact ((hclosing.append_left _).append_right _).append_right _
  · have hy : y ∈ (c.take f).2.connecting ++ ((c.take f).2.clientConnectFail.map NetClient.sock ++
      (c.take f).1.filterMap Item.failed?) := hy
    rw [hfailing, hconnecting] at hy
    exact hy

theorem kind_tail (hI : Inv c) {item : Item} {todo : List Item} (htodo : c.todo = item :: todo) :
    (∀ i ∈ todo, i.new? = none) ∨ ∀ i ∈ todo, i.ended? = none := by
  rcases hI.kind with h | h <;> rw [htodo] at h
  · exact Or.inl fun i hi => h i (List.mem_cons_of_mem _ hi)
  · exact Or.inr fun i hi => h i (List.mem_cons_of_mem _ hi)

theorem failing_tail {item : Item} {todo : List Item} (htodo : c.todo = item :: todo) (hfailed : item.failed? = none) :
    ({ c with todo } : UnifiedConnection).failing = c.failing := by
  simp [failing, htodo, hfailed]

theorem waiting_tail {item : Item} {todo : List Item} (htodo : c.todo = item :: todo) (hnew : item.new? = none) :
    ({ c with todo } : UnifiedConnection).waiting = c.waiting := by
  simp [UnifiedConnection.waiting, htodo, hnew]

theorem processNewSock_inv (hI : Inv c) {x : Sock} {todo : List Item} (htodo : c.todo = .newSock x :: todo) :
    Inv ({ c with todo }.processNewSock x) := by
  have hactive : ({ c with todo }.processNewSock x).active = c.active := by
    simp [UnifiedConnection.active, closing, failing, processNewSock, callback, htodo, Item.ended?, Item.failed?,
      List.filterMap_cons]
  have hwaiting : c.waiting.Perm (x :: ({ c with todo }.processNewSock x).waiting) := by
    simp [UnifiedConnection.waiting, processNewSock, callback, htodo, Item.new?]
  have hclient : ({ c with todo }.processNewSock x).failing = c.failing := by
    simp [failing, processNewSock, callback, htodo, Item.failed?, List.filterMap_cons]
  obtain ⟨hx, hnodup⟩ := List.nodup_cons.mp (hwaiting.nodup_iff.mp hI.waitingNodup)
  obtain ⟨hsocks, hend, hretry⟩ := hI.waiting x (hwaiting.mem_iff.mpr List.mem_cons_self)
  refine hI.of_insert (x := x) (e := ⟨none, x⟩) rfl (fun _ h => by cases h) ⟨hsocks, fun _ h => h⟩ (hactive ▸ hI.nodup)
    (fun y hy => Or.inr (hactive ▸ hy)) (fun y hy => Or.inr ?_) hnodup ⟨hx, fun y hyx => ?_⟩ ⟨hretry, fun _ _ h => h⟩
    (kind_tail hI htodo)
  · rw [hclient] at hy
    exact hy
  · rw [hwaiting.mem_iff, List.mem_cons, or_iff_right hyx]

/-- An item that changes nothing but is dropped. -/
theorem inv_drop (hI : Inv c) {item : Item} {todo : List Item} (htodo : c.todo = item :: todo) (hended : item.ended? = none)
    (hnew : item.new? = none) (hfailed : item.failed? = none) (callbacks : List ServiceCallback) :
    Inv { c with todo, callbacks } := by
  have hactive : ({ c with todo, callbacks } : UnifiedConnection).active = c.active := by
    simp [UnifiedConnection.active, closing, failing, htodo, hended, hfailed]
  have hfailing : ({ c with todo, callbacks } : UnifiedConnection).failing = c.failing := failing_tail htodo hfailed
  refine hI.of_perm (List.Perm.of_eq hactive) (List.Perm.of_eq (waiting_tail htodo hnew)) (fun y hy => ?_) rfl rfl rfl
    (kind_tail hI htodo)
  rw [hfailing] at hy
  exact hy

theorem lookup_insert_cases {m : AList fun _ : Sock => TEndpoint} {x y : Sock} {v e : TEndpoint}
    (h : (m.insert x v).lookup y = some e) : m.lookup y = some e ∨ y = x ∧ e = v := by
  by_cases hyx : y = x
  · subst hyx
    rw [AList.lookup_insert] at h
    cases h
    exact Or.inr ⟨rfl, rfl⟩
  · rw [AList.lookup_insert_ne hyx] at h
    exact Or.inl h

theorem lookup_erase_cases {m : AList fun _ : Sock => TEndpoint} {x y : Sock} {e : TEndpoint}
    (h : (m.erase x).lookup y = some e) : m.lookup y = some e := by
  by_cases hyx : y = x
  · subst hyx
    rw [AList.lookup_erase] at h
    cases h
  · rwa [AList.lookup_erase_ne hyx] at h

theorem mem_of_lookup {m : AList fun _ : Sock => TEndpoint} {x : Sock} {e : TEndpoint} (h : m.lookup x = some e) : x ∈ m :=
  AList.lookup_isSome.mp (by rw [h]; rfl)

theorem Item.kind_of_ended {item : Item} {x : Sock} (h : item.ended? = some x) :
    item.new? = none ∧ item.failed? = none := by
  cases item with
  | closedSock sock => exact ⟨rfl, rfl⟩
  | timeoutSock sock => exact ⟨rfl, rfl⟩
  | _ => cases h

theorem processEndedSock_inv (hI : Inv c) {item : Item} {x : Sock} {todo : List Item} (htodo : c.todo = item :: todo)
    (hitem : item.ended? = some x) (h : { c with todo }.processEndedSock x = .ok d) : Inv d := by
  obtain ⟨hnew, hfailed⟩ := Item.kind_of_ended hitem
  have hactive : c.active.Perm (x :: ({ c with todo } : UnifiedConnection).active) := by
    refine List.perm_iff_count.mpr fun y => ?_
    simp only [UnifiedConnection.active, closing, failing, htodo, List.filterMap_cons, hitem, hfailed, List.count_append,
      List.count_cons]
    omega
  have hfailing := failing_tail htodo hfailed
  have hwaiting := waiting_tail htodo hnew
  unfold processEndedSock at h
  split at h
  · cases h
  · rename_i e he
    cases h
    have he : c.endpoints.lookup x = some e := he
    have hkeep : ∀ y, y ≠ x → (y ∈ c.endpoints → y ∈ c.endpoints.erase x) := fun y hyx hy => AList.mem_erase.mpr ⟨hyx, hy⟩
    split
    · refine hI.of_release (mem_of_lookup he) (fun y e h => lookup_erase_cases h) hkeep hactive
        (fun y hy => hfailing ▸ hy) hwaiting rfl (fun y e' h => ?_) (kind_tail hI htodo)
      rcases lookup_insert_cases h with h | ⟨rfl, rfl⟩
      · exact Or.inl h
      · exact Or.inr ⟨rfl, he⟩
    · exact hI.of_release (mem_of_lookup he) (fun y e h => lookup_erase_cases h) hkeep hactive
        (fun y hy => hfailing ▸ hy) hwaiting rfl (fun y e' h => Or.inl h) (kind_tail hI htodo)

theorem processConnectFail_inv (hI : Inv c) {client : NetClient} {todo : List Item}
    (htodo : c.todo = .connectFail client :: todo) (h : { c with todo }.processConnectFail client = .ok d) : Inv d := by
  have hfailing : c.failing.Perm (client.sock :: ({ c with todo } : UnifiedConnection).failing) := by
    simp [failing, htodo, Item.failed?]
  have hactive : c.active.Perm (client.sock :: ({ c with todo } : UnifiedConnection).active) := by
    refine List.perm_iff_count.mpr fun y => ?_
    have hcount := hfailing.count_eq y
    simp only [UnifiedConnection.active, closing, htodo, List.filterMap_cons, Item.ended?, List.count_append,
      List.count_cons] at hcount ⊢
    omega
  have hwaiting := waiting_tail htodo rfl
  have hclient : ∀ y ∈ c.connecting ++ ({ c with todo } : UnifiedConnection).failing, y ∈ c.connecting ++ c.failing :=
    fun y hy => List.mem_append.mpr ((List.mem_append.mp hy).imp_right fun h =>
      hfailing.mem_iff.mpr (List.mem_cons_of_mem _ h))
  have hx : client.sock ∈ c.endpoints :=
    hI.client _ (List.mem_append_right _ (hfailing.mem_iff.mpr List.mem_cons_self))
  unfold processConnectFail at h
  split at h
  · split at h
    · cases h
    · rename_i e he
      cases h
      have he : c.endpoints.lookup client.sock = some e := he
      refine hI.of_release hx (fun y e h => h) (fun _ _ hy => hy) hactive hclient hwaiting rfl (fun y e' h => ?_)
        (kind_tail hI htodo)
      rcases lookup_insert_cases h with h | ⟨rfl, rfl⟩
      · exact Or.inl h
      · exact Or.inr ⟨rfl, he⟩
  · cases h
    exact hI.of_release hx (fun y e h => h) (fun _ _ hy => hy) hactive hclient hwaiting rfl (fun y e' h => Or.inl h)
      (kind_tail hI htodo)

theorem processRetry_inv (hI : Inv c) {x : Sock} {started : Bool} {todo : List Item} (htodo : c.todo = .retry x :: todo)
    (h : { c with todo }.processRetry x started = .ok d) : Inv d := by
  have hdrop := inv_drop hI htodo rfl rfl rfl
  unfold processRetry at h
  split at h
  · cases h
    exact hdrop c.callbacks
  · rename_i e he
    have he : c.retryEndpoints.lookup x = some e := he
    obtain ⟨hsocks, hactive⟩ := hI.retry x (mem_of_lookup he)
    split at h
    · cases h
    · rename_i client hclient
      obtain rfl : client.sock = x := hI.retrySock x e he client hclient
      split at h <;> cases h
      · have hperm : (c.live ++ ({ c with todo } : UnifiedConnection).closing ++ (c.connecting ++ [client.sock]) ++
            ({ c with todo } : UnifiedConnection).failing).Perm (client.sock :: c.active) := by
          refine List.perm_iff_count.mpr fun y => ?_
          simp only [UnifiedConnection.active, closing, failing, htodo, List.filterMap_cons, Item.ended?, Item.failed?,
            List.count_append, List.count_cons, List.count_nil]
          omega
        have hfailing := failing_tail htodo rfl
        have hwaiting := waiting_tail htodo rfl
        refine hI.of_insert (x := client.sock) (e := e) rfl (fun cl hcl => ?_) ⟨hsocks, fun _ h => h⟩
          (hperm.nodup_iff.mpr (List.nodup_cons.mpr ⟨hactive, hI.nodup⟩))
          (fun y hy => List.mem_cons.mp (hperm.mem_iff.mp hy)) (fun y hy => ?_) (hwaiting ▸ hI.waitingNodup)
          ⟨fun hy => ?_, fun y _ => ?_⟩ ⟨fun hy => (AList.mem_erase.mp hy).1 rfl, fun y e h => lookup_erase_cases h⟩
          (kind_tail hI htodo)
        · rw [hclient] at hcl
          cases hcl
          rfl
        · exact hfailing ▸ mem_concat_append hy
        · exact (hI.waiting _ (hwaiting ▸ hy)).2.2 (mem_of_lookup he)
        · rw [← hwaiting]
          exact Iff.rfl
      · exact hdrop c.callbacks

/-- What a step of the main thread does: the next item, the next call of `update`, or a new `update`. -/
theorem update_cases (c : UnifiedConnection) (started : Bool) :
    (∃ item todo, c.todo = item :: todo ∧ c.update started = { c with todo }.processItem started item) ∨
    (∃ f calls, c.todo = [] ∧ c.calls = f :: calls ∧
      c.update started = .ok { (c.take f).2 with todo := (c.take f).1, calls }) ∨
    (c.todo = [] ∧ c.calls = [] ∧ c.update started = .ok { c with calls := c.updateCalls }) := by
  unfold update
  cases h : c.todo with
  | cons item todo => exact Or.inl ⟨item, todo, rfl, rfl⟩
  | nil =>
    cases hc : c.calls with
    | cons f calls => exact Or.inr (Or.inl ⟨f, calls, rfl, rfl, rfl⟩)
    | nil => exact Or.inr (Or.inr ⟨rfl, rfl, rfl⟩)

theorem inv_update (hI : Inv c) {started : Bool} (h : c.update started = .ok d) : Inv d := by
  rcases update_cases c started with ⟨item, todo, htodo, hu⟩ | ⟨f, calls, htodo, -, hu⟩ | ⟨htodo, -, hu⟩ <;> rw [hu] at h
  · cases item with
    | newSock sock =>
      cases h
      exact processNewSock_inv hI htodo
    | closedSock sock => exact processEndedSock_inv hI htodo rfl h
    | timeoutSock sock => exact processEndedSock_inv hI htodo rfl h
    | connectSuccess client =>
      cases h
      exact inv_drop hI htodo rfl rfl rfl _
    | connectFail client => exact processConnectFail_inv hI htodo h
    | retry sock => exact processRetry_inv hI htodo h
  · cases h
    exact inv_take hI htodo f calls
  · cases h
    exact hI.of_perm (List.Perm.refl _) (List.Perm.refl _) (fun _ h => h) rfl rfl rfl hI.kind

theorem inv_step (hI : Inv c) (h : step c a = .ok d) : Inv d := by
  cases a with
  | addService sock =>
    simp only [step] at h
    split at h <;> cases h
    exact inv_addService hI ‹_›
  | serverAccept sock =>
    simp only [step] at h
    split at h <;> cases h
    exact inv_serverAccept hI ‹_›
  | clientConnect ec sock =>
    simp only [step] at h
    split at h <;> cases h
    exact inv_clientConnect hI ‹_› ec
  | sockClosed sock =>
    simp only [step] at h
    split at h <;> cases h
    exact (inv_sockEnded hI ‹_›).1
  | sockTimeout sock =>
    simp only [step] at h
    split at h <;> cases h
    exact (inv_sockEnded hI ‹_›).2
  | update started => exact inv_update hI h

theorem inv_init (autoRetry : Bool) : Inv { autoRetry } := by
  refine ⟨?_, ?_, ?_, ?_, ?_, fun x hx => ?_, fun x hx => ?_, fun x e h => ?_, fun x e h => ?_, ?_⟩
  · exact List.nodup_nil
  · simp [UnifiedConnection.active, closing, failing]
  · simp [failing]
  · exact List.nodup_nil
  · simp [UnifiedConnection.waiting]
  · exact absurd hx (AList.notMem_empty x)
  · exact absurd hx (AList.notMem_empty x)
  · cases h
  · cases h
  · exact Or.inl (by simp)

/-! ### The assertion -/

/-- A socket that `update` takes from the closed or timed out ones has an endpoint if and only if it does
    not still wait to get one. -/
theorem findEndpoint_eq_none (hI : Inv c) {item : Item} {x : Sock} {todo : List Item} (htodo : c.todo = item :: todo)
    (hitem : item.ended? = some x) : c.findEndpoint x = none ↔ x ∈ c.serverNewSock := by
  have hnew : c.todo.filterMap Item.new? = [] := by
    refine List.filterMap_eq_nil_iff.mpr (hI.kind.resolve_right fun h => ?_)
    rw [h item (htodo ▸ List.mem_cons_self)] at hitem
    cases hitem
  have hwaiting : x ∈ c.waiting ↔ x ∈ c.serverNewSock := by
    rw [UnifiedConnection.waiting, hnew, List.append_nil]
  have hclosing : x ∈ c.closing :=
    List.mem_append_right _ (List.mem_filterMap.mpr ⟨item, htodo ▸ List.mem_cons_self, hitem⟩)
  have hactive : x ∈ c.active :=
    List.mem_append_left _ (List.mem_append_left _ (List.mem_append_right _ hclosing))
  unfold findEndpoint
  rw [AList.lookup_eq_none, ← hwaiting]
  exact ⟨(hI.active x hactive).2.resolve_left, fun h => (hI.waiting x h).2.1⟩

theorem processEndedSock_ne (hI : Inv c) {item : Item} {x : Sock} {todo : List Item} (htodo : c.todo = item :: todo)
    (hitem : item.ended? = some x) :
    { c with todo }.processEndedSock x ≠ .error .assertEndpoint ↔ x ∉ c.serverNewSock := by
  rw [← findEndpoint_eq_none hI htodo hitem]
  show processEndedSock { c with todo } x ≠ .error .assertEndpoint ↔ ¬({ c with todo } : UnifiedConnection).findEndpoint x = none
  unfold processEndedSock
  cases ({ c with todo } : UnifiedConnection).findEndpoint x with
  | none => simp
  | some e => simp

theorem processConnectFail_ne (hI : Inv c) {client : NetClient} {todo : List Item}
    (htodo : c.todo = .connectFail client :: todo) : { c with todo }.processConnectFail client ≠ .error .assertEndpoint := by
  have hfailing : client.sock ∈ c.failing :=
    List.mem_append_right _ (List.mem_filterMap.mpr ⟨_, htodo ▸ List.mem_cons_self, rfl⟩)
  have hx := AList.lookup_isSome.mpr (hI.client _ (List.mem_append_right _ hfailing))
  intro h
  unfold processConnectFail at h
  split at h
  · split at h
    · rename_i hnone
      have hnone : c.endpoints.lookup client.sock = none := hnone
      rw [hnone] at hx
      cases hx
    · cases h
  · cases h

theorem processRetry_ne (c : UnifiedConnection) (x : Sock) (started : Bool) :
    c.processRetry x started ≠ .error .assertEndpoint := by
  intro h
  unfold processRetry at h
  split at h
  · cases h
  · split at h
    · cases h
    · split at h <;> cases h

theorem update_ne_assertEndpoint (hI : Inv c) (started : Bool) :
    c.update started ≠ .error .assertEndpoint ↔ EndsAfterNew c (.update started) := by
  rcases update_cases c started with ⟨item, todo, htodo, hu⟩ | ⟨f, calls, htodo, -, hu⟩ | ⟨htodo, -, hu⟩ <;> rw [hu]
  · have hends : EndsAfterNew c (.update started) ↔ ∀ x, item.ended? = some x → x ∉ c.serverNewSock := by
      refine ⟨fun h => h item todo htodo, fun h item' todo' htodo' => ?_⟩
      cases htodo.symm.trans htodo'
      exact h
    rw [hends]
    cases item with
    | closedSock sock =>
      refine (processEndedSock_ne hI htodo rfl).trans ⟨fun h x hx => ?_, fun h => h sock rfl⟩
      cases hx
      exact h
    | timeoutSock sock =>
      refine (processEndedSock_ne hI htodo rfl).trans ⟨fun h x hx => ?_, fun h => h sock rfl⟩
      cases hx
      exact h
    | newSock sock => exact ⟨fun _ x hx => (by cases hx), fun _ h => (by cases h)⟩
    | connectSuccess client => exact ⟨fun _ x hx => (by cases hx), fun _ h => (by cases h)⟩
    | connectFail client => exact ⟨fun _ x hx => (by cases hx), fun _ => processConnectFail_ne hI htodo⟩
    | retry sock => exact ⟨fun _ x hx => (by cases hx), fun _ => processRetry_ne _ sock started⟩
  · exact ⟨fun _ item todo h => absurd (htodo.symm.trans h) (by simp), fun _ h => (by cases h)⟩
  · exact ⟨fun _ item todo h => absurd (htodo.symm.trans h) (by simp), fun _ h => (by cases h)⟩

/-- A step fails the assertion that a socket has an endpoint if and only if the socket is a closed or
    timed out one that still waits to be put into the table. -/
theorem step_ne_assertEndpoint (hI : Inv c) : step c a ≠ .error .assertEndpoint ↔ EndsAfterNew c a := by
  cases a with
  | update started => exact update_ne_assertEndpoint hI started
  | _ =>
    refine ⟨fun _ => trivial, fun _ h => ?_⟩
    simp only [step] at h
    split at h <;> cases h

/-- In a run of accepts, connects, ends of sockets and steps of `update`, no socket without an endpoint is
    taken from the closed or timed out ones if and only if none that is taken still waits to get one. -/
theorem assertEndpoint_iff (autoRetry : Bool) (as : List Action) :
    run step { autoRetry } as ≠ .error .assertEndpoint ↔ Along step EndsAfterNew { autoRetry } as :=
  run_ne_error_iff_along inv_step step_ne_assertEndpoint (inv_init autoRetry)

end

/-- A socket that is accepted and closed while `update` looks at the new and then at the closed sockets. -/
theorem closed_before_new : ¬∀ as : List Action, (∀ a ∈ as, ∀ sock ec, a ≠ .addService sock ∧ a ≠ .clientConnect ec sock) →
    run step {} as ≠ .error .assertEndpoint := by
  intro h
  exact h [.update true, .update true, .serverAccept 0, .sockClosed 0, .update true, .update true] (by simp) (by rfl)

end UnifiedConnection

end Zylib.Nel
