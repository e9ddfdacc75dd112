import Zylib.Theorems.ZySoft.Net.Reports
import Zylib.Lib.Lists

/-! The table of a `TcpServer`. A connection has its own name and is told of an error at most once, so that each
    `RemoveConnection` finds its entry; an accept that fails is followed by one with no connection at all. -/

namespace Zylib.ZySoft.Net

/-- What holds in every state of a run. -/
structure TcpServer.Consistent (s : TcpServer) : Prop where
  keys : (s.connections.map Prod.fst).Nodup
  table : ∀ name i, (name, i) ∈ s.connections ↔
    ∃ sc, s.conns[i]? = some sc ∧ sc.connName = name ∧ sc.accepted = 1 ∧ sc.removed = 0
  once : ∀ sc ∈ s.conns, sc.accepted ≤ 1
  established : ∀ sc ∈ s.conns, sc.established + sc.establishing = sc.accepted
  before : ∀ sc ∈ s.conns, sc.destroyed ≠ 0 → sc.established = 1
  waiting : ∃ i sc, s.waiting = some i ∧ s.conns[i]? = some sc ∧ sc.accepted = 0

/-- No accept fails, and `nextConnId_` can be incremented. -/
def TcpServer.Accepts (s : TcpServer) : TcpServer.Action → Prop
  | .newConnection ec => ec = 0 ∧ s.nextConnId < int32Max
  | _ => True

instance (s : TcpServer) (a : TcpServer.Action) : Decidable (s.Accepts a) := by
  unfold TcpServer.Accepts
  split <;> infer_instance

/-! ### Names -/

theorem length_toString {addr : InetAddress} {conn_id : Nat} (h : conn_id ≤ int32Max) :
    (addr.ip ++ 58 :: decimal addr.port.toNat ++ 35 :: decimal conn_id).length ≤ 63 := by
  have hip := addr.isAddress
  have hport : (decimal addr.port.toNat).length ≤ 5 :=
    length_decimal_le (by decide) (Nat.lt_of_lt_of_le addr.port.toNat_lt (by decide))
  have hid : (decimal conn_id).length ≤ 10 := length_decimal_le (by decide) (Nat.lt_of_le_of_lt h (by decide))
  rw [List.length_append, List.length_append, List.length_cons, List.length_cons]
  omega

theorem toString_injective {addr : InetAddress} {m n : Nat} (hm : m ≤ int32Max) (hn : n ≤ int32Max)
    (h : toString addr m = toString addr n) : m = n := by
  rw [toString, toString, List.take_of_length_le (length_toString hm), List.take_of_length_le (length_toString hn)] at h
  exact decimal_injective (List.cons.inj (List.append_cancel_left h)).2

/-! ### A connection -/

/-- What the server knows of a connection agrees with what the connection has reported. -/
structure ServerConnection.Inv (sc : ServerConnection) : Prop where
  once : sc.accepted ≤ 1
  established : sc.established + sc.establishing = sc.accepted
  removals : sc.removed + sc.conn.removals = sc.conn.errorHandled.toNat
  destroys : sc.destroyed + sc.conn.destroys = sc.removed
  early : sc.established = 0 → sc.conn.errorHandled = false
  fronted : TcpConnection.Fronted false sc.conn

theorem ServerConnection.inv_new (name : Bytes) : ServerConnection.Inv { connName := name } where
  once := Nat.zero_le 1
  established := rfl
  removals := rfl
  destroys := rfl
  early _ := rfl
  fronted := ⟨Nat.zero_le 1, fun h => absurd rfl h, fun h => (by cases h)⟩

/-- What a step makes of a connection that the application knows. -/
theorem ServerConnection.Inv.step {sc : ServerConnection} (h : sc.Inv) (hne : sc.established ≠ 0)
    {a : TcpConnection.Action} {c : TcpConnection} (hf : TcpConnection.Fronted false c) (hb : TcpConnection.Balance sc.conn a c) :
    ServerConnection.Inv { sc with
      conn := c
      removed := sc.removed + TcpConnection.removing a
      destroyed := sc.destroyed + sc.conn.destroying a } := by
  obtain ⟨honce, hestablished, hremovals, hdestroys, -, -⟩ := h
  obtain ⟨-, hreports, hbalance⟩ := hb
  refine ⟨honce, hestablished, ?_, ?_, fun h0 => absurd h0 hne, hf⟩
  · dsimp only
    omega
  · dsimp only
    omega

namespace TcpServer
open Run

variable {s t : TcpServer} {i j : Nat} {sc sc' : ServerConnection}

structure Inv (s : TcpServer) : Prop where
  conns : ∀ sc ∈ s.conns, sc.Inv
  names : ∀ i sc, s.conns[i]? = some sc → sc.connName = toString s.addr (i + 1)
  nextConnId : s.nextConnId = s.conns.length + 1
  bound : s.nextConnId ≤ int32Max
  keys : (s.connections.map Prod.fst).Nodup
  table : ∀ name i, (name, i) ∈ s.connections ↔
    ∃ sc, s.conns[i]? = some sc ∧ sc.connName = name ∧ sc.accepted = 1 ∧ sc.removed = 0

/-- The acceptor waits with a connection that is not accepted yet. -/
def Waits (s : TcpServer) : Prop := ∃ i sc, s.waiting = some i ∧ s.conns[i]? = some sc ∧ sc.accepted = 0

theorem Inv.consistent (h : Inv s) (hw : s.Waits) : Consistent s where
  keys := h.keys
  table := h.table
  once sc hsc := (h.conns sc hsc).once
  established sc hsc := (h.conns sc hsc).established
  before sc hsc hd := by
    obtain ⟨honce, hestablished, hremovals, hdestroys, hearly, -⟩ := h.conns sc hsc
    by_contra hne
    rw [hearly (by omega)] at hremovals
    simp only [Bool.toNat_false] at hremovals
    omega
  waiting := hw

/-- The step is not possible, or keeps the invariant. -/
def Goes (r : Except Fault TcpServer) : Prop := r = .error .disabled ∨ ∃ t, r = .ok t ∧ Inv t ∧ t.Waits

theorem lt_length (h : s.conns[i]? = some sc) : i < s.conns.length := (List.getElem?_eq_some_iff.mp h).1

theorem Inv.name_injective (hI : Inv s) (hi : s.conns[i]? = some sc) (hj : s.conns[j]? = some sc')
    (h : sc.connName = sc'.connName) : i = j := by
  have hlen := hI.nextConnId
  have hbound := hI.bound
  have hilen := lt_length hi
  have hjlen := lt_length hj
  rw [hI.names i sc hi, hI.names j sc' hj] at h
  have hij : i + 1 = j + 1 := toString_injective (by omega) (by omega) h
  omega

/-- A connection changes, and the table with it. -/
theorem Inv.set (hI : Inv s) (hi : s.conns[i]? = some sc) (hsc : sc'.Inv) (hname : sc'.connName = sc.connName)
    {connections : List (Bytes × Nat)} (hkeys : (connections.map Prod.fst).Nodup)
    (hmem : (sc.connName, i) ∈ connections ↔ sc'.accepted = 1 ∧ sc'.removed = 0)
    (hother : ∀ name j, name ≠ sc.connName → ((name, j) ∈ connections ↔ (name, j) ∈ s.connections))
    (hself : ∀ j, (sc.connName, j) ∈ connections → j = i) :
    Inv { s with conns := s.conns.set i sc', connections } := by
  refine ⟨fun c hc => ?_, fun j c hj => ?_, ?_, hI.bound, hkeys, fun name j => ?_⟩
  · rcases List.mem_or_eq_of_mem_set hc with hc | rfl
    · exact hI.conns c hc
    · exact hsc
  · rcases (Lists.getElem?_set_iff hi).mp hj with ⟨rfl, rfl⟩ | ⟨-, hj⟩
    · exact hname.trans (hI.names i sc hi)
    · exact hI.names j c hj
  · exact hI.nextConnId.trans (by rw [List.length_set])
  · simp only [Lists.getElem?_set_iff hi]
    by_cases hn : name = sc.connName
    · subst hn
      constructor
      · intro hmem'
        cases hself j hmem'
        exact ⟨sc', .inl ⟨rfl, rfl⟩, hname, hmem.mp hmem'⟩
      · rintro ⟨c, ⟨rfl, rfl⟩ | ⟨hij, hc⟩, hcname, h⟩
        · exact hmem.mpr h
        · -- another connection does not have this name
          exact absurd (hI.name_injective hi hc hcname.symm) hij
    · rw [hother name j hn, hI.table name j]
      constructor
      · rintro ⟨c, hc, hcname, h⟩
        refine ⟨c, .inr ⟨?_, hc⟩, hcname, h⟩
        rintro rfl
        cases hi.symm.trans hc
        exact hn hcname.symm
      · rintro ⟨c, ⟨rfl, rfl⟩ | ⟨-, hc⟩, hcname, h⟩
        · exact absurd (hcname.symm.trans hname) hn
        · exact ⟨c, hc, hcname, h⟩

/-- A connection that stays in the table or out of it. -/
theorem Inv.set_same (hI : Inv s) (hi : s.conns[i]? = some sc) (hsc : sc'.Inv) (hname : sc'.connName = sc.connName)
    (haccepted : sc'.accepted = sc.accepted) (hremoved : sc'.removed = sc.removed) :
    Inv { s with conns := s.conns.set i sc' } := by
  refine hI.set hi hsc hname hI.keys ?_ (fun _ _ _ => Iff.rfl) fun j hj => ?_
  · rw [hI.table, haccepted, hremoved]
    refine ⟨?_, fun h => ⟨sc, hi, rfl, h⟩⟩
    rintro ⟨c, hc, -, h⟩
    cases hi.symm.trans hc
    exact h
  · obtain ⟨c, hc, hcname, -⟩ := (hI.table _ _).mp hj
    exact hI.name_injective hc hi hcname

theorem Waits.set (hw : s.Waits) (hi : s.conns[i]? = some sc) (haccepted : sc'.accepted = sc.accepted)
    {connections : List (Bytes × Nat)} : Waits { s with conns := s.conns.set i sc', connections } := by
  obtain ⟨k, c, hk, hc, h0⟩ := hw
  by_cases hik : i = k
  · subst hik
    cases hi.symm.trans hc
    exact ⟨i, sc', hk, (Lists.getElem?_set_iff hi).mpr (.inl ⟨rfl, rfl⟩), haccepted.trans h0⟩
  · exact ⟨k, c, hk, (Lists.getElem?_set_iff hi).mpr (.inr ⟨hik, hc⟩), h0⟩

/-! ### Accepting -/

theorem startAccept_goes (hI : Inv s) (hid : s.nextConnId < int32Max) : ∃ t, s.startAccept = .ok t ∧ Inv t ∧ t.Waits := by
  unfold startAccept waitAccept
  rw [if_pos hid]
  refine ⟨_, rfl, ⟨fun c hc => ?_, fun j c hj => ?_, ?_, hid, hI.keys, fun name j => ?_⟩, s.conns.length, _, ?_,
    List.getElem?_concat_length, rfl⟩
  · rcases List.mem_append.mp hc with hc | hc
    · exact hI.conns c hc
    · exact List.mem_singleton.mp hc ▸ ServerConnection.inv_new _
  · rcases Lists.getElem?_concat_iff.mp hj with hj | ⟨rfl, rfl⟩
    · exact hI.names j c hj
    · exact congrArg (toString s.addr) hI.nextConnId
  · show s.nextConnId + 1 = (s.conns ++ [_]).length + 1
    rw [hI.nextConnId, List.length_append]
    rfl
  · simp only [hI.table name j, Lists.getElem?_concat_iff]
    constructor
    · rintro ⟨c, hc, h⟩
      exact ⟨c, .inl hc, h⟩
    · rintro ⟨c, hc | ⟨-, rfl⟩, hcname, haccepted, hremoved⟩
      · exact ⟨c, hc, hcname, haccepted, hremoved⟩
      · cases haccepted
  · show some ((s.conns ++ [_]).length - 1) = _
    rw [List.length_append]
    rfl

/-- An accepted connection enters the table under a name that is not there. -/
theorem newConnection_goes (hI : Inv s) (hw : s.Waits) (hid : s.nextConnId < int32Max) : Goes (s.newConnection 0) := by
  obtain ⟨i, sc, hwait, hi, h0⟩ := hw
  obtain ⟨honce, hestablished, hremovals, hdestroys, hearly, hfronted⟩ := hI.conns sc (List.mem_of_getElem? hi)
  have herror : sc.conn.errorHandled = false := hearly (by omega)
  rw [herror, Bool.toNat_false] at hremovals
  have hfresh : ∀ j, (sc.connName, j) ∉ s.connections := by
    intro j hj
    obtain ⟨c, hc, hcname, haccepted, -⟩ := (hI.table _ _).mp hj
    have hij := hI.name_injective hc hi hcname
    subst hij
    cases hi.symm.trans hc
    omega
  have hassign : assign s.connections sc.connName i = s.connections ++ [(sc.connName, i)] := by
    rw [assign, List.filter_eq_self.mpr]
    intro e he
    exact decide_eq_true fun heq => hfresh e.2 (heq ▸ he)
  unfold newConnection
  rw [hwait]
  dsimp only
  rw [if_neg (by simp), hi]
  dsimp only
  rw [hassign]
  have hsc : ServerConnection.Inv { sc with
      conn := { sc.conn with state := .connecting }
      establishing := sc.establishing + 1
      accepted := sc.accepted + 1 } :=
    ⟨by dsimp only; omega, by dsimp only; omega, hremovals.trans (congrArg Bool.toNat herror.symm), hdestroys,
      fun _ => herror, hfronted.congr rfl rfl⟩
  refine .inr (startAccept_goes (Inv.set (s := { s with waiting := none }) ⟨hI.1, hI.2, hI.3, hI.4, hI.5, hI.6⟩
    hi hsc rfl ?_ ?_ ?_ ?_) hid)
  · rw [List.map_append]
    refine List.Nodup.append hI.keys (List.nodup_singleton _) (List.disjoint_singleton.mpr fun h => ?_)
    obtain ⟨⟨name, j⟩, hj, rfl⟩ := List.mem_map.mp h
    exact hfresh j hj
  · refine iff_of_true (List.mem_append_right _ (List.mem_singleton_self _)) ⟨by dsimp only; omega, by dsimp only; omega⟩
  · intro name j hn
    rw [List.mem_append, List.mem_singleton, or_iff_left]
    exact fun h => hn (Prod.mk.inj h).1
  · intro j hj
    rcases List.mem_append.mp hj with hj | hj
    · exact absurd hj (hfresh j)
    · exact (Prod.mk.inj (List.mem_singleton.mp hj)).2

/-! ### The other steps -/

theorem connectEstablised_goes (hI : Inv s) (hw : s.Waits) (i : Nat) (calls : List Call) :
    Goes (s.connectEstablised i calls) := by
  unfold connectEstablised
  split
  · exact .inl rfl
  · rename_i sc hi
    split
    · exact .inl rfl
    · rename_i establishing hestablishing
      obtain ⟨honce, hestablished, hremovals, hdestroys, hearly, hfronted⟩ := hI.conns sc (List.mem_of_getElem? hi)
      obtain ⟨c, hc, hf, hsame⟩ := TcpConnection.connectEstablised_ends hfronted calls
      rw [hc]
      have hsc : ServerConnection.Inv { sc with conn := c, establishing, established := sc.established + 1 } := by
        refine ⟨honce, ?_, ?_, ?_, fun h => absurd h (Nat.succ_ne_zero _), hf⟩
        · dsimp only
          omega
        · dsimp only
          rw [hsame.removals, hsame.errorHandled]
          exact hremovals
        · dsimp only
          rw [hsame.destroys]
          exact hdestroys
      exact .inr ⟨_, rfl, hI.set_same hi hsc rfl rfl rfl, hw.set hi (by rfl)⟩

theorem removing_of_ne {a : TcpConnection.Action} (h : a ≠ .removeConnection) : TcpConnection.removing a = 0 := by
  cases a <;> first | rfl | exact absurd rfl h

theorem connectionStep_goes (hI : Inv s) (hw : s.Waits) (i : Nat) {a : TcpConnection.Action} (ha : a ≠ .removeConnection) :
    Goes (s.connectionStep i a) := by
  unfold connectionStep
  split
  · exact .inl rfl
  · rename_i sc hi
    split
    · exact .inl rfl
    · rename_i hne
      have hsc := hI.conns sc (List.mem_of_getElem? hi)
      rcases TcpConnection.step_ends hsc.fronted a with h | ⟨c, hc, hf, hb⟩
      · rw [h]
        exact .inl rfl
      · rw [hc]
        have hsc' := hsc.step hne hf hb
        exact .inr ⟨_, rfl, hI.set_same hi hsc' rfl rfl (congrArg (sc.removed + ·) (removing_of_ne ha)), hw.set hi (by rfl)⟩

/-- The connection was told of its only error, so its entry is there. -/
theorem removeConnection_goes (hI : Inv s) (hw : s.Waits) (i : Nat) : Goes (s.removeConnection i) := by
  unfold removeConnection
  split
  · exact .inl rfl
  · rename_i sc hi
    split
    · exact .inl rfl
    · rename_i hremovals
      have hsc := hI.conns sc (List.mem_of_getElem? hi)
      have hle : sc.conn.errorHandled.toNat ≤ 1 := Bool.toNat_le _
      have hreported := hsc.removals
      have hremoved : sc.removed = 0 := by omega
      have hne : sc.established ≠ 0 := by
        intro h0
        rw [hsc.early h0, Bool.toNat_false] at hreported
        omega
      have haccepted : sc.accepted = 1 := by
        have honce := hsc.once
        have hestablished := hsc.established
        omega
      have hmem : (sc.connName, i) ∈ s.connections := (hI.table _ _).mpr ⟨sc, hi, rfl, haccepted, hremoved⟩
      have hcount : s.connections.countP (·.1 = sc.connName) = 1 := by
        have h := List.count_eq_one_of_mem hI.keys (List.mem_map_of_mem hmem)
        rw [List.count, List.countP_map] at h
        rw [← h]
        exact List.countP_congr fun e _ => by simp
      rw [if_neg (by rw [hcount]; simp)]
      unfold connectionStep
      dsimp only
      rw [hi]
      dsimp only
      rw [if_neg hne]
      rcases TcpConnection.step_ends hsc.fronted .removeConnection with h | ⟨c, hc, hf, hb⟩
      · rw [h]
        exact .inl rfl
      · rw [hc]
        have hsc' := hsc.step hne hf hb
        refine .inr ⟨_, rfl, hI.set hi hsc' rfl ?_ ?_ ?_ ?_, hw.set hi (by rfl)⟩
        · exact hI.keys.sublist (List.filter_sublist.map _)
        · refine iff_of_false (fun h => ?_) fun h => Nat.succ_ne_zero _ h.2
          exact of_decide_eq_true (List.mem_filter.mp h).2 rfl
        · intro name j hn
          exact List.mem_filter.trans (and_iff_left (decide_eq_true hn))
        · exact fun j hj => absurd rfl (of_decide_eq_true (List.mem_filter.mp hj).2)

theorem step_connection {a : TcpConnection.Action} (h : a ≠ .removeConnection) :
    s.step (.connection i a) = s.connectionStep i a := by
  cases a <;> first | rfl | exact absurd rfl h

theorem step_goes (hI : Inv s) (hw : s.Waits) {a : Action} (hP : s.Accepts a) : Goes (s.step a) := by
  cases a with
  | newConnection ec =>
    obtain ⟨rfl, hid⟩ := hP
    exact newConnection_goes hI hw hid
  | connectEstablised i calls => exact connectEstablised_goes hI hw i calls
  | connection i a =>
    by_cases ha : a = .removeConnection
    · subst ha
      exact removeConnection_goes hI hw i
    · rw [step_connection ha]
      exact connectionStep_goes hI hw i ha

/-- The acceptor is given no connection, or the next number does not fit. -/
theorem newConnection_fails (hw : s.Waits) {ec : ErrorCode} (h : ¬(ec = 0 ∧ s.nextConnId < int32Max)) :
    ∃ f, s.newConnection ec = .error f ∧ f ≠ .disabled := by
  obtain ⟨i, sc, hwait, hi, -⟩ := hw
  unfold newConnection
  rw [hwait]
  dsimp only
  split
  · exact ⟨.nullConnection, rfl, fun h => (by cases h)⟩
  · rename_i hec
    rw [hi]
    refine ⟨.signedOverflow, if_neg fun hid => h ⟨not_not.mp hec, hid⟩, fun h => (by cases h)⟩

/-! ### Runs -/

theorem inv_started (addr : InetAddress) : Inv (started addr) := by
  refine ⟨fun c hc => ?_, fun j c hj => ?_, rfl, ?_, List.nodup_nil, fun name j => ?_⟩
  · exact List.mem_singleton.mp hc ▸ ServerConnection.inv_new _
  · cases j with
    | zero =>
      cases hj
      rfl
    | succ j => cases hj
  · show 2 ≤ int32Max
    decide
  · refine iff_of_false (fun h => (by cases h)) ?_
    rintro ⟨c, hc, -, haccepted, -⟩
    cases j with
    | zero =>
      cases hc
      cases haccepted
    | succ j => cases hc

theorem waits_started (addr : InetAddress) : (started addr).Waits := ⟨0, _, rfl, rfl, rfl⟩

/-- The table is as it should be in every state of a run, and no step of it goes wrong, if and only if no accept fails. -/
theorem table_iff (addr : InetAddress) (as : List Action) :
    (∀ f, run step (started addr) as = .error f → f = .disabled) ∧
      (∀ as' s, as' <+: as → run step (started addr) as' = .ok s → s.Consistent) ↔
    Along step Accepts (started addr) as := by
  have hstep : ∀ {s a t}, Inv s ∧ s.Waits → Accepts s a → step s a = .ok t → Inv t ∧ t.Waits := by
    rintro s a t ⟨hI, hw⟩ hP h
    rcases step_goes hI hw hP with he | ⟨u, hu, hIu⟩
    · cases he.symm.trans h
    · cases hu.symm.trans h
      exact hIu
  have herror : (∀ f, run step (started addr) as = .error f → f = .disabled) ↔ Along step Accepts (started addr) as := by
    refine run_error_iff_along hstep ?_ ?_ ⟨inv_started addr, waits_started addr⟩
    · rintro s a e ⟨hI, hw⟩ hP h
      rcases step_goes hI hw hP with he | ⟨u, hu, -⟩
      · cases he.symm.trans h
        rfl
      · cases hu.symm.trans h
    · rintro s a ⟨hI, hw⟩ hP
      cases a with
      | newConnection ec => exact newConnection_fails hw hP
      | connectEstablised i calls => exact absurd trivial hP
      | connection i a => exact absurd trivial hP
  rw [herror, and_iff_left_iff_imp]
  rintro hP as' s ⟨bs, rfl⟩ h
  obtain ⟨hI, hw⟩ := run_invariant hstep ⟨inv_started addr, waits_started addr⟩ hP.of_append h
  exact hI.consistent hw

/-- The first accept fails. -/
theorem failedAccept_null : run step (started ⟨[48, 46, 48, 46, 48, 46, 48], 80, by decide⟩)
    [.newConnection operationAborted] = .error .nullConnection := rfl

end TcpServer
end Zylib.ZySoft.Net
