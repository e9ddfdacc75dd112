import Zylib.GameServer.World
import Mathlib.Data.List.Nodup

/-! What `World` knows of its connections after a heartbeat. What it takes for a connection that is still among the new
    ones is lost; if this does not happen, its sessions are those of the open connections, and each of their messages has
    been looked at. -/

namespace Zylib.GameServer

namespace World
open Run

/-- The messages that were received and have a callback, in order. -/
def received (as : List Action) : List WorldMsg :=
  as.flatMap fun
    | .networkReceviedMsg conn msg => (worldMsg? conn msg).toList
    | _ => []

/-- The messages of a connection. -/
def ofConn (conn : WorldConnection) (msgs : List WorldMsg) : List WorldMsg := msgs.filter (·.conn = conn)

def conns (w : World) : List WorldConnection := w.sessions.map (·.conn)

/-- What holds when a heartbeat has just run without a call of the network thread in between. -/
structure Tracked (as : List Action) (w : World) : Prop where
  sessions : ∀ conn, conn ∈ w.conns ↔ conn ∈ w.accepted ∧ conn ∉ w.ended ∧ conn ∉ w.selfClosed
  looked : ∀ conn ∈ w.conns, ofConn conn w.looked = ofConn conn (received as)

/-- What is taken is not for a connection that is still among the new ones. -/
def Settled (w : World) : Action → Prop
  | .processClosedConn => ∀ conn ∈ w.closedConn, conn ∉ w.newConn
  | .dispatchMsg => ∀ msg ∈ w.worldMsgs, msg.conn ∉ w.newConn
  | _ => True

instance (w : World) (a : Action) : Decidable (w.Settled a) := by
  unfold Settled
  split <;> infer_instance

/-- What holds after the steps `past`. -/
structure Inv (past : List Action) (w : World) : Prop where
  nodup : w.conns.Nodup
  fresh : ∀ conn ∈ w.newConn, conn ∉ w.conns
  known : ∀ conn, conn ∈ w.newConn ∨ conn ∈ w.conns → conn ∈ w.accepted
  gone : ∀ conn ∈ w.accepted, conn ∈ w.newConn ∨ conn ∈ w.conns ∨ conn ∈ w.ended ∨ conn ∈ w.selfClosed
  reported : ∀ conn ∈ w.ended, conn ∈ w.accepted
  ended : ∀ conn ∈ w.ended,
    conn ∈ w.closedConn ∨ conn ∉ w.newConn ∧ ∀ s ∈ w.sessions, s.conn = conn → s.isClosed = true
  closedConn : ∀ conn ∈ w.closedConn, conn ∈ w.ended
  closed : ∀ s ∈ w.sessions, s.isClosed = true →
    s.conn ∈ w.ended ∧ w.phase ≠ .processNewConn ∧ w.phase ≠ .processClosedConn
  selfClosed : ∀ conn ∈ w.selfClosed, conn ∈ w.accepted ∧ conn ∉ w.newConn ∧ conn ∉ w.conns
  heard : ∀ conn, conn ∈ w.newConn ∨ conn ∈ w.conns →
    ofConn conn w.looked ++ ofConn conn w.worldMsgs = ofConn conn (received past)
  senders : ∀ msg, msg ∈ w.looked ∨ msg ∈ w.worldMsgs ∨ msg ∈ received past → msg.conn ∈ w.accepted

variable {past as : List Action} {a : Action} {w t : World} {shuts : WorldMsg → Bool} {conn : WorldConnection}

theorem received_concat (past : List Action) (a : Action) : received (past ++ [a]) = received past ++ received [a] :=
  List.flatMap_append

theorem ofConn_append (conn : WorldConnection) (ms ns : List WorldMsg) :
    ofConn conn (ms ++ ns) = ofConn conn ms ++ ofConn conn ns := List.filter_append ..

theorem ofConn_eq_nil {ms : List WorldMsg} (h : ∀ m ∈ ms, m.conn ≠ conn) : ofConn conn ms = [] :=
  List.filter_eq_nil_iff.mpr fun m hm heq => h m hm (of_decide_eq_true heq)

theorem mem_conns : conn ∈ w.conns ↔ ∃ s ∈ w.sessions, s.conn = conn := List.mem_map

/-- The calls that receive nothing. -/
theorem Inv.concat (hI : Inv past w) (h : received [a] = []) : Inv (past ++ [a]) w := by
  have hreceived : received (past ++ [a]) = received past := by rw [received_concat, h, List.append_nil]
  exact { hI with
    heard := fun conn hconn => (hI.heard conn hconn).trans (by rw [hreceived])
    senders := fun msg hmsg => hI.senders msg (hreceived ▸ hmsg) }

/-! ### The network thread -/

theorem inv_networkAccept (hI : Inv past w) (h : w.networkAccept conn = .ok t) : Inv past t := by
  unfold networkAccept at h
  split at h
  · cases h
  · rename_i hnew
    cases h
    have hnone : ∀ {ms : List WorldMsg}, (∀ m ∈ ms, m.conn ∈ w.accepted) → ofConn conn ms = [] := fun hms =>
      ofConn_eq_nil fun m hm heq => hnew (heq ▸ hms m hm)
    have hconns : conn ∉ w.conns := fun hc => hnew (hI.known conn (.inr hc))
    have hnewConn : ∀ c ∈ w.accepted, c ∉ w.newConn → c ∉ w.newConn ++ [conn] := by
      intro c hc hold hmem
      rcases List.mem_append.mp hmem with hmem | hmem
      · exact hold hmem
      · exact hnew (List.mem_singleton.mp hmem ▸ hc)
    refine { hI with
      fresh := fun c hc => ?_
      known := fun c hc => ?_
      gone := fun c hc => ?_
      reported := fun c hc => List.mem_append_left _ (hI.reported c hc)
      ended := fun c hc => ?_
      selfClosed := fun c hc => ?_
      heard := fun c hc => ?_
      senders := fun m hm => List.mem_append_left _ (hI.senders m hm) }
    · rcases List.mem_append.mp hc with hc | hc
      · exact hI.fresh c hc
      · exact List.mem_singleton.mp hc ▸ hconns
    · rcases hc with hc | hc
      · rcases List.mem_append.mp hc with hc | hc
        · exact List.mem_append_left _ (hI.known c (.inl hc))
        · exact List.mem_append_right _ hc
      · exact List.mem_append_left _ (hI.known c (.inr hc))
    · rcases List.mem_append.mp hc with hc | hc
      · exact (hI.gone c hc).imp_left (List.mem_append_left _)
      · exact .inl (List.mem_append_right _ hc)
    · exact (hI.ended c hc).imp_right fun h => ⟨hnewConn c (hI.reported c hc) h.1, h.2⟩
    · obtain ⟨haccepted, hnotNew, hnotConn⟩ := hI.selfClosed c hc
      exact ⟨List.mem_append_left _ haccepted, hnewConn c haccepted hnotNew, hnotConn⟩
    · by_cases heq : c = conn
      · subst heq
        have hmsgs : ∀ ms : List WorldMsg, (∀ m ∈ ms, m ∈ w.looked ∨ m ∈ w.worldMsgs ∨ m ∈ received past) → ofConn c ms = [] :=
          fun ms hms => hnone fun m hm => hI.senders m (hms m hm)
        rw [hmsgs w.looked fun m hm => .inl hm, hmsgs w.worldMsgs fun m hm => .inr (.inl hm),
          hmsgs (received past) fun m hm => .inr (.inr hm), List.append_nil]
      · refine hI.heard c (hc.imp_left fun hc => ?_)
        exact (List.mem_append.mp hc).resolve_right fun h => heq (List.mem_singleton.mp h)

theorem mem_accepted_of_isOpen (h : w.isOpen conn = true) : conn ∈ w.accepted :=
  of_decide_eq_true (Bool.and_eq_true_iff.mp h).1

theorem inv_networkReceviedMsg (hI : Inv past w) {msg : NetworkMsg} (h : w.networkReceviedMsg conn msg = .ok t) :
    Inv (past ++ [.networkReceviedMsg conn msg]) t := by
  unfold networkReceviedMsg at h
  split at h
  · rename_i hopen
    cases h
    have hreceived : received (past ++ [.networkReceviedMsg conn msg]) = received past ++ (worldMsg? conn msg).toList := by
      rw [received_concat]
      exact congrArg _ (List.append_nil _)
    have hsender : ∀ m ∈ (worldMsg? conn msg).toList, m.conn ∈ w.accepted := by
      intro m hm
      obtain ⟨cb, -, rfl⟩ := Option.map_eq_some_iff.mp (Option.mem_toList.mp hm)
      exact mem_accepted_of_isOpen hopen
    refine { hI with heard := fun c hc => ?_, senders := fun m hm => ?_ }
    · rw [hreceived, ofConn_append, ofConn_append, ← List.append_assoc, hI.heard c hc]
    · rw [hreceived, List.mem_append, List.mem_append] at hm
      rcases hm with hm | (hm | hm) | (hm | hm)
      · exact hI.senders m (.inl hm)
      · exact hI.senders m (.inr (.inl hm))
      · exact hsender m hm
      · exact hI.senders m (.inr (.inr hm))
      · exact hsender m hm
  · cases h

theorem inv_networkEnded (hI : Inv past w) (h : w.networkEnded conn = .ok t) : Inv past t := by
  unfold networkEnded at h
  split at h
  · rename_i hopen
    cases h
    have haccepted := mem_accepted_of_isOpen hopen
    refine { hI with
      gone := fun c hc => ?_
      reported := fun c hc => ?_
      ended := fun c hc => ?_
      closedConn := fun c hc => ?_
      closed := fun s hs hclosed => ?_ }
    · rcases hI.gone c hc with h | h | h | h
      · exact .inl h
      · exact .inr (.inl h)
      · exact .inr (.inr (.inl (List.mem_append_left _ h)))
      · exact .inr (.inr (.inr h))
    · rcases List.mem_append.mp hc with hc | hc
      · exact hI.reported c hc
      · exact List.mem_singleton.mp hc ▸ haccepted
    · rcases List.mem_append.mp hc with hc | hc
      · exact (hI.ended c hc).imp_left (List.mem_append_left _)
      · exact .inl (List.mem_append_right _ hc)
    · rcases List.mem_append.mp hc with hc | hc
      · exact List.mem_append_left _ (hI.closedConn c hc)
      · exact List.mem_append_right _ hc
    · obtain ⟨hended, hphase⟩ := hI.closed s hs hclosed
      exact ⟨List.mem_append_left _ hended, hphase⟩
  · cases h

/-! ### heartbeat -/

theorem foldl_insertSession (news : List WorldConnection) (sessions : List WorldSession)
    (hnodup : (sessions.map (·.conn)).Nodup) :
    ((news.foldl insertSession sessions).map (·.conn)).Nodup ∧
      (∀ s ∈ news.foldl insertSession sessions, s ∈ sessions ∨ ∃ c ∈ news, s = { conn := c }) ∧
      ∀ c, c ∈ (news.foldl insertSession sessions).map (·.conn) ↔ c ∈ sessions.map (·.conn) ∨ c ∈ news := by
  induction news generalizing sessions with
  | nil => exact ⟨hnodup, fun _ h => .inl h, fun c => by simp⟩
  | cons n news ih =>
    have hany : sessions.any (·.conn = n) = true ↔ n ∈ sessions.map (·.conn) := by simp
    have hnodup' : ((insertSession sessions n).map (·.conn)).Nodup := by
      unfold insertSession
      split
      · exact hnodup
      · rename_i hnew
        rw [List.map_append, List.nodup_append]
        refine ⟨hnodup, List.nodup_singleton _, fun c hc d hd heq => hnew (hany.mpr ?_)⟩
        have hdn : d = n := List.mem_singleton.mp hd
        rw [← hdn, ← heq]
        exact hc
    have hmem : ∀ s ∈ insertSession sessions n, s ∈ sessions ∨ s = { conn := n } := by
      intro s hs
      unfold insertSession at hs
      split at hs
      · exact .inl hs
      · exact (List.mem_append.mp hs).imp_right List.mem_singleton.mp
    have hconn : ∀ c, c ∈ (insertSession sessions n).map (·.conn) ↔ c ∈ sessions.map (·.conn) ∨ c = n := by
      intro c
      unfold insertSession
      split
      · rename_i hold
        exact ⟨.inl, fun h => h.elim id fun heq => heq ▸ hany.mp hold⟩
      · rw [List.map_append, List.mem_append]
        exact or_congr_right List.mem_singleton
    obtain ⟨h1, h2, h3⟩ := ih _ hnodup'
    refine ⟨h1, fun s hs => ?_, fun c => ?_⟩
    · rcases h2 s hs with hs | ⟨c, hc, rfl⟩
      · exact (hmem s hs).imp_right fun heq => ⟨n, List.mem_cons_self, heq⟩
      · exact .inr ⟨c, List.mem_cons_of_mem _ hc, rfl⟩
    · exact (h3 c).trans (by rw [hconn, List.mem_cons, or_assoc])

theorem inv_processNewConn (hI : Inv past w) (hphase : w.phase = .processNewConn) :
    Inv past { w.processNewConn with phase := .processClosedConn } := by
  obtain ⟨hnodup, hmem, hconns⟩ := foldl_insertSession w.newConn w.sessions hI.nodup
  have hopen : ∀ s ∈ w.processNewConn.sessions, ¬s.isClosed = true := by
    intro s hs hclosed
    rcases hmem s hs with hs | ⟨c, -, rfl⟩
    · exact (hI.closed s hs hclosed).2.1 hphase
    · cases hclosed
  refine { hI with
    nodup := hnodup
    fresh := fun _ h => (List.not_mem_nil h).elim
    known := fun c hc => hI.known c ?_
    gone := fun c hc => ?_
    ended := fun c hc => ?_
    closed := fun s hs hclosed => absurd hclosed (hopen s hs)
    selfClosed := fun c hc => ?_
    heard := fun c hc => hI.heard c ?_ }
  · exact hc.elim (fun h => (List.not_mem_nil h).elim) fun h => ((hconns c).mp h).symm
  · rcases hI.gone c hc with h | h | h | h
    · exact .inr (.inl ((hconns c).mpr (.inr h)))
    · exact .inr (.inl ((hconns c).mpr (.inl h)))
    · exact .inr (.inr (.inl h))
    · exact .inr (.inr (.inr h))
  · refine (hI.ended c hc).imp_right fun h => ⟨List.not_mem_nil, fun s hs heq => ?_⟩
    rcases hmem s hs with hs | ⟨c', hc', rfl⟩
    · exact h.2 s hs heq
    · exact absurd (heq ▸ hc') h.1
  · obtain ⟨haccepted, hnotNew, hnotConn⟩ := hI.selfClosed c hc
    exact ⟨haccepted, List.not_mem_nil, fun h => ((hconns c).mp h).elim hnotConn hnotNew⟩
  · exact hc.elim (fun h => (List.not_mem_nil h).elim) fun h => ((hconns c).mp h).symm

/-- The sessions of a map of the sessions that leaves the connections. -/
theorem conns_map {sessions : List WorldSession} {f : WorldSession → WorldSession} (hf : ∀ s, (f s).conn = s.conn) :
    (sessions.map f).map (·.conn) = sessions.map (·.conn) := by
  rw [List.map_map]
  exact List.map_congr_left fun s _ => hf s

theorem inv_processClosedConn (hI : Inv past w) (hsettled : ∀ conn ∈ w.closedConn, conn ∉ w.newConn) :
    Inv past { w.processClosedConn with phase := .dispatchMsg } := by
  have hconns : w.processClosedConn.conns = w.conns := conns_map fun s => by split <;> rfl
  have hmem : ∀ s ∈ w.processClosedConn.sessions, ∃ s' ∈ w.sessions, s.conn = s'.conn ∧
      (s.isClosed = true ↔ s'.isClosed = true ∨ s'.conn ∈ w.closedConn) := by
    intro s hs
    obtain ⟨s', hs', rfl⟩ := List.mem_map.mp hs
    refine ⟨s', hs', by split <;> rfl, ?_⟩
    split
    · rename_i hclosed
      exact ⟨fun _ => .inr hclosed, fun _ => rfl⟩
    · rename_i hclosed
      exact (or_iff_left hclosed).symm
  refine { hI with
    nodup := hconns.symm ▸ hI.nodup
    fresh := fun c hc => hconns.symm ▸ hI.fresh c hc
    known := fun c hc => hI.known c (hconns ▸ hc)
    gone := fun c hc => by
      have := hI.gone c hc
      rwa [← hconns] at this
    ended := fun c hc => .inr ?_
    closedConn := fun _ h => (List.not_mem_nil h).elim
    closed := fun s hs hclosed => ⟨?_, fun h => (by cases h), fun h => (by cases h)⟩
    selfClosed := fun c hc => hconns.symm ▸ hI.selfClosed c hc
    heard := fun c hc => hI.heard c (hconns ▸ hc) }
  · rcases hI.ended c hc with h | h
    · refine ⟨hsettled c h, fun s hs heq => ?_⟩
      obtain ⟨s', -, hconn, hiff⟩ := hmem s hs
      exact hiff.mpr (.inr (by rwa [← hconn, heq]))
    · refine ⟨h.1, fun s hs heq => ?_⟩
      obtain ⟨s', hs', hconn, hiff⟩ := hmem s hs
      exact hiff.mpr (.inl (h.2 s' hs' (hconn.symm.trans heq)))
  · obtain ⟨s', hs', hconn, hiff⟩ := hmem s hs
    rw [hconn]
    exact (hiff.mp hclosed).elim (fun h => (hI.closed s' hs' h).1) fun h => hI.closedConn _ h

/-- Sessions that keep their connections and states. -/
def SameSessions (ss ts : List WorldSession) : Prop :=
  ts.map (·.conn) = ss.map (·.conn) ∧ ∀ s ∈ ts, ∃ s' ∈ ss, s.conn = s'.conn ∧ s.isClosed = s'.isClosed

theorem SameSessions.refl (ss : List WorldSession) : SameSessions ss ss := ⟨rfl, fun s hs => ⟨s, hs, rfl, rfl⟩⟩

theorem SameSessions.trans {ss ts us : List WorldSession} (h : SameSessions ss ts) (h' : SameSessions ts us) :
    SameSessions ss us := by
  refine ⟨h'.1.trans h.1, fun s hs => ?_⟩
  obtain ⟨s₁, hs₁, hconn₁, hclosed₁⟩ := h'.2 s hs
  obtain ⟨s₂, hs₂, hconn₂, hclosed₂⟩ := h.2 s₁ hs₁
  exact ⟨s₂, hs₂, hconn₁.trans hconn₂, hclosed₁.trans hclosed₂⟩

/-- A message is looked at if its connection has a session. -/
theorem dispatch_spec (w : World) (msg : WorldMsg) : ∃ sessions, SameSessions w.sessions sessions ∧
    w.dispatch msg = { w with sessions, looked := w.looked ++ [msg].filter (·.conn ∈ w.conns) } := by
  unfold dispatch findSession
  cases hfind : w.sessions.find? (·.conn = msg.conn) with
  | none =>
    have hnone : msg.conn ∉ w.conns := by
      intro hmem
      obtain ⟨s, hs, heq⟩ := mem_conns.mp hmem
      exact List.find?_eq_none.mp hfind s hs (decide_eq_true heq)
    refine ⟨_, .refl w.sessions, ?_⟩
    rw [List.filter_cons_of_neg (by simpa using hnone), List.filter_nil, List.append_nil]
  | some session =>
    have hsome : msg.conn ∈ w.conns :=
      mem_conns.mpr ⟨session, List.mem_of_find?_eq_some hfind, by simpa using List.find?_some hfind⟩
    rw [List.filter_cons_of_pos (by simpa using hsome), List.filter_nil]
    dsimp only
    split
    · exact ⟨_, .refl w.sessions, rfl⟩
    · refine ⟨_, ⟨conns_map fun s => by split <;> rfl, fun s hs => ?_⟩, rfl⟩
      obtain ⟨s', hs', rfl⟩ := List.mem_map.mp hs
      exact ⟨s', hs', by split <;> rfl, by split <;> rfl⟩

theorem foldl_dispatch (msgs : List WorldMsg) (w : World) : ∃ sessions, SameSessions w.sessions sessions ∧
    msgs.foldl dispatch w = { w with sessions, looked := w.looked ++ msgs.filter (·.conn ∈ w.conns) } := by
  induction msgs generalizing w with
  | nil => exact ⟨_, .refl w.sessions, by simp⟩
  | cons msg msgs ih =>
    obtain ⟨sessions, hsame, heq⟩ := dispatch_spec w msg
    obtain ⟨sessions', hsame', heq'⟩ := ih (w.dispatch msg)
    rw [heq] at hsame'
    have hconns : (w.dispatch msg).conns = w.conns := by
      rw [heq]
      exact hsame.1
    refine ⟨sessions', hsame.trans hsame', ?_⟩
    rw [List.foldl_cons, heq', hconns, heq, List.append_assoc, ← List.filter_append, List.singleton_append]

theorem inv_dispatchMsg (hI : Inv past w)
    (hsettled : ∀ msg ∈ w.worldMsgs, msg.conn ∉ w.newConn) : Inv past { w.dispatchMsg with phase := .sessions } := by
  obtain ⟨sessions, ⟨hconns, hmem⟩, heq⟩ := foldl_dispatch w.worldMsgs { w with worldMsgs := [] }
  have hdispatch : w.dispatchMsg = { w with
      worldMsgs := [], sessions, looked := w.looked ++ w.worldMsgs.filter (·.conn ∈ w.conns) } := heq
  rw [hdispatch]
  have hiff : ∀ c, c ∈ sessions.map (·.conn) ↔ c ∈ w.conns := fun c => iff_of_eq (congrArg (c ∈ ·) hconns)
  have hlooked : ∀ c, c ∈ w.newConn ∨ c ∈ w.conns →
      ofConn c (w.worldMsgs.filter (·.conn ∈ w.conns)) = ofConn c w.worldMsgs := by
    intro c hc
    unfold ofConn
    rw [List.filter_filter]
    refine List.filter_congr fun m hm => ?_
    by_cases hmc : m.conn = c
    · have hold : m.conn ∈ w.conns := hc.elim (fun h => absurd (hmc ▸ h) (hsettled m hm)) fun h => hmc ▸ h
      simp [hmc, hmc ▸ hold]
    · simp [hmc]
  refine { hI with
    nodup := (congrArg List.Nodup hconns).mpr hI.nodup
    fresh := fun c hc hmem => hI.fresh c hc ((hiff c).mp hmem)
    known := fun c hc => hI.known c (hc.imp_right (hiff c).mp)
    gone := fun c hc => (hI.gone c hc).imp_right (Or.imp_left (hiff c).mpr)
    ended := fun c hc => (hI.ended c hc).imp_right fun h => ⟨h.1, fun s hs heq => ?_⟩
    closed := fun s hs hclosed => ⟨?_, fun h => (by cases h), fun h => (by cases h)⟩
    selfClosed := fun c hc => (hI.selfClosed c hc).imp_right (And.imp_right fun h hmem => h ((hiff c).mp hmem))
    heard := fun c hc => ?_
    senders := fun m hm => ?_ }
  · obtain ⟨s', hs', hconn, hclosed⟩ := hmem s hs
    rw [hclosed]
    exact h.2 s' hs' (hconn.symm.trans heq)
  · obtain ⟨s', hs', hconn, hsame⟩ := hmem s hs
    rw [hconn]
    exact (hI.closed s' hs' (hsame ▸ hclosed)).1
  · have hc : c ∈ w.newConn ∨ c ∈ w.conns := hc.imp_right (hiff c).mp
    rw [ofConn_append, hlooked c hc, ← hI.heard c hc]
    exact List.append_nil _
  · rcases hm with hm | hm | hm
    · rcases List.mem_append.mp hm with hm | hm
      · exact hI.senders m (.inl hm)
      · exact hI.senders m (.inr (.inl (List.mem_filter.mp hm).1))
    · cases hm
    · exact hI.senders m (.inr (.inr hm))

theorem conn_heartbeat (shuts : WorldMsg → Bool) (s : WorldSession) : (s.heartbeat shuts).conn = s.conn := by
  have hloop : ∀ (msgs : List WorldMsg) (s : WorldSession), (s.heartbeatLoop shuts msgs).conn = s.conn := by
    intro msgs
    induction msgs with
    | nil => exact fun s => rfl
    | cons msg msgs ih =>
      intro s
      rw [WorldSession.heartbeatLoop]
      split
      · rfl
      · rw [ih]
        split <;> rfl
  exact hloop s.worldMsgs s

/-- A session that stays is one that was open before and that its heartbeat has left open. -/
theorem mem_heartbeatSessions {s : WorldSession} : s ∈ (w.heartbeatSessions shuts).sessions ↔
    s.isClosed = false ∧ ∃ s' ∈ w.sessions, s'.isClosed = false ∧ s'.heartbeat shuts = s := by
  have hkept : s ∈ (w.heartbeatSessions shuts).sessions ↔
      s ∈ (w.sessions.map fun s => if s.isClosed then s else s.heartbeat shuts) ∧ (!s.isClosed) = true := List.mem_filter
  rw [hkept, List.mem_map, Bool.not_eq_true', and_comm]
  refine and_congr_right fun hopen => exists_congr fun s' => and_congr_right fun _ => ?_
  cases hclosed : s'.isClosed with
  | true =>
    refine iff_of_false ?_ fun h => (by cases h.1)
    rintro rfl
    cases hclosed.symm.trans hopen
  | false => exact (and_iff_right rfl).symm

theorem conns_heartbeatSessions (shuts : WorldMsg → Bool) (w : World) :
    (w.heartbeatSessions shuts).conns.Sublist w.conns := by
  have hbeaten : (w.sessions.map fun s => if s.isClosed then s else s.heartbeat shuts).map (·.conn) = w.conns :=
    conns_map fun s => by
      split
      · rfl
      · exact conn_heartbeat shuts s
  exact hbeaten ▸ List.filter_sublist.map _

theorem mem_selfClosed : conn ∈ (w.heartbeatSessions shuts).selfClosed ↔ conn ∈ w.selfClosed ∨
    ∃ s ∈ w.sessions, s.isClosed = false ∧ (s.heartbeat shuts).isClosed = true ∧ s.conn = conn := by
  unfold heartbeatSessions
  simp only [List.mem_append, List.mem_map, List.mem_filter, Bool.and_eq_true, Bool.not_eq_true', and_assoc]

theorem inv_heartbeatSessions (hI : Inv past w) :
    Inv past { w.heartbeatSessions shuts with phase := .processNewConn } := by
  have hsub := conns_heartbeatSessions shuts w
  refine { hI with
    nodup := hI.nodup.sublist hsub
    fresh := fun c hc hmem => hI.fresh c hc (hsub.subset hmem)
    known := fun c hc => hI.known c (hc.imp_right fun h => hsub.subset h)
    gone := fun c hc => ?_
    ended := fun c hc => (hI.ended c hc).imp_right fun h => ⟨h.1, fun s hs heq => ?_⟩
    closed := fun s hs hclosed => by cases (mem_heartbeatSessions.mp hs).1.symm.trans hclosed
    selfClosed := fun c hc => ?_
    heard := fun c hc => hI.heard c (hc.imp_right fun h => hsub.subset h) }
  · rcases hI.gone c hc with h | h | h | h
    · exact .inl h
    · obtain ⟨s, hs, rfl⟩ := mem_conns.mp h
      cases hclosed : s.isClosed with
      | true => exact .inr (.inr (.inl (hI.closed s hs hclosed).1))
      | false =>
        cases hbeaten : (s.heartbeat shuts).isClosed with
        | true => exact .inr (.inr (.inr (mem_selfClosed.mpr (.inr ⟨s, hs, hclosed, hbeaten, rfl⟩))))
        | false =>
          have hstays := mem_heartbeatSessions.mpr ⟨hbeaten, s, hs, hclosed, rfl⟩
          exact .inr (.inl (mem_conns.mpr ⟨s.heartbeat shuts, hstays, conn_heartbeat shuts s⟩))
    · exact .inr (.inr (.inl h))
    · exact .inr (.inr (.inr (mem_selfClosed.mpr (.inl h))))
  · obtain ⟨-, s', hs', hopen, rfl⟩ := mem_heartbeatSessions.mp hs
    rw [conn_heartbeat] at heq
    cases hopen.symm.trans (h.2 s' hs' heq)
  · rcases mem_selfClosed.mp hc with hc | ⟨s, hs, -, hclosed, rfl⟩
    · exact (hI.selfClosed c hc).imp_right (And.imp_right fun h hmem => h (hsub.subset hmem))
    · have hconn : s.conn ∈ w.conns := mem_conns.mpr ⟨s, hs, rfl⟩
      refine ⟨hI.known _ (.inr hconn), fun h => hI.fresh _ h hconn, fun hmem => ?_⟩
      -- the session of the connection has closed itself, so it does not stay
      obtain ⟨t, ht, heq⟩ := mem_conns.mp hmem
      obtain ⟨htopen, s', hs', -, rfl⟩ := mem_heartbeatSessions.mp ht
      rw [conn_heartbeat] at heq
      have hsame : s' = s := List.inj_on_of_nodup_map hI.nodup hs' hs heq
      cases (hsame ▸ htopen).symm.trans hclosed

theorem inv_step (hI : Inv past w) (hsettled : w.Settled a) (h : step shuts w a = .ok t) : Inv (past ++ [a]) t := by
  cases a with
  | networkAccept conn => exact (inv_networkAccept hI h).concat rfl
  | networkReceviedMsg conn msg => exact inv_networkReceviedMsg hI h
  | networkTimeout conn => exact (inv_networkEnded hI h).concat rfl
  | networkClosed conn => exact (inv_networkEnded hI h).concat rfl
  | processNewConn =>
    simp only [step] at h
    split at h
    · rename_i hphase
      cases h
      exact (inv_processNewConn hI hphase).concat rfl
    · cases h
  | processClosedConn =>
    simp only [step] at h
    split at h
    · cases h
      exact (inv_processClosedConn hI hsettled).concat rfl
    · cases h
  | dispatchMsg =>
    simp only [step] at h
    split at h
    · cases h
      exact (inv_dispatchMsg hI hsettled).concat rfl
    · cases h
  | sessions =>
    simp only [step] at h
    split at h
    · cases h
      exact (inv_heartbeatSessions hI).concat rfl
    · cases h

theorem inv_init : Inv [] {} where
  nodup := List.nodup_nil
  fresh _ h := (List.not_mem_nil h).elim
  known _ h := h.elim (fun h => (List.not_mem_nil h).elim) fun h => (List.not_mem_nil h).elim
  gone _ h := (List.not_mem_nil h).elim
  reported _ h := (List.not_mem_nil h).elim
  ended _ h := (List.not_mem_nil h).elim
  closedConn _ h := (List.not_mem_nil h).elim
  closed _ h := (List.not_mem_nil h).elim
  selfClosed _ h := (List.not_mem_nil h).elim
  heard _ _ := rfl
  senders _ h := by simp [received] at h

theorem dispatchMsg_taken (w : World) :
    w.dispatchMsg.newConn = w.newConn ∧ w.dispatchMsg.closedConn = w.closedConn ∧ w.dispatchMsg.worldMsgs = [] := by
  obtain ⟨sessions, -, heq⟩ := foldl_dispatch w.worldMsgs { w with worldMsgs := [] }
  rw [dispatchMsg, heq]
  exact ⟨rfl, rfl, rfl⟩

/-- A heartbeat without a call of the network thread leaves nothing to take. -/
theorem heartbeat_taken (h : run (step shuts) w heartbeat = .ok t) :
    t.newConn = [] ∧ t.closedConn = [] ∧ t.worldMsgs = [] ∧ t.phase = .processNewConn := by
  have hphase : w.phase = .processNewConn := by
    by_contra hne
    simp [heartbeat, run, step, hne] at h
  simp only [heartbeat, run, step, hphase, if_true, Except.ok.injEq] at h
  subst h
  exact ⟨(dispatchMsg_taken _).1, (dispatchMsg_taken _).2.1, (dispatchMsg_taken _).2.2, rfl⟩

/-- In a run in which nothing is taken for a connection that is still among the new ones, the sessions after each
    heartbeat without a call of the network thread are those of the open connections, and each of their messages has been
    looked at once, in order. -/
theorem tracked_heartbeat (h : run (step shuts) {} (past ++ heartbeat) = .ok w)
    (hsettled : Along (step shuts) Settled {} (past ++ heartbeat)) : Tracked past w := by
  have hI := run_history [] inv_step inv_init hsettled h
  obtain ⟨u, -, hbeat⟩ := exists_of_run_append h
  obtain ⟨hnew, hclosed, hmsgs, hphase⟩ := heartbeat_taken hbeat
  have hreceived : received (past ++ heartbeat) = received past := (List.flatMap_append ..).trans (List.append_nil _)
  have hopen : ∀ conn ∈ w.conns, conn ∉ w.ended := by
    intro conn hconn hended
    rcases hI.ended conn hended with hmem | ⟨-, hall⟩
    · rw [hclosed] at hmem
      cases hmem
    · obtain ⟨s, hs, heq⟩ := mem_conns.mp hconn
      exact (hI.closed s hs (hall s hs heq)).2.1 hphase
  refine ⟨fun conn => ⟨fun hconn => ?_, fun hconn => ?_⟩, fun conn hconn => ?_⟩
  · exact ⟨hI.known conn (.inr hconn), hopen conn hconn, fun hself => (hI.selfClosed conn hself).2.2 hconn⟩
  · rcases hI.gone conn hconn.1 with hmem | hmem | hmem | hmem
    · rw [hnew] at hmem
      cases hmem
    · exact hmem
    · exact absurd hmem hconn.2.1
    · exact absurd hmem hconn.2.2
  · have heard := hI.heard conn (.inr hconn)
    rw [hmsgs, List.nil_append, hreceived] at heard
    exact (List.append_nil _).symm.trans heard

/-- Two connections, one of which is closed; their messages arrive between the parts of a heartbeat. -/
theorem tracked_heartbeat_two :
    let past : List Action := [.networkAccept 1, .networkAccept 2, .processNewConn, .networkReceviedMsg 1 ⟨3, [7]⟩,
      .networkClosed 2, .processClosedConn, .networkReceviedMsg 1 ⟨1, [8]⟩, .dispatchMsg, .networkReceviedMsg 1 ⟨9, []⟩,
      .sessions]
    ∃ w, run (step fun _ => false) {} (past ++ heartbeat) = .ok w ∧ Tracked past w := by
  intro past
  exact ⟨_, rfl, tracked_heartbeat rfl (by decide)⟩

/-- A connection that is accepted after the new connections were taken and closed before the closed ones are: its session
    stays. -/
theorem closed_kept : ¬∀ (shuts : WorldMsg → Bool) (past : List Action) w,
    run (step shuts) {} (past ++ heartbeat) = .ok w → Tracked past w := by
  intro h
  have hT := h (fun _ => false) [.processNewConn, .networkAccept 1, .networkClosed 1, .processClosedConn, .dispatchMsg,
    .sessions] _ rfl
  exact absurd ((hT.sessions 1).mp (by decide)).2.1 (by decide)

end World

end Zylib.GameServer
