import Zylib.FrontendService.World

/-! The client tables of `World`. The one by handle holds the sessions that were accepted and not shut down; the one by
    connection holds null pointers. -/

namespace Zylib.FrontendService
open Run

/-! ### Tables -/

section
variable {κ β : Type} [DecidableEq κ] {table : List (κ × β)} {key : κ} {value : β}

theorem mem_insert {e : κ × β} (h : e ∈ insert table key value) : e ∈ table ∨ e = (key, value) := by
  unfold insert at h
  split at h
  · exact .inl h
  · rcases List.mem_append.mp h with h | h
    · exact .inl h
    · exact .inr (List.mem_singleton.mp h)

theorem insert_ne_nil (table : List (κ × β)) (key : κ) (value : β) : insert table key value ≠ [] := by
  unfold insert
  split
  · rename_i h
    rintro rfl
    cases h
  · exact List.append_ne_nil_of_right_ne_nil _ (List.cons_ne_nil _ _)

theorem mem_of_find (h : find table key = some value) : (key, value) ∈ table := by
  obtain ⟨e, he, rfl⟩ := Option.map_eq_some_iff.mp h
  have hkey : e.1 = key := by simpa using List.find?_some he
  exact hkey ▸ List.mem_of_find?_eq_some he

theorem map_fst_insert (table : List (κ × β)) (key : κ) (value : β) :
    (insert table key value).map (·.1) = if key ∈ table.map (·.1) then table.map (·.1) else table.map (·.1) ++ [key] := by
  have hany : table.any (·.1 = key) = true ↔ key ∈ table.map (·.1) := by simp
  unfold insert
  by_cases h : key ∈ table.map (·.1)
  · rw [if_pos (hany.mpr h), if_pos h]
  · rw [if_neg (hany.not.mpr h), if_neg h, List.map_append]
    rfl

theorem map_fst_erase (table : List (κ × β)) (key : κ) : (erase table key).map (·.1) = (table.map (·.1)).filter (· ≠ key) :=
by
  unfold erase
  rw [List.filter_map]
  rfl

theorem find_eq_none (h : find table key = none) : key ∉ table.map (·.1) := by
  intro hmem
  obtain ⟨e, he, rfl⟩ := List.mem_map.mp hmem
  have := List.find?_eq_none.mp (Option.map_eq_none_iff.mp h) e he
  simp at this

theorem mem_erase {e : κ × β} : e ∈ erase table key ↔ e ∈ table ∧ e.1 ≠ key := by
  unfold erase
  rw [List.mem_filter, decide_eq_true_eq]

end

/-- The handles whose sessions were accepted and not shut down. -/
def accepted (past : List Action) : List Hdl :=
  past.foldl (fun hdls a =>
    match a with
    | .onClientAccept hdl _ => if hdl ∈ hdls then hdls else hdls ++ [hdl]
    | .shutdownClientSession hdl => hdls.filter (· ≠ hdl)
    | .setUserID .. => hdls) []

namespace World

/-- What the tables are for. -/
structure Consistent (past : List Action) (w : World) : Prop where
  sessions : ∀ e ∈ w.clientSessions, e.2 ≠ none
  conns : ∀ e ∈ w.clientConns, e.2 ≠ none
  connId : ∀ e ∈ w.clientConns, ∀ session, w.deref e.2 = .ok session → session.connId = e.1
  same : (w.clientSessions.map (·.2)).Perm (w.clientConns.map (·.2))
  accepted : w.clientSessions.map (·.1) = accepted past

/-- What the tables are. -/
structure Held (past : List Action) (w : World) : Prop where
  sessions : ∀ e ∈ w.clientSessions, ∃ session, w.deref e.2 = .ok session ∧ session.hdl = e.1
  conns : ∀ e ∈ w.clientConns, e.2 = none
  accepted : w.clientSessions.map (·.1) = FrontendService.accepted past

variable {past as : List Action} {a : Action} {w w' : World}

theorem accepted_concat (past : List Action) (a : Action) : accepted (past ++ [a]) =
    match a with
    | .onClientAccept hdl _ => if hdl ∈ accepted past then accepted past else accepted past ++ [hdl]
    | .shutdownClientSession hdl => (accepted past).filter (· ≠ hdl)
    | .setUserID .. => accepted past := by
  rw [accepted, List.foldl_append]
  rfl

theorem deref_ok_iff {p : ClientSessionPtr} {session : ClientSession} :
    w.deref p = .ok session ↔ ∃ n, p = some n ∧ w.objects[n]? = some session := by
  unfold deref
  cases p with
  | none => simp
  | some n => cases hn : w.objects[n]? <;> simp [hn]

theorem held_onClientAccept (hH : Held past w) (hdl : Hdl) (user_id : UInt64) :
    Held (past ++ [.onClientAccept hdl user_id]) (w.onClientAccept hdl user_id) where
  sessions e he := by
    rcases mem_insert he with he | rfl
    · obtain ⟨session, hderef, hhdl⟩ := hH.sessions e he
      obtain ⟨n, hn, hobject⟩ := deref_ok_iff.mp hderef
      exact ⟨session, deref_ok_iff.mpr ⟨n, hn, List.getElem?_append_left (List.getElem?_eq_some_iff.mp hobject).1 ▸ hobject⟩,
        hhdl⟩
    · exact ⟨_, deref_ok_iff.mpr ⟨_, rfl, List.getElem?_concat_length⟩, rfl⟩
  conns e he := by
    rcases mem_insert he with he | rfl
    · exact hH.conns e he
    · rfl
  accepted := by
    rw [accepted_concat]
    exact (map_fst_insert ..).trans (by rw [hH.accepted])

theorem held_shutdownClientSession (hH : Held past w) (hdl : Hdl) :
    ∃ w', w.shutdownClientSession hdl = .ok w' ∧ Held (past ++ [.shutdownClientSession hdl]) w' := by
  unfold shutdownClientSession
  cases hfind : find w.clientSessions hdl with
  | none =>
    refine ⟨w, rfl, hH.sessions, hH.conns, ?_⟩
    have habsent := find_eq_none hfind
    rw [accepted_concat, hH.accepted]
    rw [hH.accepted] at habsent
    refine (List.filter_eq_self.mpr fun x hx => ?_).symm
    have hne : x ≠ hdl := fun heq => habsent (heq ▸ hx)
    simpa using hne
  | some cs =>
    obtain ⟨session, hderef, -⟩ := hH.sessions _ (mem_of_find hfind)
    simp only [hderef]
    have hsessions : ∀ e ∈ erase w.clientSessions hdl, ∃ session, w.deref e.2 = .ok session ∧ session.hdl = e.1 :=
      fun e he => hH.sessions e (mem_erase.mp he).1
    have haccepted : (erase w.clientSessions hdl).map (·.1) = accepted (past ++ [.shutdownClientSession hdl]) := by
      rw [accepted_concat, map_fst_erase, hH.accepted]
    split
    · exact ⟨_, rfl, hsessions, fun e he => hH.conns e (mem_erase.mp he).1, haccepted⟩
    · exact ⟨_, rfl, hsessions, hH.conns, haccepted⟩

theorem held_setUserID (hH : Held past w) (hdl : Hdl) (user_id : UInt64) :
    Held (past ++ [.setUserID hdl user_id]) (w.setUserID hdl user_id) := by
  have haccepted : w.clientSessions.map (·.1) = accepted (past ++ [.setUserID hdl user_id]) := by
    rw [accepted_concat, hH.accepted]
  unfold setUserID
  split
  · refine ⟨fun e he => ?_, hH.conns, haccepted⟩
    rename_i p _
    obtain ⟨session, hderef, hhdl⟩ := hH.sessions e he
    obtain ⟨n, hn, hobject⟩ := deref_ok_iff.mp hderef
    by_cases hp : p = n
    · refine ⟨{ session with userId := user_id }, deref_ok_iff.mpr ⟨n, hn, ?_⟩, hhdl⟩
      subst hp
      exact (List.getElem?_modify ..).trans (by rw [hobject]; simp)
    · refine ⟨session, deref_ok_iff.mpr ⟨n, hn, ?_⟩, hhdl⟩
      exact (List.getElem?_modify ..).trans (by rw [hobject]; simp [hp])
  · exact ⟨hH.sessions, hH.conns, haccepted⟩

theorem held_step (hH : Held past w) (a : Action) : ∃ w', step w a = .ok w' ∧ Held (past ++ [a]) w' := by
  cases a with
  | onClientAccept hdl user_id => exact ⟨_, rfl, held_onClientAccept hH hdl user_id⟩
  | shutdownClientSession hdl => exact held_shutdownClientSession hH hdl
  | setUserID hdl user_id => exact ⟨_, rfl, held_setUserID hH hdl user_id⟩

theorem held_init : Held [] {} := ⟨fun _ h => (List.not_mem_nil h).elim, fun _ h => (List.not_mem_nil h).elim, rfl⟩

/-- No run fails. -/
theorem held_run (hH : Held past w) (as : List Action) : ∃ w', run step w as = .ok w' ∧ Held (past ++ as) w' := by
  induction as generalizing past w with
  | nil => exact ⟨w, rfl, (List.append_nil past).symm ▸ hH⟩
  | cons a as ih =>
    obtain ⟨w₁, h₁, hH₁⟩ := held_step hH a
    obtain ⟨w₂, h₂, hH₂⟩ := ih hH₁
    exact ⟨w₂, (run_cons h₁ as).trans h₂, List.append_cons past a as ▸ hH₂⟩

/-- Without an accept the tables stay empty. -/
theorem run_of_no_accept (hacc : ∀ a ∈ as, a.handle? = none) : run step {} as = .ok {} := by
  induction as with
  | nil => rfl
  | cons a as ih =>
    have ha := hacc a List.mem_cons_self
    have hstep : step {} a = .ok {} := by
      cases a with
      | onClientAccept hdl user_id => cases ha
      | shutdownClientSession hdl => rfl
      | setUserID hdl user_id => rfl
    exact (run_cons hstep as).trans (ih fun a ha => hacc a (List.mem_cons_of_mem _ ha))

theorem consistent_of_no_accept (hacc : ∀ a ∈ as, a.handle? = none) : Consistent as {} := by
  obtain ⟨w, hw, hH⟩ := held_run held_init as
  rw [run_of_no_accept hacc] at hw
  cases hw
  exact ⟨fun _ h => (List.not_mem_nil h).elim, fun _ h => (List.not_mem_nil h).elim, fun _ h => (List.not_mem_nil h).elim,
    .nil, hH.accepted⟩

/-- The pointer that an accept puts into the table by connection is null. -/
theorem not_consistent_onClientAccept (hH : Held past w) (hdl : Hdl) (user_id : UInt64) (past' : List Action) :
    ¬Consistent past' (w.onClientAccept hdl user_id) := by
  intro hC
  obtain ⟨e, es, hconns⟩ := List.exists_cons_of_ne_nil (insert_ne_nil w.clientConns (w.connId + 1) none)
  have he : e ∈ (w.onClientAccept hdl user_id).clientConns := by
    rw [onClientAccept, hconns]
    exact List.mem_cons_self
  exact hC.conns e he ((held_onClientAccept hH hdl user_id).conns e he)

/-- No sequence fails, and the tables are what they are for in every state if and only if there is no accept. -/
theorem consistent_iff (as : List Action) : (∃ w, run step {} as = .ok w) ∧
    ((∀ past w, past <+: as → run step {} past = .ok w → Consistent past w) ↔ ∀ a ∈ as, a.handle? = none) := by
  obtain ⟨w, hw, -⟩ := held_run held_init as
  refine ⟨⟨w, hw⟩, fun h a ha => ?_, fun h past v hpast hv => ?_⟩
  · obtain ⟨pre, post, rfl⟩ := List.append_of_mem ha
    obtain ⟨w₁, h₁, hH⟩ := held_run held_init pre
    cases a with
    | onClientAccept hdl user_id =>
      have hrun : run step {} (pre ++ [.onClientAccept hdl user_id]) = .ok (w₁.onClientAccept hdl user_id) :=
        run_append h₁ _
      exact absurd (h _ _ ⟨post, by simp⟩ hrun) (not_consistent_onClientAccept hH _ _ _)
    | shutdownClientSession hdl => rfl
    | setUserID hdl user_id => rfl
  · obtain ⟨rest, rfl⟩ := hpast
    have hacc : ∀ a ∈ past, a.handle? = none := fun a ha => h a (List.mem_append_left _ ha)
    cases (run_of_no_accept hacc).symm.trans hv
    exact consistent_of_no_accept hacc

/-- One accept. -/
theorem accepted_null : ¬∀ (as : List Action) w, (as.filterMap Action.handle?).Nodup → run step {} as = .ok w →
    Consistent as w := by
  intro h
  have hC := h [.onClientAccept 1 0] _ (by decide) rfl
  exact absurd rfl (hC.conns (1, none) (by decide))

/-- What `SendMessage` finds is a null pointer. -/
theorem sendMessage_fault (hH : Held past w) {uid : UInt64} (h : find w.clientConns uid.toInt64 ≠ none) :
    w.sendMessage uid = .error .nullPointer := by
  obtain ⟨p, hp⟩ := Option.ne_none_iff_exists'.mp h
  obtain rfl : p = none := hH.conns _ (mem_of_find hp)
  unfold sendMessage
  rw [hp]
  rfl

end World

end Zylib.FrontendService
