import Zylib.ZySoft.Net.Lifetime
import Zylib.Theorems.ZySoft.Net.Reports

/-! Handlers that outlive their connection. Nothing but the application keeps a connection once `ConnectDestroy` has run,
    while its handlers and the functions that it has posted may still be waiting. -/

namespace Zylib.ZySoft.Net

namespace TcpConnection

variable {c t : TcpConnection} {a : Action}

theorem idle_abort : c.abort.Idle ↔ c.Idle := by
  simp only [Idle, abort, List.map_eq_nil_iff]

theorem idle_connectDestroy : c.connectDestroy.Idle ↔ c.Idle := by
  unfold connectDestroy
  split
  · exact Iff.rfl
  · exact idle_abort (c := { c with state := .closed })

theorem idle_destroy : c.destroy.Idle ↔ c.Idle := idle_abort.trans idle_connectDestroy

theorem destroys_destroy (c : TcpConnection) : c.destroy.destroys = c.destroys := (connectDestroy_same c).destroys

theorem removals_destroy (c : TcpConnection) : c.destroy.removals = c.removals := (connectDestroy_same c).removals

/-- Every operation of a destroyed connection has ended. -/
theorem ended_destroy (c : TcpConnection) :
    (∀ w ∈ c.destroy.writes, w.outcome.isSome) ∧ ∀ r ∈ c.destroy.reads, r.outcome.isSome := by
  constructor
  · intro w hw
    obtain ⟨v, -, rfl⟩ := List.mem_map.mp hw
    split
    · rfl
    · rename_i hne
      exact Option.isSome_iff_ne_none.mpr hne
  · intro r hr
    obtain ⟨v, -, rfl⟩ := List.mem_map.mp hr
    split
    · rfl
    · rename_i hne
      exact Option.isSome_iff_ne_none.mpr hne

theorem ready_of_step (h : c.Idle) (a : Action) : c.ready a = false := by
  obtain ⟨hposted, hwrites, hreads⟩ := h
  cases a <;> simp [ready, hposted, hwrites, hreads]

/-- A connection whose operations have all ended is idle or has something that can run. -/
theorem exists_ready (hw : ∀ w ∈ c.writes, w.outcome.isSome) (hr : ∀ r ∈ c.reads, r.outcome.isSome) (h : ¬c.Idle) :
    ∃ a, c.ready a = true := by
  by_cases hposted : c.posted = []
  · by_cases hwrites : c.writes = []
    · obtain ⟨r, hmem⟩ := List.exists_mem_of_ne_nil c.reads fun hreads => h ⟨hposted, hwrites, hreads⟩
      obtain ⟨q, hq⟩ := Option.isSome_iff_exists.mp ((List.find?_isSome (p := (·.number == r.number))).mpr ⟨r, hmem, by simp⟩)
      refine ⟨.runRead r.number 0 [], ?_⟩
      rw [ready, hq]
      exact hr q (List.mem_of_find?_eq_some hq)
    · obtain ⟨w, hmem⟩ := List.exists_mem_of_ne_nil c.writes hwrites
      obtain ⟨v, hv⟩ := Option.isSome_iff_exists.mp ((List.find?_isSome (p := (·.number == w.number))).mpr ⟨w, hmem, by simp⟩)
      refine ⟨.runWrite w.number [], ?_⟩
      rw [ready, hv]
      exact hw v (List.mem_of_find?_eq_some hv)
  · exact ⟨.runPosted, by simpa [ready] using hposted⟩

theorem destroying_le (c : TcpConnection) (a : Action) : c.destroying a ≤ 1 := by
  unfold destroying
  split
  · split
    · exact Nat.le_refl 1
    · exact Nat.zero_le 1
  · exact Nat.zero_le 1

theorem step_of_destroying (h : c.destroying a = 1) :
    a = .runPosted ∧ c.step a = .ok { c with posted := c.posted.tail }.connectDestroy := by
  cases a with
  | runPosted =>
    rw [destroying] at h
    split at h
    · rename_i hhead
      obtain ⟨fs, hfs⟩ := List.head?_eq_some_iff.mp hhead
      refine ⟨rfl, ?_⟩
      rw [step, runPosted, hfs]
      rfl
    · cases h
  | _ => cases h

end TcpConnection

namespace OwnedConnection
open Run

/-- Whenever the last owner is let go of, no handler is running, no operation is under way or has its handler waiting, and
    nothing is posted. -/
def Kept (s : OwnedConnection) : Action → Prop
  | .connection a keeps drops => (drops ≠ 0 → s.owners + keeps ≠ drops) ∧
      (s.conn.destroying a = 1 ∧ s.owners + keeps = drops + 1 →
        s.conn.posted.tail = [] ∧ s.conn.writes = [] ∧ s.conn.reads = [])
  | .release => s.owners = 1 → s.conn.Idle
  | _ => True

instance (s : OwnedConnection) (a : Action) : Decidable (s.Kept a) := by
  unfold Kept
  split <;> infer_instance

structure Inv (s : OwnedConnection) : Prop where
  fronted : TcpConnection.Fronted false s.conn
  establishing : s.establishing = true → s.inTable = true
  gone : s.gone = true ↔ s.owners = 0
  ended : s.gone = true → (∀ w ∈ s.conn.writes, w.outcome.isSome) ∧ ∀ r ∈ s.conn.reads, r.outcome.isSome

variable {s t : OwnedConnection} {a : Action}

/-- Nothing of a destroyed connection is left to run. -/
def Quiet (s : OwnedConnection) : Prop := s.gone = true → s.conn.Idle

theorem owners_collect (s : OwnedConnection) : s.collect.owners = s.owners := by
  unfold collect
  split
  · rw [owners, owners, TcpConnection.removals_destroy, TcpConnection.destroys_destroy]
  · rfl

theorem gone_collect (h : s.gone = false) : s.collect.gone = true ↔ s.owners = 0 := by
  unfold collect
  split
  · rename_i h0
    exact iff_of_true rfl h0
  · rename_i h0
    rw [h]
    exact iff_of_false (fun h => (by cases h)) h0

theorem inv_collect (hf : TcpConnection.Fronted false s.conn) (hg : s.gone = false)
    (he : s.establishing = true → s.inTable = true) : Inv s.collect := by
  refine ⟨?_, ?_, ?_, ?_⟩
  · unfold collect
    split
    · exact (TcpConnection.connectDestroy_fronted hf).abort
    · exact hf
  · unfold collect
    split <;> exact he
  · rw [owners_collect]
    exact gone_collect hg
  · unfold collect
    split
    · exact fun _ => TcpConnection.ended_destroy s.conn
    · exact fun h => (by cases hg.symm.trans h)

theorem quiet_collect (h : s.gone = false) : Quiet s.collect ↔ (s.owners = 0 → s.conn.Idle) := by
  rw [Quiet, gone_collect h]
  unfold collect
  split
  · exact imp_congr_right fun _ => TcpConnection.idle_destroy
  · rename_i h0
    exact iff_of_true (fun h => absurd h h0) fun h => absurd h h0

theorem Inv.not_gone (hI : Inv s) (h : s.owners ≠ 0) : s.gone = false :=
  Bool.eq_false_iff.mpr fun hg => h (hI.gone.mp hg)

theorem Inv.of_gone (hI : Inv s) (hg : s.gone = true) : s.establishing = false ∧ s.held = 0 := by
  have h0 := hI.gone.mp hg
  rw [owners] at h0
  refine ⟨Bool.eq_false_iff.mpr fun he => ?_, by omega⟩
  rw [he, Bool.toNat_true] at h0
  omega

/-! ### Steps -/

/-- The owners that a step of the connection leaves: only `ConnectDestroy` lets go of one. -/
theorem owners_step {c : TcpConnection} {a : TcpConnection.Action} {keeps drops : Nat}
    (hb : TcpConnection.Balance s.conn a c) (hc : s.conn.step a = .ok c) (he : s.establishing = false)
    (hle : drops ≤ s.held + keeps) (hne : s.owners + keeps ≠ drops) :
    owners { s with conn := c, inTable := s.inTable && TcpConnection.removing a == 0, held := s.held + keeps - drops } = 0 ↔
      s.conn.destroying a = 1 ∧ s.owners + keeps = drops + 1 := by
  obtain ⟨hhandled, hreports, hdestroys⟩ := hb
  have htable := Bool.toNat_le s.inTable
  simp only [owners, he, Bool.toNat_false] at hne ⊢
  cases a with
  | removeConnection =>
    simp only [TcpConnection.removing, TcpConnection.destroying] at hreports hdestroys ⊢
    omega
  | runPosted =>
    have hsame : (s.inTable && TcpConnection.removing .runPosted == 0) = s.inTable := Bool.and_true _
    rw [hsame]
    simp only [TcpConnection.removing] at hreports hdestroys
    have hle1 := s.conn.destroying_le .runPosted
    have hremovals : s.conn.destroying .runPosted = 1 → c.removals = s.conn.removals := by
      intro h1
      cases hc.symm.trans (TcpConnection.step_of_destroying h1).2
      exact (TcpConnection.connectDestroy_same _).removals
    omega
  | _ =>
    simp only [TcpConnection.removing, TcpConnection.destroying, beq_self_eq_true, Bool.and_true] at hreports hdestroys ⊢
    omega

theorem inv_connectEstablised (hI : Inv s) {calls : List Call} {keeps : Nat} (h : s.connectEstablised calls keeps = .ok t) :
    Inv t ∧ t.gone = false := by
  unfold connectEstablised at h
  split at h
  · rename_i he
    have hg : s.gone = false := hI.not_gone (by rw [owners, he, Bool.toNat_true]; omega)
    obtain ⟨c, hc, hf, -⟩ := TcpConnection.connectEstablised_ends hI.fronted calls
    rw [hc] at h
    cases h
    refine ⟨inv_collect hf hg fun h => (by cases h), ?_⟩
    refine Bool.eq_false_iff.mpr fun hgone => ?_
    have h0 := (gone_collect (s := { s with conn := c, establishing := false, held := s.held + keeps }) hg).mp hgone
    rw [owners, hI.establishing he, Bool.toNat_true] at h0
    omega
  · cases h

/-- What a step of the connection that succeeds leads to. -/
theorem connectionStep_ok (hI : Inv s) {a : TcpConnection.Action} {keeps drops : Nat}
    (h : s.connectionStep a keeps drops = .ok t) : Inv t ∧ (Quiet t ↔ s.Kept (.connection a keeps drops)) := by
  unfold connectionStep at h
  split at h
  · cases h
  · rename_i he
    have he : s.establishing = false := Bool.eq_false_iff.mpr he
    split at h
    · split at h <;> cases h
    · rename_i hg
      have hg : s.gone = false := Bool.eq_false_iff.mpr hg
      split at h
      · cases h
      · rcases TcpConnection.step_ends hI.fronted a with herr | ⟨c, hc, hf, hb⟩
        · rw [herr] at h
          cases h
        · rw [hc] at h
          dsimp only at h
          split at h
          · cases h
          · rename_i hguard
            have hle : drops ≤ s.held + keeps := Nat.not_lt.mp fun hlt => hguard (.inr hlt)
            split at h
            · cases h
            · rename_i hne
              cases h
              refine ⟨inv_collect hf hg fun h => absurd h (by rw [he]; decide), ?_⟩
              refine (quiet_collect (s := { s with
                conn := c, inTable := s.inTable && TcpConnection.removing a == 0, held := s.held + keeps - drops }) hg).trans ?_
              rw [owners_step hb hc he hle hne, Kept, and_iff_right fun _ => hne]
              refine imp_congr_right fun hlast => ?_
              cases hc.symm.trans (TcpConnection.step_of_destroying hlast.1).2
              exact TcpConnection.idle_connectDestroy

theorem release_ok (hI : Inv s) (h : s.release = .ok t) : Inv t ∧ (Quiet t ↔ s.Kept .release) := by
  unfold release at h
  split at h
  · cases h
  · rename_i hheld
    cases h
    have hg : s.gone = false := hI.not_gone (by rw [owners]; omega)
    refine ⟨inv_collect hI.fronted hg hI.establishing, ?_⟩
    refine (quiet_collect (s := { s with held := s.held - 1 }) hg).trans (imp_congr ?_ Iff.rfl)
    rw [owners, owners]
    dsimp only
    omega

theorem copy_ok (hI : Inv s) (h : s.copy = .ok t) : Inv t ∧ t.gone = false := by
  unfold copy at h
  split at h
  · cases h
  · rename_i hheld
    cases h
    have hg : s.gone = false := hI.not_gone (by rw [owners]; omega)
    refine ⟨⟨hI.fronted, hI.establishing, ?_, hI.ended⟩, hg⟩
    refine iff_of_false (fun h => (by cases hg.symm.trans h)) ?_
    rw [owners]
    dsimp only
    omega

theorem step_ok (hI : Inv s) (h : step s a = .ok t) : Inv t ∧ (Quiet t ↔ s.Kept a) := by
  cases a with
  | connectEstablised calls keeps =>
    obtain ⟨hIt, hg⟩ := inv_connectEstablised hI h
    exact ⟨hIt, iff_of_true (fun h => (by cases hg.symm.trans h)) trivial⟩
  | connection a keeps drops => exact connectionStep_ok hI h
  | copy =>
    obtain ⟨hIt, hg⟩ := copy_ok hI h
    exact ⟨hIt, iff_of_true (fun h => (by cases hg.symm.trans h)) trivial⟩
  | release => exact release_ok hI h

/-- A step that succeeds is one of a connection that still exists. -/
theorem quiet_of_step (hI : Inv s) (h : step s a = .ok t) : Quiet s := by
  intro hg
  obtain ⟨he, hheld⟩ := hI.of_gone hg
  cases a with
  | connectEstablised calls keeps =>
    change s.connectEstablised calls keeps = _ at h
    rw [connectEstablised, he] at h
    cases h
  | connection a keeps drops =>
    change s.connectionStep a keeps drops = _ at h
    unfold connectionStep at h
    rw [he, hg] at h
    split at h
    · cases h
    · rw [if_pos rfl] at h
      split at h <;> cases h
  | copy =>
    change s.copy = _ at h
    rw [copy, if_pos hheld] at h
    cases h
  | release =>
    change s.release = _ at h
    rw [release, if_pos hheld] at h
    cases h

theorem step_error (hI : Inv s) (hq : Quiet s) (hP : s.Kept a) {f : Fault} (h : step s a = .error f) : f = .disabled := by
  cases a with
  | connectEstablised calls keeps =>
    change s.connectEstablised calls keeps = _ at h
    unfold connectEstablised at h
    split at h
    · obtain ⟨c, hc, -, -⟩ := TcpConnection.connectEstablised_ends hI.fronted calls
      rw [hc] at h
      cases h
    · cases h
      rfl
  | connection a keeps drops =>
    change s.connectionStep a keeps drops = _ at h
    unfold connectionStep at h
    split at h
    · cases h
      rfl
    · split at h
      · rename_i hg
        rw [if_neg (Bool.eq_false_iff.mp (TcpConnection.ready_of_step (hq hg) a))] at h
        cases h
        rfl
      · rename_i hg
        split at h
        · cases h
          rfl
        · rcases TcpConnection.step_ends hI.fronted a with herr | ⟨c, hc, -, -⟩
          · rw [herr] at h
            cases h
            rfl
          · rw [hc] at h
            dsimp only at h
            split at h
            · cases h
              rfl
            · split at h
              · rename_i hdrops
                -- the connection has an owner, so the application let go of one
                have howners : s.owners ≠ 0 := fun h0 => hg (hI.gone.mpr h0)
                exact absurd hdrops (hP.1 (by omega))
              · cases h
  | copy =>
    change s.copy = _ at h
    unfold copy at h
    split at h <;> cases h
    rfl
  | release =>
    change s.release = _ at h
    unfold release at h
    split at h <;> cases h
    rfl

/-! ### Runs -/

theorem inv_accepted : Inv {} :=
  ⟨⟨Nat.zero_le 1, fun h => absurd rfl h, fun h => (by cases h)⟩, fun _ => rfl, by decide, fun h => (by cases h)⟩

/-- If the last owner is only let go of when nothing is left to run, then no handler runs without an owner; otherwise one
    more step can run a handler of the destroyed connection. -/
theorem lifetime (as : List Action) :
    (Along step Kept {} as → ∀ f, run step {} as = .error f → f = .disabled) ∧
      ∀ s, run step {} as = .ok s → ¬Along step Kept {} as → ∃ a, run step {} (as ++ [a]) = .error .released := by
  have hstep : ∀ {s a t}, Inv s → step s a = .ok t → Inv t := fun hI h => (step_ok hI h).1
  have hquiet : ∀ {s a t}, Inv s → step s a = .ok t → (Quiet t ↔ Quiet s ∧ s.Kept a) := by
    intro s a t hI h
    rw [(step_ok hI h).2, and_iff_right (quiet_of_step hI h)]
  have hfirst : Quiet {} := fun h => (by cases h)
  constructor
  · intro hP f hf
    refine run_error (I := fun s => Inv s ∧ Quiet s) (E := (· = .disabled)) ?_ ?_ ⟨inv_accepted, hfirst⟩ hP hf
    · rintro s a t ⟨hI, hq⟩ hP h
      exact ⟨hstep hI h, (hquiet hI h).mpr ⟨hq, hP⟩⟩
    · rintro s a e ⟨hI, hq⟩ hP h
      exact step_error hI hq hP h
  · intro s h hnot
    have hI : Inv s := run_invariant (fun hI _ => hstep hI) inv_accepted (along_true _ _) h
    have hloud : ¬Quiet s := fun hq => hnot ((run_iff_along hstep hquiet inv_accepted h).mp hq).2
    obtain ⟨hg, hidle⟩ := Classical.not_imp.mp hloud
    obtain ⟨a, ha⟩ := TcpConnection.exists_ready (hI.ended hg).1 (hI.ended hg).2 hidle
    refine ⟨.connection a 0 0, ?_⟩
    rw [run_append h, run, step, connectionStep, (hI.of_gone hg).1, hg, ha]
    rfl

/-- The read ends with `eof` while a write is under way, and `ConnectDestroy` has run before the handler of the write. -/
theorem write_released : run step {}
    [.connectEstablised [.send [1]] 0, .connection (.readEnds 0 2 []) 0 0, .connection (.runRead 0 0 []) 0 0,
      .connection .removeConnection 0 0, .connection .runPosted 0 0, .connection (.runWrite 1 []) 0 0] = .error .released := rfl

end OwnedConnection
end Zylib.ZySoft.Net
