import Zylib.Mysqlcpp.ConnectionPool
import Zylib.Lib.Run
import Mathlib.Data.List.Nodup

/-! Who refers to the connections of a pool of `mysqlcpp2`. A guard that is copied releases its
    connection more than once: the first of the copies that is destroyed frees the slot while the
    others still refer to the connection. -/

namespace Zylib.Mysqlcpp.Guarded
open Lists Pool Run

/-- No other guard refers to the connection of a guard that is destroyed. -/
def DestroysLast (p : Guarded) : Action → Prop
  | .destroy number => ∀ conn, ⟨number, some conn⟩ ∈ p.guards → ∀ g ∈ p.guards, g.conn = some conn → g.number = number
  | _ => True

structure Inv (p : Guarded) : Prop where
  slots : (p.pool.pool.map Slot.conn).Nodup
  numbers : (p.guards.map ConnectionGuard.number).Nodup
  fresh : ∀ g ∈ p.guards, g.number < p.made
  found : ∀ g ∈ p.guards, ∀ conn, g.conn = some conn → conn ∈ p.pool.pool.map Slot.conn
  used : ∀ conn ∈ lent p.pool.pool, ∃ g ∈ p.guards, g.conn = some conn

/-- The slot of a connection that a guard refers to is in use. -/
def Held (p : Guarded) : Prop := ∀ g ∈ p.guards, ∀ conn, g.conn = some conn → conn ∈ lent p.pool.pool

section
variable {p q : Guarded} {a : Action}

/-! ### Steps -/

/-- What a step does: a guard is made with a connection from the pool, with none or with that of another
    guard, or one goes, with or without a connection. -/
inductive Effect (p : Guarded) : Action → Guarded → Prop
  | lend {conn pool} (htake : take p.pool.pool = some (conn, pool)) :
    Effect p .construct ({ p with pool := { p.pool with pool } }.addGuard (some conn))
  | empty (htake : take p.pool.pool = none) : Effect p .construct (p.addGuard none)
  | copy {number g} (hg : g ∈ p.guards) : Effect p (.copy number) (p.addGuard g.conn)
  | drop {number} (hperm : p.guards.Perm (⟨number, none⟩ :: p.guards.eraseP (·.number == number))) :
    Effect p (.destroy number) { p with guards := p.guards.eraseP (·.number == number) }
  | release {number conn slot pool} (hperm : p.guards.Perm (⟨number, some conn⟩ :: p.guards.eraseP (·.number == number)))
    (hgive : give p.pool.pool conn = some (slot, pool)) :
    Effect p (.destroy number) { p with pool := { p.pool with pool }, guards := p.guards.eraseP (·.number == number) }

theorem find_guard {number : Nat} {g : ConnectionGuard} (h : p.guards.find? (·.number == number) = some g) :
    g.number = number ∧ p.guards.Perm (⟨number, g.conn⟩ :: p.guards.eraseP (·.number == number)) := by
  have hnumber : g.number = number := by simpa using List.find?_some h
  have hperm := perm_of_find? h
  subst hnumber
  exact ⟨rfl, hperm⟩

theorem step_effect (h : step p a = .ok q) : Effect p a q := by
  cases a with
  | construct =>
    cases h
    unfold construct ConnectionPool.getConn
    cases htake : take p.pool.pool with
    | none => exact .empty htake
    | some x => exact .lend htake
  | copy number =>
    simp only [step, Guarded.copy] at h
    split at h <;> cases h
    rename_i hfind
    exact .copy (List.mem_of_find?_eq_some hfind)
  | destroy number =>
    simp only [step, destroy] at h
    split at h
    · cases h
    · rename_i g hfind
      obtain ⟨-, hperm⟩ := find_guard hfind
      split at h
      · rename_i hconn
        cases h
        exact .drop (hconn ▸ hperm)
      · rename_i conn hconn
        unfold ConnectionPool.rleaseConn at h
        split at h <;> cases h
        rename_i hgive
        exact .release (hconn ▸ hperm) hgive

theorem step_ne_assertFound (hI : Inv p) : step p a ≠ .error .assertFound := by
  intro h
  cases a with
  | construct => cases h
  | copy number =>
    simp only [step, Guarded.copy] at h
    split at h <;> cases h
  | destroy number =>
    simp only [step, destroy] at h
    split at h
    · cases h
    · rename_i g hfind
      split at h
      · cases h
      · rename_i conn hconn
        unfold ConnectionPool.rleaseConn at h
        split at h <;> cases h
        rename_i hgive
        exact give_eq_none.mp hgive (hI.found g (List.mem_of_find?_eq_some hfind) conn hconn)

/-! ### Guards and slots -/

theorem numbers_addGuard (hI : Inv p) (pool : ConnectionPool) (conn : Option Conn) :
    (({ p with pool }.addGuard conn).guards.map ConnectionGuard.number).Nodup ∧
    ∀ g ∈ ({ p with pool }.addGuard conn).guards, g.number < p.made + 1 := by
  have hperm := (List.perm_append_singleton (⟨p.made, conn⟩ : ConnectionGuard) p.guards).map ConnectionGuard.number
  obtain ⟨hnodup, hlt⟩ := fresh_of_perm hperm hI.numbers (List.forall_mem_map.mpr hI.fresh)
  exact ⟨hnodup, List.forall_mem_map.mp hlt⟩

/-- A guard that refers to nothing, or to what another guard refers to. -/
theorem inv_addGuard (hI : Inv p) {conn : Option Conn} (hconn : ∀ c, conn = some c → ∃ g ∈ p.guards, g.conn = some c) :
    Inv (p.addGuard conn) := by
  obtain ⟨hnumbers, hfresh⟩ := numbers_addGuard hI p.pool conn
  refine ⟨hI.slots, hnumbers, hfresh, fun g hg c hc => ?_, fun c hc => ?_⟩
  · rcases List.mem_append.mp hg with hg | hg
    · exact hI.found g hg c hc
    · rw [List.mem_singleton.mp hg] at hc
      obtain ⟨g', hg', hc'⟩ := hconn c hc
      exact hI.found g' hg' c hc'
  · obtain ⟨g, hg, hgc⟩ := hI.used c hc
    exact ⟨g, List.mem_append_left _ hg, hgc⟩

theorem inv_step (hI : Inv p) (h : step p a = .ok q) : Inv q := by
  cases step_effect h with
  | @lend conn pool htake =>
    obtain ⟨hconns, hlent, slot, hslot, -, hslotConn⟩ := take_eq_some htake
    obtain ⟨hnumbers, hfresh⟩ := numbers_addGuard hI { p.pool with pool } (some conn)
    refine ⟨hconns ▸ hI.slots, hnumbers, hfresh, fun g hg c hc => ?_, fun c hc => ?_⟩
    · simp only [addGuard, hconns]
      rcases List.mem_append.mp hg with hg | hg
      · exact hI.found g hg c hc
      · rw [List.mem_singleton.mp hg] at hc
        cases hc
        exact hslotConn ▸ List.mem_map_of_mem hslot
    · rcases List.mem_cons.mp (hlent.mem_iff.mp hc) with rfl | hc
      · exact ⟨_, List.mem_append_right _ (List.mem_singleton_self _), rfl⟩
      · obtain ⟨g, hg, hgc⟩ := hI.used c hc
        exact ⟨g, List.mem_append_left _ hg, hgc⟩
  | empty htake => exact inv_addGuard hI nofun
  | copy hg => exact inv_addGuard hI fun c hc => ⟨_, hg, hc⟩
  | @drop number hperm =>
    refine ⟨hI.slots, hI.numbers.sublist (List.eraseP_sublist.map _), fun g hg => hI.fresh g (List.mem_of_mem_eraseP hg),
      fun g hg => hI.found g (List.mem_of_mem_eraseP hg), fun c hc => ?_⟩
    obtain ⟨g, hg, hgc⟩ := hI.used c hc
    rcases List.mem_cons.mp (hperm.mem_iff.mp hg) with rfl | hg
    · cases hgc
    · exact ⟨g, hg, hgc⟩
  | @release number conn slot pool hperm hgive =>
    have hconns := (give_eq_some hgive).2.2.1
    refine ⟨hconns.nodup_iff.mpr hI.slots, hI.numbers.sublist (List.eraseP_sublist.map _),
      fun g hg => hI.fresh g (List.mem_of_mem_eraseP hg),
      fun g hg c hc => hconns.mem_iff.mpr (hI.found g (List.mem_of_mem_eraseP hg) c hc), fun c hc => ?_⟩
    obtain ⟨hlent, hne⟩ := (mem_lent_give hgive hI.slots).mp hc
    obtain ⟨g, hg, hgc⟩ := hI.used c hlent
    rcases List.mem_cons.mp (hperm.mem_iff.mp hg) with rfl | hg
    · cases hgc
      exact absurd rfl hne
    · exact ⟨g, hg, hgc⟩

theorem held_step (hI : Inv p) (hH : Held p) (hlast : DestroysLast p a) (h : step p a = .ok q) : Held q := by
  cases step_effect h with
  | lend htake =>
    obtain ⟨-, hlent, -⟩ := take_eq_some htake
    refine fun g hg c hc => hlent.mem_iff.mpr ?_
    rcases List.mem_append.mp hg with hg | hg
    · exact List.mem_cons_of_mem _ (hH g hg c hc)
    · rw [List.mem_singleton.mp hg] at hc
      cases hc
      exact List.mem_cons_self
  | empty htake =>
    intro g hg c hc
    rcases List.mem_append.mp hg with hg | hg
    · exact hH g hg c hc
    · rw [List.mem_singleton.mp hg] at hc
      cases hc
  | @copy number g' hg' =>
    intro g hg c hc
    rcases List.mem_append.mp hg with hg | hg
    · exact hH g hg c hc
    · rw [List.mem_singleton.mp hg] at hc
      exact hH g' hg' c hc
  | drop hperm => exact fun g hg => hH g (List.mem_of_mem_eraseP hg)
  | @release number conn slot pool hperm hgive =>
    intro g hg c hc
    have hmem := List.mem_of_mem_eraseP hg
    refine (mem_lent_give hgive hI.slots).mpr ⟨hH g hmem c hc, ?_⟩
    rintro rfl
    have hnumber : g.number = number := hlast c (hperm.mem_iff.mpr List.mem_cons_self) g hmem hc
    have hnodup := (hperm.map ConnectionGuard.number).nodup_iff.mp hI.numbers
    rw [List.map_cons, List.nodup_cons] at hnodup
    exact hnodup.1 (List.mem_map.mpr ⟨g, hg, hnumber⟩)

/-! ### Runs -/

theorem Inv.not_lent_of_getConn (hI : Inv p) {conn : Conn} {pool : ConnectionPool}
    (h : p.pool.getConn = (some conn, pool)) : conn ∉ lent p.pool.pool := by
  unfold ConnectionPool.getConn at h
  cases htake : take p.pool.pool with
  | none =>
    rw [htake] at h
    cases h
  | some x =>
    rw [htake] at h
    cases h
    exact not_mem_lent_of_take htake hI.slots

/-- What `init` has put into the pool so far. -/
def Fresh (p : ConnectionPool) : Prop :=
  (p.pool.map Slot.conn).Nodup ∧ (∀ conn ∈ p.pool.map Slot.conn, conn < p.pool.length) ∧ lent p.pool = []

theorem fresh_push {p : ConnectionPool} (hF : Fresh p) : Fresh { p with pool := p.pool ++ [⟨p.pool.length, false⟩] } := by
  obtain ⟨hnodup, hlt, hlent⟩ := hF
  have hperm : ((p.pool ++ [(⟨p.pool.length, false⟩ : Slot Conn)]).map Slot.conn).Perm (p.pool.length :: p.pool.map Slot.conn) := by
    rw [List.map_append]
    exact List.perm_append_singleton _ _
  obtain ⟨hnodup', hlt'⟩ := fresh_of_perm hperm hnodup hlt
  refine ⟨hnodup', ?_, ?_⟩
  · rw [List.length_append, List.length_singleton]
    exact hlt'
  · rw [lent_append, hlent]
    rfl

theorem fresh_initLoop {p : ConnectionPool} (hF : Fresh p) (n : Nat) (created : List Bool) :
    Fresh (p.initLoop n created).2 := by
  induction n generalizing p created with
  | zero => exact hF
  | succ n ih =>
    unfold ConnectionPool.initLoop
    split
    · exact hF
    · rename_i heq
      cases heq
      exact ih (fresh_push hF) _
    · exact hF

theorem fresh_init (poolOpt : ConnectionPoolOpt) (library : Bool) (created : List Bool) :
    Fresh (ConnectionPool.init poolOpt library created).2 := by
  have hempty : Fresh { poolOpt } := ⟨List.nodup_nil, nofun, rfl⟩
  unfold ConnectionPool.init
  split
  · exact fresh_initLoop hempty _ _
  · exact hempty

theorem inv_start (poolOpt : ConnectionPoolOpt) (library : Bool) (created : List Bool) :
    Inv (start poolOpt library created) := by
  obtain ⟨hnodup, -, hlent⟩ := fresh_init poolOpt library created
  refine ⟨hnodup, List.nodup_nil, nofun, nofun, fun conn hconn => ?_⟩
  have hmem : conn ∈ lent (ConnectionPool.init poolOpt library created).2.pool := hconn
  rw [hlent] at hmem
  cases hmem

/-- If a guard refers to a connection whose slot is free, enough further guards make the pool return it. -/
theorem exists_run_getConn (hI : Inv p) {g : ConnectionGuard} (hg : g ∈ p.guards) {conn : Conn} (hconn : g.conn = some conn)
    (hfree : conn ∉ lent p.pool.pool) :
    ∃ as q, run step p as = .ok q ∧ ∃ pool, q.pool.getConn = (some conn, pool) ∧ g ∈ q.guards := by
  generalize hn : p.pool.pool.length - (lent p.pool.pool).length = n
  induction n using Nat.strongRecOn generalizing p with
  | ind n ih =>
    cases htake : take p.pool.pool with
    | none =>
      obtain ⟨slot, hslot, hslotConn⟩ := List.mem_map.mp (hI.found g hg conn hconn)
      exact absurd (mem_lent.mpr ⟨slot, hslot, take_eq_none.mp htake slot hslot, hslotConn⟩) hfree
    | some x =>
      obtain ⟨conn', pool⟩ := x
      by_cases hx : conn' = conn
      · subst hx
        exact ⟨[], p, rfl, { p.pool with pool }, by simp [ConnectionPool.getConn, htake], hg⟩
      · have hstep : step p .construct = .ok ({ p with pool := { p.pool with pool } }.addGuard (some conn')) := by
          simp [step, construct, ConnectionPool.getConn, htake]
        obtain ⟨-, hlent, -⟩ := take_eq_some htake
        have hlength := length_take htake
        have hless := length_lent_le pool
        have hcons := hlent.length_eq
        rw [List.length_cons] at hcons
        have hfree' : conn ∉ lent pool := by
          rw [hlent.mem_iff, List.mem_cons]
          rintro (rfl | h)
          · exact hx rfl
          · exact hfree h
        obtain ⟨as, q, hrun, hq⟩ := ih (pool.length - (lent pool).length) (by omega) (inv_step hI hstep)
          (List.mem_append_left _ hg) hfree' rfl
        exact ⟨_ :: as, q, (run_cons hstep as).trans hrun, hq⟩

/-- A guard is destroyed while another one refers to its connection. -/
theorem exists_run_of_not_last (hI : Inv p) {number : Nat} (hlast : ¬DestroysLast p (.destroy number)) :
    ∃ as q, run step p (.destroy number :: as) = .ok q ∧
      ∃ conn pool, q.pool.getConn = (some conn, pool) ∧ ∃ g ∈ q.guards, g.conn = some conn := by
  simp only [DestroysLast, not_forall] at hlast
  obtain ⟨conn, hnumber, g, hg, hconn, hne⟩ := hlast
  cases hfind : p.guards.find? (·.number == number) with
  | none => simpa using List.find?_eq_none.mp hfind _ hnumber
  | some g' =>
    obtain ⟨hg', hperm⟩ := find_guard hfind
    have heq : g' = ⟨number, some conn⟩ :=
      List.inj_on_of_nodup_map hI.numbers (List.mem_of_find?_eq_some hfind) hnumber hg'
    subst heq
    cases hgive : give p.pool.pool conn with
    | none => exact absurd (hI.found _ hnumber conn rfl) (give_eq_none.mp hgive)
    | some x =>
      obtain ⟨slot, pool⟩ := x
      have hstep : step p (.destroy number) = .ok
          { p with pool := { p.pool with pool }, guards := p.guards.eraseP (·.number == number) } := by
        simp only [step, destroy, hfind, ConnectionPool.rleaseConn, hgive]
        rfl
      have hmem : g ∈ p.guards.eraseP (·.number == number) := by
        rcases List.mem_cons.mp (hperm.mem_iff.mp hg) with rfl | hg
        · exact absurd rfl hne
        · exact hg
      obtain ⟨as, q, hrun, pool, hq, hgq⟩ := exists_run_getConn (inv_step hI hstep) hmem hconn
        (fun h => ((mem_lent_give hgive hI.slots).mp h).2 rfl)
      exact ⟨as, q, (run_cons hstep as).trans hrun, conn, pool, hq, g, hgq, hconn⟩

/-- Once all guards are gone no slot is in use. As long as a guard that is destroyed is the last that refers to
    its connection, the pool returns no connection that a guard refers to; after one that is not the
    last, more guards make the pool return a connection that a guard refers to. -/
theorem guards_exclusive (poolOpt : ConnectionPoolOpt) (library : Bool) (created : List Bool) (as : List Action) :
    run step (start poolOpt library created) as ≠ .error .assertFound ∧
    ∀ p, run step (start poolOpt library created) as = .ok p →
      (p.guards = [] → ∀ slot ∈ p.pool.pool, slot.inUse = false) ∧
      (Along step DestroysLast (start poolOpt library created) as →
        ∀ conn pool, p.pool.getConn = (some conn, pool) → ∀ g ∈ p.guards, g.conn ≠ some conn) ∧
      ∀ number, ¬DestroysLast p (.destroy number) → ∃ bs q, run step p (.destroy number :: bs) = .ok q ∧
        ∃ conn pool, q.pool.getConn = (some conn, pool) ∧ ∃ g ∈ q.guards, g.conn = some conn := by
  have hstart := inv_start poolOpt library created
  refine ⟨fun h => ?_, fun p h => ?_⟩
  · exact run_error (E := (· ≠ .assertFound)) (fun hI _ hs => inv_step hI hs)
      (fun hI _ hs heq => step_ne_assertFound hI (heq ▸ hs)) hstart (along_true _ _) h rfl
  · have hI : Inv p := run_invariant (fun hI _ hs => inv_step hI hs) hstart (along_true _ _) h
    refine ⟨fun hnil => lent_eq_nil.mp (List.eq_nil_iff_forall_not_mem.mpr fun conn hconn => ?_), fun hlast => ?_,
      fun number => exists_run_of_not_last hI⟩
    · obtain ⟨g, hg, -⟩ := hI.used conn hconn
      rw [hnil] at hg
      cases hg
    · have hboth : Inv p ∧ Held p := run_invariant (I := fun p => Inv p ∧ Held p)
        (fun hI hlast hs => ⟨inv_step hI.1 hs, held_step hI.1 hI.2 hlast hs⟩) ⟨hstart, nofun⟩ hlast h
      exact fun conn pool hq g hg hconn => hI.not_lent_of_getConn hq (hboth.2 g hg conn hconn)

end

/-- A guard is copied, the copy is destroyed and a new guard is made. -/
theorem copied_guard : ¬∀ (poolOpt : ConnectionPoolOpt) (library : Bool) (created : List Bool) (as : List Action) (p : Guarded),
    run step (start poolOpt library created) as = .ok p →
    ∀ conn pool, p.pool.getConn = (some conn, pool) → ∀ g ∈ p.guards, g.conn ≠ some conn := by
  intro h
  exact h ⟨1⟩ true [true] [.construct, .copy 0, .destroy 1] ⟨⟨⟨1⟩, [⟨0, false⟩]⟩, [⟨0, some 0⟩], 2⟩ (by rfl) 0
    ⟨⟨1⟩, [⟨0, true⟩]⟩ (by rfl) ⟨0, some 0⟩ (by simp) rfl

end Zylib.Mysqlcpp.Guarded
