import Zylib.Rediscpp.ConnectionPool
import Zylib.Lib.Run
import Mathlib.Data.List.Nodup

/-! The size of a pool of `rediscpp`, and who holds its connections. The size is checked before a
    connection is made and not when its slot is put into the pool: calls that are between the two
    do not see each other. -/

namespace Zylib.Rediscpp.ConnectionPool
open Lists Pool Run

/-- The slots of the pool and the connections that will be put into it if they can be made. -/
def reserved (p : ConnectionPool) : Nat := p.pool.length + p.creating.length + p.created.length

/-- A call of `getConn` that is to make a connection finds room beside those that are being made. -/
def MakesInRoom (p : ConnectionPool) : Action → Prop
  | .getConn _ => take p.pool = none → p.pool.length < p.opt.poolMaxSize → p.reserved < p.opt.poolMaxSize
  | _ => True

/-- Each release is of a connection that the caller got from `getConn` and has not released. -/
def ReleasesHeld (p : ConnectionPool) : Action → Prop
  | .rleaseConn t conn => (t, conn) ∈ p.held
  | _ => True

section
variable {p q : ConnectionPool} {a : Action}

/-! ### Steps -/

/-- What a step does: a connection is lent from a free slot, or there is none in a full pool, or one is
    to be made, is made or cannot be made, is put into the pool, or comes back. -/
inductive Effect (p : ConnectionPool) : Action → ConnectionPool → Prop
  | lend {t conn pool} (htake : take p.pool = some (conn, pool)) :
    Effect p (.getConn t) { p with pool, held := p.held ++ [(t, conn)] }
  | full {t} (htake : take p.pool = none) (hlen : p.opt.poolMaxSize ≤ p.pool.length) :
    Effect p (.getConn t) { p with nulls := p.nulls ++ [⟨p.pool, false⟩] }
  | begin {t} (htake : take p.pool = none) (hlen : p.pool.length < p.opt.poolMaxSize) :
    Effect p (.getConn t) { p with creating := p.creating ++ [(t, p.pool)] }
  | make {t checked} (hperm : p.creating.Perm ((t, checked) :: p.creating.eraseP (·.1 == t))) :
    Effect p (.create t true) { p with
      creating := p.creating.eraseP (·.1 == t), created := p.created ++ [(t, p.conns)], conns := p.conns + 1 }
  | fail {t checked} (hperm : p.creating.Perm ((t, checked) :: p.creating.eraseP (·.1 == t))) :
    Effect p (.create t false) { p with
      creating := p.creating.eraseP (·.1 == t), nulls := p.nulls ++ [⟨checked, true⟩] }
  | insert {t conn} (hperm : p.created.Perm ((t, conn) :: p.created.eraseP (·.1 == t))) :
    Effect p (.insert t) { p with
      created := p.created.eraseP (·.1 == t), pool := p.pool ++ [⟨conn, true⟩], held := p.held ++ [(t, conn)] }
  | release {t conn slot pool} (hgive : give p.pool conn = some (slot, pool)) (husing : slot.inUse = true) :
    Effect p (.rleaseConn t conn) { p with pool, held := p.held.erase (t, conn) }

theorem step_effect (h : step p a = .ok q) : Effect p a q := by
  cases a with
  | getConn t =>
    simp only [step] at h
    split at h <;> cases h
    unfold getConn
    split
    · rename_i htake
      exact .lend htake
    · rename_i htake
      split
      · rename_i hlen
        exact .full htake hlen
      · rename_i hlen
        exact .begin htake (Nat.lt_of_not_le hlen)
  | create t ok =>
    simp only [step, create] at h
    split at h
    · cases h
    · rename_i t' checked hfind
      obtain rfl : t' = t := by simpa using List.find?_some hfind
      cases ok <;> cases h
      · exact .fail (perm_of_find? hfind)
      · exact .make (perm_of_find? hfind)
  | insert t =>
    simp only [step, ConnectionPool.insert] at h
    split at h
    · cases h
    · rename_i t' conn hfind
      obtain rfl : t' = t := by simpa using List.find?_some hfind
      cases h
      exact .insert (perm_of_find? hfind)
  | rleaseConn t conn =>
    simp only [step, rleaseConn] at h
    split at h
    · cases h
    · rename_i hgive
      split at h <;> cases h
      rename_i husing
      exact .release hgive husing

/-! ### The size -/

theorem reserved_le_step (hI : p.reserved ≤ p.opt.poolMaxSize) (hroom : MakesInRoom p a) (h : step p a = .ok q) :
    q.reserved ≤ q.opt.poolMaxSize := by
  have hI : p.pool.length + p.creating.length + p.created.length ≤ p.opt.poolMaxSize := hI
  cases step_effect h with
  | lend htake =>
    rw [← length_take htake] at hI
    exact hI
  | full htake hlen => exact hI
  | begin htake hlen =>
    have hlt : p.pool.length + p.creating.length + p.created.length < p.opt.poolMaxSize := hroom htake hlen
    simp only [reserved, List.length_append, List.length_singleton]
    omega
  | make hperm =>
    have hlen := hperm.length_eq
    simp only [reserved, List.length_append, List.length_cons, List.length_nil] at hlen ⊢
    omega
  | fail hperm =>
    have hlen := hperm.length_eq
    simp only [reserved, List.length_cons] at hlen ⊢
    omega
  | insert hperm =>
    have hlen := hperm.length_eq
    simp only [reserved, List.length_append, List.length_cons, List.length_nil] at hlen ⊢
    omega
  | release hgive =>
    rw [← length_give hgive] at hI
    exact hI

/-! ### Who holds what -/

structure Inv (p : ConnectionPool) : Prop where
  nodup : (p.pool.map Slot.conn ++ p.created.map Prod.snd).Nodup
  fresh : ∀ conn ∈ p.pool.map Slot.conn ++ p.created.map Prod.snd, conn < p.conns
  lent : (lent p.pool).Perm (p.held.map Prod.snd)
  creating : ∀ x ∈ p.creating, ∀ slot ∈ x.2, slot.inUse = true
  nulls : ∀ n ∈ p.nulls, (∀ slot ∈ n.checked, slot.inUse = true) ∧
    (n.createFailed = true ∨ p.opt.poolMaxSize ≤ n.checked.length)

theorem inv_step (hI : Inv p) (hrel : ReleasesHeld p a) (h : step p a = .ok q) : Inv q := by
  cases step_effect h with
  | @lend t conn pool htake =>
    obtain ⟨hconns, hlent, -⟩ := take_eq_some htake
    refine ⟨?_, ?_, ?_, hI.creating, hI.nulls⟩
    · simp only [hconns]
      exact hI.nodup
    · simp only [hconns]
      exact hI.fresh
    · rw [List.map_append]
      exact (hlent.trans (hI.lent.cons _)).trans (List.perm_append_singleton _ _).symm
  | full htake hlen =>
    refine ⟨hI.nodup, hI.fresh, hI.lent, hI.creating, fun n hn => ?_⟩
    rcases List.mem_append.mp hn with hn | hn
    · exact hI.nulls n hn
    · rw [List.mem_singleton.mp hn]
      exact ⟨take_eq_none.mp htake, Or.inr hlen⟩
  | begin htake hlen =>
    refine ⟨hI.nodup, hI.fresh, hI.lent, fun x hx => ?_, hI.nulls⟩
    rcases List.mem_append.mp hx with hx | hx
    · exact hI.creating x hx
    · rw [List.mem_singleton.mp hx]
      exact take_eq_none.mp htake
  | @make t checked hperm =>
    have hconns : (p.pool.map Slot.conn ++ (p.created ++ [(t, p.conns)]).map Prod.snd).Perm
        (p.conns :: (p.pool.map Slot.conn ++ p.created.map Prod.snd)) := by
      rw [List.map_append, ← List.append_assoc]
      exact List.perm_append_singleton _ _
    obtain ⟨hnodup, hfresh⟩ := fresh_of_perm hconns hI.nodup hI.fresh
    exact ⟨hnodup, hfresh, hI.lent, fun x hx => hI.creating x (List.mem_of_mem_eraseP hx), hI.nulls⟩
  | @fail t checked hperm =>
    refine ⟨hI.nodup, hI.fresh, hI.lent, fun x hx => hI.creating x (List.mem_of_mem_eraseP hx), fun n hn => ?_⟩
    rcases List.mem_append.mp hn with hn | hn
    · exact hI.nulls n hn
    · rw [List.mem_singleton.mp hn]
      exact ⟨hI.creating (t, checked) (hperm.mem_iff.mpr List.mem_cons_self), Or.inl rfl⟩
  | @insert t conn hperm =>
    have hconns : ((p.pool ++ [(⟨conn, true⟩ : Slot Conn)]).map Slot.conn ++ (p.created.eraseP (·.1 == t)).map Prod.snd).Perm
        (p.pool.map Slot.conn ++ p.created.map Prod.snd) := by
      rw [List.map_append, List.append_assoc]
      exact (hperm.map Prod.snd).symm.append_left _
    refine ⟨hconns.nodup_iff.mpr hI.nodup, fun x hx => hI.fresh x (hconns.mem_iff.mp hx), ?_, hI.creating, hI.nulls⟩
    rw [lent_append, List.map_append]
    exact hI.lent.append_right _
  | @release t conn slot pool hgive husing =>
    obtain ⟨-, -, hconns, hlent⟩ := give_eq_some hgive
    have hconns := hconns.append_right (p.created.map Prod.snd)
    refine ⟨hconns.nodup_iff.mpr hI.nodup, fun x hx => hI.fresh x (hconns.mem_iff.mp hx), ?_, hI.creating, hI.nulls⟩
    rw [if_pos husing] at hlent
    have hheld := (List.perm_cons_erase hrel).map Prod.snd
    exact (hlent.symm.trans (hI.lent.trans hheld)).cons_inv

theorem Inv.slot_eq (hI : Inv p) {s s' : Slot Conn} (hs : s ∈ p.pool) (hs' : s' ∈ p.pool) (h : s.conn = s'.conn) :
    s = s' :=
  List.inj_on_of_nodup_map (List.nodup_append.mp hI.nodup).1 hs hs' h

theorem Inv.inUse_iff (hI : Inv p) {s : Slot Conn} (hs : s ∈ p.pool) :
    s.inUse = true ↔ ∃ t, (t, s.conn) ∈ p.held := by
  have hheld : s.conn ∈ Pool.lent p.pool ↔ ∃ t, (t, s.conn) ∈ p.held := by
    rw [hI.lent.mem_iff]
    simp
  rw [← hheld, mem_lent]
  refine ⟨fun h => ⟨s, hs, h, rfl⟩, ?_⟩
  rintro ⟨s', hs', husing, hconn⟩
  exact hI.slot_eq hs' hs hconn ▸ husing

/-- A caller that releases what it holds meets no assertion. -/
theorem step_error (hI : Inv p) (hrel : ReleasesHeld p a) {e : Fault} (h : step p a = .error e) : e = .disabled := by
  cases a with
  | getConn t =>
    simp only [step] at h
    split at h <;> cases h
    rfl
  | create t ok =>
    simp only [step, create] at h
    split at h
    · cases h
      rfl
    · cases ok <;> cases h
  | insert t =>
    simp only [step, ConnectionPool.insert] at h
    split at h <;> cases h
    rfl
  | rleaseConn t conn =>
    obtain ⟨slot, hslot, husing, rfl⟩ := mem_lent.mp (hI.lent.mem_iff.mpr (List.mem_map_of_mem (f := Prod.snd) hrel))
    simp only [step, rleaseConn] at h
    split at h
    · rename_i hgive
      exact absurd (List.mem_map_of_mem hslot) (give_eq_none.mp hgive)
    · rename_i slot' pool hgive
      obtain ⟨hslot', hconn, -⟩ := give_eq_some hgive
      rw [hI.slot_eq hslot' hslot hconn, if_pos husing] at h
      cases h

/-! ### Runs -/

theorem inv_push (hI : Inv p) : Inv { p with pool := p.pool ++ [⟨p.conns, false⟩], conns := p.conns + 1 } := by
  have hperm : ((p.pool ++ [(⟨p.conns, false⟩ : Slot Conn)]).map Slot.conn ++ p.created.map Prod.snd).Perm
      (p.conns :: (p.pool.map Slot.conn ++ p.created.map Prod.snd)) := by
    rw [List.map_append, List.append_assoc]
    exact List.perm_middle
  obtain ⟨hnodup, hfresh⟩ := fresh_of_perm hperm hI.nodup hI.fresh
  have hlent : Pool.lent (p.pool ++ [⟨p.conns, false⟩]) = Pool.lent p.pool := by
    rw [lent_append]
    exact List.append_nil _
  exact ⟨hnodup, hfresh, hlent ▸ hI.lent, hI.creating, hI.nulls⟩

/-- What holds of the pool with the rounds still to go, if each round keeps it. -/
theorem initLoop_rule {I : ConnectionPool → Nat → Prop}
    (hpush : ∀ {p n}, I p (n + 1) → I { p with pool := p.pool ++ [⟨p.conns, false⟩], conns := p.conns + 1 } n)
    {n : Nat} (h : I p n) (created : List Bool) : ∃ m, I (p.initLoop n created).2 m := by
  induction n generalizing p created with
  | zero => exact ⟨0, h⟩
  | succ n ih =>
    unfold initLoop
    split
    · exact ⟨n + 1, h⟩
    · rename_i heq
      cases heq
      exact ih (hpush h) _
    · exact ⟨n + 1, h⟩

theorem inv_init (opt : ConnectionPoolOpt) (created : List Bool) : Inv (init opt created).2 := by
  have hempty : Inv { opt } := by constructor <;> simp [Pool.lent]
  obtain ⟨-, hI⟩ := initLoop_rule (I := fun p _ => Inv p) inv_push hempty (n := opt.poolSize) created
  exact hI

theorem init_reserved {opt : ConnectionPoolOpt} (hopt : opt.poolSize ≤ opt.poolMaxSize) (created : List Bool) :
    (init opt created).2.reserved ≤ opt.poolMaxSize ∧ (init opt created).2.opt = opt := by
  have hempty : ({ opt } : ConnectionPool).reserved + opt.poolSize ≤ opt.poolMaxSize := by
    simpa [reserved] using hopt
  have hpush : ∀ {p : ConnectionPool} {n : Nat}, p.reserved + (n + 1) ≤ opt.poolMaxSize ∧ p.opt = opt →
      ({ p with pool := p.pool ++ [⟨p.conns, false⟩], conns := p.conns + 1 } : ConnectionPool).reserved + n ≤
        opt.poolMaxSize ∧ p.opt = opt := by
    rintro p n ⟨hlen, heq⟩
    simp only [reserved, List.length_append, List.length_singleton] at hlen ⊢
    exact ⟨by omega, heq⟩
  obtain ⟨m, hlen, heq⟩ := initLoop_rule (I := fun p n => p.reserved + n ≤ opt.poolMaxSize ∧ p.opt = opt) hpush
    ⟨hempty, rfl⟩ created
  exact ⟨Nat.le_of_add_right_le hlen, heq⟩

theorem step_opt (h : step p a = .ok q) : q.opt = p.opt := by
  cases step_effect h <;> rfl

/-- What is being made can all be put into the pool. -/
theorem exists_run_of_reserved (p : ConnectionPool) : ∃ as q, run step p as = .ok q ∧ q.pool.length = p.reserved := by
  generalize hn : 2 * p.creating.length + p.created.length = n
  induction n using Nat.strongRecOn generalizing p with
  | ind n ih =>
    cases hcreating : p.creating with
    | cons x creating =>
      obtain ⟨t, checked⟩ := x
      have hstep : step p (.create t true) = .ok { p with
          creating, created := p.created ++ [(t, p.conns)], conns := p.conns + 1 } := by
        simp [step, create, hcreating]
      simp only [hcreating, List.length_cons] at hn
      obtain ⟨as, q, hrun, hlen⟩ := ih (2 * creating.length + (p.created.length + 1)) (by omega)
        { p with creating, created := p.created ++ [(t, p.conns)], conns := p.conns + 1 } (by simp)
      refine ⟨_ :: as, q, (run_cons hstep as).trans hrun, hlen.trans ?_⟩
      simp only [reserved, hcreating, List.length_append, List.length_cons, List.length_nil]
      omega
    | nil =>
      cases hcreated : p.created with
      | cons x created =>
        obtain ⟨t, conn⟩ := x
        have hstep : step p (.insert t) = .ok { p with
            created, pool := p.pool ++ [⟨conn, true⟩], held := p.held ++ [(t, conn)] } := by
          simp [step, ConnectionPool.insert, hcreated]
        simp only [hcreating, hcreated, List.length_cons, List.length_nil] at hn
        obtain ⟨as, q, hrun, hlen⟩ := ih created.length (by omega)
          { p with created, pool := p.pool ++ [⟨conn, true⟩], held := p.held ++ [(t, conn)] } (by simp [hcreating])
        refine ⟨_ :: as, q, (run_cons hstep as).trans hrun, hlen.trans ?_⟩
        simp only [reserved, hcreated, List.length_append, List.length_cons, List.length_nil]
        omega
      | nil => exact ⟨[], p, rfl, by simp [reserved, hcreating, hcreated]⟩

/-- The pool stays within its bound as long as each call that makes a connection finds room beside
    those that are being made; after a call that does not, the pool can grow beyond it. -/
theorem pool_length_le {opt : ConnectionPoolOpt} (hopt : opt.poolSize ≤ opt.poolMaxSize) {created : List Bool}
    {as : List Action} {p : ConnectionPool} (h : run step (init opt created).2 as = .ok p) :
    (Along step MakesInRoom (init opt created).2 as → p.pool.length ≤ opt.poolMaxSize) ∧
    ∀ t, ¬p.calling t → ¬MakesInRoom p (.getConn t) →
      ∃ bs q, run step p (.getConn t :: bs) = .ok q ∧ opt.poolMaxSize < q.pool.length := by
  obtain ⟨hinit, hoptInit⟩ := init_reserved hopt created
  have hoptRun : p.opt = opt := run_invariant (I := fun p => p.opt = opt) (fun hI _ hs => (step_opt hs).trans hI) hoptInit
    (along_true _ _) h
  constructor
  · intro hroom
    have hreserved := run_invariant reserved_le_step (hoptInit.symm ▸ hinit) hroom h
    rw [hoptRun] at hreserved
    exact Nat.le_trans (by unfold reserved; omega) hreserved
  · intro t hcalling hnot
    simp only [MakesInRoom, hoptRun, Classical.not_imp, Nat.not_lt] at hnot
    obtain ⟨htake, hlen, hroom⟩ := hnot
    have hstep : step p (.getConn t) = .ok { p with creating := p.creating ++ [(t, p.pool)] } := by
      simp only [step, getConn, if_neg hcalling, htake, hoptRun, ge_iff_le, if_neg (Nat.not_le.mpr hlen)]
    obtain ⟨bs, q, hrun, hq⟩ := exists_run_of_reserved { p with creating := p.creating ++ [(t, p.pool)] }
    refine ⟨bs, q, (run_cons hstep bs).trans hrun, ?_⟩
    rw [hq]
    simp only [reserved, List.length_append, List.length_singleton] at hroom ⊢
    omega

end

/-- A second connection that is made when nobody else makes one. -/
theorem pool_length_le_two :
    let as := [Action.getConn 0, .getConn 1, .create 1 true, .insert 1]
    let p := ({ opt := ⟨1, 2⟩, pool := [⟨0, true⟩, ⟨1, true⟩], conns := 2, held := [(0, 0), (1, 1)] } : ConnectionPool)
    run step (init ⟨1, 2⟩ [true]).2 as = .ok p ∧ p.pool.length ≤ 2 := by
  intro as p
  have hrun : run step (init ⟨1, 2⟩ [true]).2 as = .ok p := by rfl
  have hopt : (⟨1, 2⟩ : ConnectionPoolOpt).poolSize ≤ (⟨1, 2⟩ : ConnectionPoolOpt).poolMaxSize := by decide
  refine ⟨hrun, (pool_length_le hopt hrun).1 ?_⟩
  refine ⟨fun _ _ => by decide, fun q hq => ?_⟩
  cases hq
  refine ⟨fun _ _ => by decide, fun q hq => ?_⟩
  cases hq
  exact ⟨trivial, fun q _ => ⟨trivial, fun _ _ => trivial⟩⟩

/-- Two calls that check the size before either of them puts its connection into the pool. -/
theorem pool_exceeds_max : ¬∀ (opt : ConnectionPoolOpt) (created : List Bool) (as : List Action) (p : ConnectionPool),
    opt.poolSize ≤ opt.poolMaxSize → run step (init opt created).2 as = .ok p → p.pool.length ≤ opt.poolMaxSize := by
  intro h
  have hlen := h ⟨1, 2⟩ [true] [.getConn 0, .getConn 1, .getConn 2, .create 1 true, .create 2 true, .insert 1, .insert 2]
    { opt := ⟨1, 2⟩
      pool := [⟨0, true⟩, ⟨1, true⟩, ⟨2, true⟩]
      conns := 3
      held := [(0, 0), (1, 1), (2, 2)] } (by decide) (by rfl)
  exact absurd hlen (by decide)

/-! ### Exclusive checkout -/

structure Exclusive (p : ConnectionPool) : Prop where
  heldOnce : (p.held.map Prod.snd).Nodup
  inUse : ∀ slot ∈ p.pool, slot.inUse = true ↔ ∃ t, (t, slot.conn) ∈ p.held
  heldSlot : ∀ x ∈ p.held, ∃ slot ∈ p.pool, slot.conn = x.2
  slotOnce : (p.pool.map Slot.conn).Nodup
  released : ∀ t conn q, p.rleaseConn t conn = .ok q → (q.pool.map Slot.conn).Perm (p.pool.map Slot.conn)
  nulls : ∀ n ∈ p.nulls, (∀ slot ∈ n.checked, slot.inUse = true) ∧
    (n.createFailed = true ∨ p.opt.poolMaxSize ≤ n.checked.length)

theorem Inv.exclusive {p : ConnectionPool} (hI : Inv p) : Exclusive p := by
  have hslots := (List.nodup_append.mp hI.nodup).1
  refine ⟨?_, fun slot hslot => hI.inUse_iff hslot, ?_, hslots, fun t conn q hq => ?_, hI.nulls⟩
  · exact hI.lent.nodup_iff.mp (hslots.sublist (List.filter_sublist.map _))
  · intro x hx
    obtain ⟨slot, hslot, -, hconn⟩ := mem_lent.mp (hI.lent.mem_iff.mpr (List.mem_map_of_mem hx))
    exact ⟨slot, hslot, hconn⟩
  · have heffect : Effect p (.rleaseConn t conn) q := step_effect hq
    rcases heffect with _ | _ | _ | _ | _ | _ | @⟨_, _, _, _, hgive, _⟩
    exact (give_eq_some hgive).2.2.1

/-- As long as callers release what they hold, no assertion of `rleaseConn` fails and each connection
    is held by at most one caller, whose slot is the one that is in use. -/
theorem exclusive_run (opt : ConnectionPoolOpt) (created : List Bool) {as : List Action}
    (hrel : Along step ReleasesHeld (init opt created).2 as) :
    (∀ e, run step (init opt created).2 as = .error e → e = .disabled) ∧
    ∀ p, run step (init opt created).2 as = .ok p → Exclusive p := by
  refine ⟨fun e h => ?_, fun p h => (run_invariant inv_step (inv_init opt created) hrel h).exclusive⟩
  exact run_error (E := (· = .disabled)) inv_step (fun hI hrel h => step_error hI hrel h) (inv_init opt created) hrel h

/-- A caller that gets a connection, releases it and gets it again. -/
theorem exclusive_run_again :
    Along step ReleasesHeld (init ⟨1, 1⟩ [true]).2 [.getConn 0, .rleaseConn 0 0, .getConn 1] ∧
    Exclusive { opt := ⟨1, 1⟩, pool := [⟨0, true⟩], conns := 1, held := [(1, 0)] } := by
  have hrel : Along step ReleasesHeld (init ⟨1, 1⟩ [true]).2 [.getConn 0, .rleaseConn 0 0, .getConn 1] := by
    refine ⟨trivial, fun q hq => ?_⟩
    cases hq
    exact ⟨List.mem_singleton.mpr rfl, fun q _ => ⟨trivial, fun _ _ => trivial⟩⟩
  exact ⟨hrel, (exclusive_run ⟨1, 1⟩ [true] hrel).2 _ (by rfl)⟩

end Zylib.Rediscpp.ConnectionPool
