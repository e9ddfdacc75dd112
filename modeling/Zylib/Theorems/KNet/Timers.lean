import Zylib.KNet.EventManager
import Zylib.Lib.Run
import Zylib.Lib.Log

/-! What becomes of a timer. `m_timers` holds the timers that were added and neither canceled nor done; a timer
    whose `CB_Event` has run waits in a queue, or in the loop of `Tick`, until it is one of the two. -/

namespace Zylib.KNet.TimerSystem
open Run Log

variable {κ : Type}

/-- The `CB_Event` of the timer has run before the last `Tick` began. -/
def FiredBefore (log : List (TimerEvent κ)) (hdl : Nat) : Prop :=
  ∃ pre post, log = pre ++ .tickBegins :: post ∧ .tickBegins ∉ post ∧ .fired hdl ∈ pre

/-- The timer was canceled, or its callback was invoked. -/
def Settled (log : List (TimerEvent κ)) (hdl : Nat) : Prop := .canceled hdl ∈ log ∨ ∃ cb, .invoked hdl cb ∈ log

/-- A callback is invoked once, after its `CB_Event` and not after its cancellation; and when a `Tick` ends,
    each timer whose `CB_Event` ran before it began was canceled or invoked. -/
def InOrder (log : List (TimerEvent κ)) : TimerEvent κ → Prop
  | .invoked hdl cb => .added hdl cb ∈ log ∧ .fired hdl ∈ log ∧ ¬Settled log hdl
  | .tickEnds => ∀ hdl, FiredBefore log hdl → Settled log hdl
  | _ => True

/-- The callback of the timer is running. -/
def Running (s : TimerSystem κ) (hdl : Nat) : Prop := ∃ all, s.pc = .callback hdl all

/-- The handles that wait to be looked at, now or by a later `Tick`. -/
def queue (s : TimerSystem κ) : List Nat := s.pc.rest ++ s.manager.timeoutTimers

structure Inv (s : TimerSystem κ) : Prop where
  length : s.waits.length = s.manager.heap.length
  added : ∀ hdl cb, .added hdl cb ∈ s.log ↔ s.manager.heap[hdl]? = some cb
  known : ∀ hdl, .canceled hdl ∈ s.log ∨ (∃ cb, .invoked hdl cb ∈ s.log) ∨ .fired hdl ∈ s.log →
    hdl < s.manager.heap.length
  nodup : s.manager.timers.Nodup
  timers : ∀ hdl, hdl ∈ s.manager.timers ↔
    hdl < s.manager.heap.length ∧ .canceled hdl ∉ s.log ∧ ∀ cb, .invoked hdl cb ∈ s.log → s.Running hdl
  running : ∀ hdl, s.Running hdl → ∃ cb, .invoked hdl cb ∈ s.log
  fired : ∀ hdl, .fired hdl ∈ s.log → s.waits[hdl]? = some .over
  distinct : s.queue.Nodup
  queued : ∀ hdl ∈ s.queue, .fired hdl ∈ s.log ∧ ∀ cb, .invoked hdl cb ∉ s.log
  waiting : ∀ hdl, .fired hdl ∈ s.log → hdl ∈ s.queue ∨ Settled s.log hdl
  current : s.pc ≠ .user → ∀ hdl, FiredBefore s.log hdl → hdl ∈ s.pc.rest ∨ Settled s.log hdl
  order : Respects InOrder s.log

theorem firedBefore_concat {log : List (TimerEvent κ)} {e : TimerEvent κ} {hdl : Nat} :
    FiredBefore (log ++ [e]) hdl ↔ (e = .tickBegins ∧ .fired hdl ∈ log) ∨ (e ≠ .tickBegins ∧ FiredBefore log hdl) := by
  constructor
  · rintro ⟨pre, post, hlog, hpost, hmem⟩
    rcases List.eq_nil_or_concat' post with rfl | ⟨post, e', rfl⟩
    · obtain ⟨rfl, he⟩ := List.append_inj' hlog rfl
      cases he
      exact Or.inl ⟨rfl, hmem⟩
    · have hlog : log ++ [e] = (pre ++ .tickBegins :: post) ++ [e'] := by rw [hlog]; simp
      obtain ⟨rfl, he⟩ := List.append_inj' hlog rfl
      cases he
      refine Or.inr ⟨fun he => hpost ?_, pre, post, rfl, fun h => hpost (List.mem_append_left _ h), hmem⟩
      exact he ▸ List.mem_append_right _ (List.mem_singleton_self _)
  · rintro (⟨rfl, hmem⟩ | ⟨hne, pre, post, rfl, hpost, hmem⟩)
    · exact ⟨log, [], rfl, List.not_mem_nil, hmem⟩
    · refine ⟨pre, post ++ [e], by simp, fun h => ?_, hmem⟩
      rcases List.mem_append.mp h with h | h
      · exact hpost h
      · exact hne (List.mem_singleton.mp h).symm

theorem mem_emit {s : TimerSystem κ} {e e' : TimerEvent κ} : e ∈ (s.emit e').log ↔ e ∈ s.log ∨ e = e' := by
  simp [emit]

theorem settled_concat {log : List (TimerEvent κ)} {hdl : Nat} (e : TimerEvent κ) (h : Settled log hdl) :
    Settled (log ++ [e]) hdl :=
  h.imp (List.mem_append_left _) fun ⟨cb, hcb⟩ => ⟨cb, List.mem_append_left _ hcb⟩

section
variable {s t : TimerSystem κ}

theorem inv_init : Inv ({} : TimerSystem κ) where
  length := rfl
  added := by simp
  known := by simp
  nodup := List.nodup_nil
  timers := by simp
  running := by simp [Running]
  fired := by simp
  distinct := List.nodup_nil
  queued := by simp [queue, TickPc.rest]
  waiting := by simp
  current := fun h => absurd rfl h
  order := respects_nil

theorem Inv.lt_of_mem (h : Inv s) {hdl : Nat} (hmem : hdl ∈ s.manager.timers) : hdl < s.manager.heap.length :=
  ((h.timers hdl).mp hmem).1

/-- The current `Tick` after an event other than its begin. -/
theorem Inv.current_concat (h : Inv s) (e : TimerEvent κ) (he : e ≠ .tickBegins) (hpc : s.pc ≠ .user) {hdl : Nat}
    (hf : FiredBefore (s.log ++ [e]) hdl) : hdl ∈ s.pc.rest ∨ Settled (s.log ++ [e]) hdl := by
  rcases firedBefore_concat.mp hf with ⟨heq, -⟩ | ⟨-, hf⟩
  · exact absurd heq he
  · exact (h.current hpc hdl hf).imp_right (settled_concat _)

/-! ### Adding and canceling -/

theorem Inv.addTimer (h : Inv s) (cb : κ) : Inv (s.addTimer cb) := by
  let n := s.manager.heap.length
  have hstate : s.addTimer cb = { s with
      manager := { s.manager with timers := s.manager.timers ++ [n], heap := s.manager.heap ++ [cb] }
      waits := s.waits ++ [.pending] : TimerSystem κ }.emit (.added n cb) := rfl
  have hlen : (s.manager.heap ++ [cb]).length = n + 1 := by simp [n]
  rw [hstate]
  refine ⟨?_, fun x cb' => ?_, fun x hk => ?_, ?_, fun x => ?_, fun x hrun => ?_, fun x hf => ?_, h.distinct, fun x hq => ?_,
    fun x hf => ?_, fun hpc x hf => h.current_concat (.added n cb) nofun hpc hf, respects_concat.mpr ⟨h.order, trivial⟩⟩
  · show (s.waits ++ [_]).length = (s.manager.heap ++ [cb]).length
    rw [hlen, List.length_append, h.length]
    rfl
  · show _ ↔ (s.manager.heap ++ [cb])[x]? = some cb'
    have hlog : ({ s with manager := _, waits := _ } : TimerSystem κ).log = s.log := rfl
    rw [mem_emit, TimerEvent.added.injEq, hlog, h.added]
    rcases Nat.lt_trichotomy x n with hlt | rfl | hgt
    · rw [List.getElem?_append_left hlt, or_iff_left]
      exact fun heq => Nat.ne_of_lt hlt heq.1
    · simp [n, eq_comm]
    · have hnone : (s.manager.heap ++ [cb])[x]? = none := List.getElem?_eq_none (by omega)
      rw [hnone, List.getElem?_eq_none (Nat.le_of_lt hgt)]
      simp [Nat.ne_of_gt hgt]
  · show x < (s.manager.heap ++ [cb]).length
    simp only [mem_emit, reduceCtorEq, or_false] at hk
    exact hlen ▸ Nat.lt_succ_of_lt (h.known x hk)
  · show (s.manager.timers ++ [n]).Nodup
    refine List.nodup_append.mpr ⟨h.nodup, by simp, fun x hx y hy => ?_⟩
    rw [List.mem_singleton.mp hy]
    exact Nat.ne_of_lt (h.lt_of_mem hx)
  · show x ∈ s.manager.timers ++ [n] ↔ x < (s.manager.heap ++ [cb]).length ∧ _
    simp only [mem_emit, reduceCtorEq, or_false]
    rw [List.mem_append, List.mem_singleton, h.timers, hlen]
    constructor
    · rintro (⟨hlt, hc, hi⟩ | rfl)
      · exact ⟨Nat.lt_succ_of_lt hlt, hc, hi⟩
      · refine ⟨Nat.lt_succ_self _, fun hc => ?_, fun cb' hi => ?_⟩
        · exact absurd (h.known _ (Or.inl hc)) (Nat.lt_irrefl _)
        · exact absurd (h.known _ (Or.inr (Or.inl ⟨cb', hi⟩))) (Nat.lt_irrefl _)
    · rintro ⟨hlt, hc, hi⟩
      exact (Nat.lt_succ_iff_lt_or_eq.mp hlt).imp_left fun hlt => ⟨hlt, hc, hi⟩
  · obtain ⟨cb', hi⟩ := h.running x hrun
    exact ⟨cb', mem_emit.mpr (Or.inl hi)⟩
  · simp only [mem_emit, reduceCtorEq, or_false] at hf
    have hlt := h.known x (Or.inr (Or.inr hf))
    show (s.waits ++ [_])[x]? = _
    rw [List.getElem?_append_left (h.length ▸ hlt)]
    exact h.fired x hf
  · simp only [mem_emit, reduceCtorEq, or_false]
    exact h.queued x hq
  · simp only [mem_emit, reduceCtorEq, or_false] at hf
    exact (h.waiting x hf).imp_right (settled_concat _)

theorem timers_cancelTimer {m : TimerManager κ} {hdl : Nat} (hnodup : m.timers.Nodup) (hlt : hdl < m.heap.length) :
    (m.cancelTimer hdl).timers.Nodup ∧ (m.cancelTimer hdl).timeoutTimers = m.timeoutTimers ∧
      ∀ x, x ∈ (m.cancelTimer hdl).timers ↔ x ∈ m.timers ∧ x ≠ hdl := by
  unfold TimerManager.cancelTimer
  split
  · rename_i hlock
    have hnot : hdl ∉ m.timers := by
      intro hmem
      rw [TimerManager.lock, if_pos hmem, List.getElem?_eq_getElem hlt] at hlock
      cases hlock
    exact ⟨hnodup, rfl, fun x => ⟨fun hx => ⟨hx, fun heq => hnot (heq ▸ hx)⟩, And.left⟩⟩
  · exact ⟨hnodup.erase hdl, rfl, fun x => by rw [TimerManager.erase, hnodup.mem_erase_iff, and_comm]⟩

theorem waits_cancelTimer (s : TimerSystem κ) (hdl : Nat) :
    (s.cancelTimer hdl).waits.length = s.waits.length ∧
      ∀ x : Nat, s.waits[x]? = some Wait.over → (s.cancelTimer hdl).waits[x]? = some Wait.over := by
  unfold TimerSystem.cancelTimer
  dsimp only [emit]
  split
  · rename_i hpending
    refine ⟨List.length_set, fun x hx => ?_⟩
    rw [List.getElem?_set_ne, hx]
    rintro rfl
    rw [hpending] at hx
    cases hx
  · exact ⟨rfl, fun x hx => hx⟩

theorem Inv.cancelTimer (h : Inv s) {hdl : Nat} (hlt : hdl < s.manager.heap.length) : Inv (s.cancelTimer hdl) := by
  obtain ⟨hnodup, htimeout, htimers⟩ := timers_cancelTimer h.nodup hlt
  obtain ⟨hlength, hover⟩ := waits_cancelTimer s hdl
  have hheap := s.manager.heap_cancelTimer hdl
  have hlog : ∀ e, e ∈ (s.cancelTimer hdl).log ↔ e ∈ s.log ∨ e = .canceled hdl := fun e => mem_emit
  have hqueue : (s.cancelTimer hdl).queue = s.queue := congrArg (s.pc.rest ++ ·) htimeout
  refine ⟨?_, fun x cb => ?_, fun x hk => ?_, hnodup, fun x => ?_, fun x hrun => ?_, fun x hf => ?_, hqueue ▸ h.distinct,
    fun x hq => ?_, fun x hf => ?_, fun hpc x hf => h.current_concat (.canceled hdl) nofun hpc hf,
    respects_concat.mpr ⟨h.order, trivial⟩⟩
  · exact (hlength.trans h.length).trans (congrArg List.length hheap.symm)
  · show _ ↔ (s.manager.cancelTimer hdl).heap[x]? = some cb
    rw [hlog, hheap, ← h.added]
    simp
  · show x < (s.manager.cancelTimer hdl).heap.length
    simp only [hlog, reduceCtorEq, or_false, TimerEvent.canceled.injEq] at hk
    rw [hheap]
    rcases hk with (hk | rfl) | hk
    · exact h.known x (Or.inl hk)
    · exact hlt
    · exact h.known x (Or.inr hk)
  · show x ∈ (s.manager.cancelTimer hdl).timers ↔ x < (s.manager.cancelTimer hdl).heap.length ∧ _
    simp only [hlog, reduceCtorEq, or_false, TimerEvent.canceled.injEq, not_or]
    rw [htimers, hheap, h.timers]
    exact ⟨fun ⟨⟨hx, hc, hi⟩, hne⟩ => ⟨hx, ⟨hc, hne⟩, hi⟩, fun ⟨hx, ⟨hc, hne⟩, hi⟩ => ⟨⟨hx, hc, hi⟩, hne⟩⟩
  · obtain ⟨cb, hi⟩ := h.running x hrun
    exact ⟨cb, (hlog _).mpr (Or.inl hi)⟩
  · simp only [hlog, reduceCtorEq, or_false] at hf
    exact hover x (h.fired x hf)
  · simp only [hlog, reduceCtorEq, or_false]
    exact h.queued x (hqueue ▸ hq)
  · simp only [hlog, reduceCtorEq, or_false] at hf
    rw [hqueue]
    exact (h.waiting x hf).imp_right (settled_concat _)

/-! ### The thread of the `io_service` -/

/-- A wait other than those that are over. -/
theorem over_set {waits : List Wait} {hdl : Nat} {w : Wait} (hne : waits[hdl]? ≠ some .over) {x : Nat}
    (hx : waits[x]? = some .over) : (waits.set hdl w)[x]? = some .over := by
  rw [List.getElem?_set_ne, hx]
  rintro rfl
  exact hne hx

/-- A wait ends or is over, and no `CB_Event` runs. -/
theorem Inv.setWait (h : Inv s) {hdl : Nat} (w : Wait) (hne : s.waits[hdl]? ≠ some .over) :
    Inv { s with waits := s.waits.set hdl w } :=
  { h with
    length := List.length_set.trans h.length
    fired := fun x hf => over_set hne (h.fired x hf) }

theorem Inv.cbEvent (h : Inv s) {hdl : Nat} (hwait : s.waits[hdl]? = some .expired) :
    Inv ({ s with waits := s.waits.set hdl .over, manager := s.manager.cbEvent hdl }.emit (.fired hdl)) := by
  have hlt : hdl < s.waits.length := (List.getElem?_eq_some_iff.mp hwait).1
  have hnew : .fired hdl ∉ s.log := fun hf => by
    rw [h.fired hdl hf] at hwait
    cases hwait
  have hqueue : ({ s with waits := s.waits.set hdl .over, manager := s.manager.cbEvent hdl }.emit (.fired hdl)).queue =
      s.queue ++ [hdl] := (List.append_assoc ..).symm
  have hinvoked : ∀ cb, .invoked hdl cb ∉ s.log := by
    intro cb hi
    obtain ⟨pre, post, hlog⟩ := List.append_of_mem hi
    have hok := h.order pre (.invoked hdl cb) ⟨post, by rw [hlog]; simp⟩
    exact hnew (hlog ▸ List.mem_append_left _ hok.2.1)
  refine ⟨List.length_set.trans h.length, fun x cb => ?_, fun x hk => ?_, h.nodup, fun x => ?_, fun x hrun => ?_,
    fun x hf => ?_, ?_, fun x hq => ?_, fun x hf => ?_, fun hpc x hf => h.current_concat (.fired hdl) nofun hpc hf,
    respects_concat.mpr ⟨h.order, trivial⟩⟩
  · simp only [mem_emit, reduceCtorEq, or_false]
    exact h.added x cb
  · simp only [mem_emit, reduceCtorEq, or_false, TimerEvent.fired.injEq] at hk
    rcases hk with hk | hk | hk | rfl
    · exact h.known x (Or.inl hk)
    · exact h.known x (Or.inr (Or.inl hk))
    · exact h.known x (Or.inr (Or.inr hk))
    · exact h.length ▸ hlt
  · simp only [mem_emit, reduceCtorEq, or_false]
    exact h.timers x
  · simp only [mem_emit, reduceCtorEq, or_false]
    exact h.running x hrun
  · simp only [mem_emit, TimerEvent.fired.injEq] at hf
    show (s.waits.set hdl .over)[x]? = _
    rcases hf with hf | rfl
    · exact over_set (by rw [hwait]; exact nofun) (h.fired x hf)
    · exact List.getElem?_set_self hlt
  · rw [hqueue]
    refine List.nodup_append.mpr ⟨h.distinct, by simp, fun x hx y hy => ?_⟩
    rw [List.mem_singleton.mp hy]
    rintro rfl
    exact hnew (h.queued x hx).1
  · simp only [mem_emit, reduceCtorEq, or_false, TimerEvent.fired.injEq]
    rw [hqueue] at hq
    rcases List.mem_append.mp hq with hq | hq
    · exact ⟨Or.inl (h.queued x hq).1, (h.queued x hq).2⟩
    · cases List.mem_singleton.mp hq
      exact ⟨Or.inr rfl, hinvoked⟩
  · simp only [mem_emit, TimerEvent.fired.injEq] at hf
    rw [hqueue, List.mem_append, List.mem_singleton]
    rcases hf with hf | rfl
    · exact (h.waiting x hf).imp Or.inl (settled_concat _)
    · exact Or.inl (Or.inr rfl)

/-! ### `Tick` -/

theorem rest_of_running {hdl : Nat} (h : s.Running hdl) {pc : TickPc} (hpc : s.pc = pc) : ∃ all, pc = .callback hdl all := by
  obtain ⟨all, hall⟩ := h
  exact ⟨all, hpc.symm.trans hall⟩

theorem not_running_user (hpc : s.pc = .user) (hdl : Nat) : ¬s.Running hdl := by
  intro hrun
  obtain ⟨all, hall⟩ := rest_of_running hrun hpc
  cases hall

theorem not_running_loop {all : List Nat} (hpc : s.pc = .loop all) (hdl : Nat) : ¬s.Running hdl := by
  intro hrun
  obtain ⟨all, hall⟩ := rest_of_running hrun hpc
  cases hall

/-- Outside callbacks `m_timers` has the timers of which no callback was invoked. -/
theorem Inv.timers_outside (h : Inv s) {x : Nat} (hs : ¬s.Running x) (ht : ¬t.Running x) : x ∈ s.manager.timers ↔
    x < s.manager.heap.length ∧ .canceled x ∉ s.log ∧ ∀ cb, .invoked x cb ∈ s.log → t.Running x := by
  refine (h.timers x).trans (and_congr_right fun _ => and_congr_right fun _ => forall_congr' fun cb => ?_)
  exact imp_congr_right fun _ => iff_of_false hs ht

/-- A `Tick` begins or ends. The handles that wait stay the same. -/
theorem Inv.turn (h : Inv s) {e : TimerEvent κ} (he : e = .tickBegins ∨ e = .tickEnds) {timeoutTimers : List Nat} {pc : TickPc}
    (hs : ∀ x, ¬s.Running x) (ht : ∀ x all, pc ≠ .callback x all) (hqueue : pc.rest ++ timeoutTimers = s.queue)
    (hcurrent : pc ≠ .user → ∀ x, FiredBefore (s.log ++ [e]) x → x ∈ pc.rest ∨ Settled (s.log ++ [e]) x)
    (hok : InOrder s.log e) : Inv ({ s with manager := { s.manager with timeoutTimers }, pc }.emit e) := by
  have hlog : ∀ e', e' ≠ .tickBegins → e' ≠ .tickEnds → (e' ∈ s.log ++ [e] ↔ e' ∈ s.log) := by
    intro e' hbegins hends
    rw [List.mem_append, List.mem_singleton, or_iff_left]
    rintro rfl
    exact he.elim hbegins hends
  have hadded : ∀ x cb, .added x cb ∈ s.log ++ [e] ↔ .added x cb ∈ s.log := fun _ _ => hlog _ nofun nofun
  have hinvoked : ∀ x cb, .invoked x cb ∈ s.log ++ [e] ↔ .invoked x cb ∈ s.log := fun _ _ => hlog _ nofun nofun
  have hcanceled : ∀ x, .canceled x ∈ s.log ++ [e] ↔ .canceled x ∈ s.log := fun _ => hlog _ nofun nofun
  have hfired : ∀ x, .fired x ∈ s.log ++ [e] ↔ .fired x ∈ s.log := fun _ => hlog _ nofun nofun
  have hqueue : ({ s with manager := { s.manager with timeoutTimers }, pc }.emit e).queue = s.queue := hqueue
  refine ⟨h.length, fun x cb => ?_, fun x hk => ?_, h.nodup, fun x => ?_, fun x hrun => ?_, fun x hf => ?_, hqueue ▸ h.distinct,
    fun x hq => ?_, fun x hf => ?_, hcurrent, respects_concat.mpr ⟨h.order, hok⟩⟩
  · exact (hadded x cb).trans (h.added x cb)
  · simp only [emit, hcanceled, hinvoked, hfired] at hk
    exact h.known x hk
  · simp only [emit, hcanceled, hinvoked]
    exact h.timers_outside (hs x) fun ⟨all, hall⟩ => ht x all hall
  · obtain ⟨all, hall⟩ := hrun
    exact absurd hall (ht x all)
  · exact h.fired x ((hfired x).mp hf)
  · obtain ⟨hf, hi⟩ := h.queued x (hqueue ▸ hq)
    exact ⟨(hfired x).mpr hf, fun cb hcb => hi cb ((hinvoked x cb).mp hcb)⟩
  · rw [hqueue]
    exact (h.waiting x ((hfired x).mp hf)).imp_right (settled_concat _)

theorem Inv.tickBegins (h : Inv s) (hpc : s.pc = .user) :
    Inv ({ s with manager := s.manager.swap.2, pc := .loop s.manager.swap.1 }.emit .tickBegins) := by
  have hqueue : s.queue = s.manager.timeoutTimers := by
    rw [queue, hpc]
    rfl
  refine h.turn (Or.inl rfl) (not_running_user hpc) nofun ((List.append_nil _).trans hqueue.symm) (fun _ x hf => ?_) trivial
  rcases firedBefore_concat.mp hf with ⟨-, hf⟩ | ⟨hne, -⟩
  · have hwaiting := h.waiting x hf
    rw [hqueue] at hwaiting
    exact hwaiting.imp_right (settled_concat _)
  · exact absurd rfl hne

theorem Inv.tickEnds (h : Inv s) (hpc : s.pc = .loop []) : Inv ({ s with pc := .user }.emit .tickEnds) := by
  have hrest : s.pc.rest = [] := by rw [hpc, TickPc.rest]
  have hqueue : s.queue = s.manager.timeoutTimers := by rw [queue, hrest, List.nil_append]
  refine h.turn (Or.inr rfl) (not_running_loop hpc) nofun hqueue.symm (fun hne => absurd rfl hne) fun x hf => ?_
  rcases h.current (by rw [hpc]; exact nofun) x hf with hmem | hsettled
  · rw [hrest] at hmem
    cases hmem
  · exact hsettled

/-- A handle that does not lock: the timer was canceled. -/
theorem Inv.skip (h : Inv s) {hdl : Nat} {all : List Nat} (hpc : s.pc = .loop (hdl :: all))
    (hnot : hdl ∉ s.manager.timers) : Inv { s with pc := .loop all } := by
  have hqueue : s.queue = hdl :: (all ++ s.manager.timeoutTimers) := by rw [queue, hpc]; rfl
  have hmem : hdl ∈ s.queue := hqueue ▸ List.mem_cons_self
  obtain ⟨hf, hi⟩ := h.queued hdl hmem
  have hcanceled : .canceled hdl ∈ s.log := by
    by_contra hc
    exact hnot ((h.timers hdl).mpr ⟨h.known hdl (Or.inr (Or.inr hf)), hc, fun cb hcb => absurd hcb (hi cb)⟩)
  have hnone' : ∀ x, ¬({ s with pc := .loop all } : TimerSystem κ).Running x := not_running_loop rfl
  have hdistinct := h.distinct
  rw [hqueue, List.nodup_cons] at hdistinct
  refine { h with
    timers := fun x => h.timers_outside (not_running_loop hpc x) (hnone' x)
    running := fun x hrun => absurd hrun (hnone' x)
    distinct := hdistinct.2
    queued := fun x hq => h.queued x (hqueue ▸ List.mem_cons_of_mem _ hq)
    waiting := fun x hf => ?_
    current := fun _ x hf => ?_ }
  · rcases h.waiting x hf with hq | hsettled
    · rw [hqueue] at hq
      rcases List.mem_cons.mp hq with rfl | hq
      · exact Or.inr (Or.inl hcanceled)
      · exact Or.inl hq
    · exact Or.inr hsettled
  · rcases h.current (by rw [hpc]; exact nofun) x hf with hmem | hsettled
    · rw [hpc] at hmem
      rcases List.mem_cons.mp hmem with rfl | hmem
      · exact Or.inr (Or.inl hcanceled)
      · exact Or.inl hmem
    · exact Or.inr hsettled

/-- A handle that locks: its callback is invoked. -/
theorem Inv.invoke (h : Inv s) {hdl : Nat} {all : List Nat} {cb : κ} (hpc : s.pc = .loop (hdl :: all))
    (hmem : hdl ∈ s.manager.timers) (hcb : s.manager.heap[hdl]? = some cb) :
    Inv ({ s with pc := .callback hdl all }.emit (.invoked hdl cb)) := by
  have hqueue : s.queue = hdl :: (all ++ s.manager.timeoutTimers) := by rw [queue, hpc]; rfl
  obtain ⟨hlt, hc, -⟩ := (h.timers hdl).mp hmem
  obtain ⟨hf, hi⟩ := h.queued hdl (hqueue ▸ List.mem_cons_self)
  have hdistinct := h.distinct
  rw [hqueue, List.nodup_cons] at hdistinct
  have hrun : ∀ x, ({ s with pc := .callback hdl all }.emit (.invoked hdl cb)).Running x ↔ x = hdl := by
    refine fun x => ⟨?_, fun hx => ⟨all, hx ▸ rfl⟩⟩
    rintro ⟨all', hall⟩
    cases hall
    rfl
  have hsettled : Settled (s.log ++ [.invoked hdl cb]) hdl :=
    Or.inr ⟨cb, List.mem_append_right _ (List.mem_singleton_self _)⟩
  have hnotSettled : ¬Settled s.log hdl := by
    rintro (hc' | ⟨cb', hi'⟩)
    · exact hc hc'
    · exact hi cb' hi'
  refine ⟨h.length, fun x cb' => ?_, fun x hk => ?_, h.nodup, fun x => ?_, fun x hx => ?_, fun x hf => ?_, hdistinct.2,
    fun x hq => ?_, fun x hf => ?_, fun _ x hf => ?_, respects_concat.mpr ⟨h.order, (h.added hdl cb).mpr hcb, hf, hnotSettled⟩⟩
  · simp only [mem_emit, reduceCtorEq, or_false]
    exact h.added x cb'
  · simp only [mem_emit, reduceCtorEq, or_false, TimerEvent.invoked.injEq] at hk
    rcases hk with hk | ⟨cb', hk | ⟨rfl, -⟩⟩ | hk
    · exact h.known x (Or.inl hk)
    · exact h.known x (Or.inr (Or.inl ⟨cb', hk⟩))
    · exact hlt
    · exact h.known x (Or.inr (Or.inr hk))
  · simp only [mem_emit, reduceCtorEq, or_false, TimerEvent.invoked.injEq, hrun]
    refine (h.timers x).trans (and_congr_right fun _ => and_congr_right fun _ => ?_)
    refine ⟨fun hold cb' hnew => ?_, fun hnew cb' hold => ?_⟩
    · rcases hnew with hnew | ⟨rfl, -⟩
      · obtain ⟨all', hall⟩ := rest_of_running (hold cb' hnew) hpc
        cases hall
      · rfl
    · have hx := hnew cb' (Or.inl hold)
      exact absurd (hx ▸ hold) (hi cb')
  · exact ⟨cb, mem_emit.mpr (Or.inr (by rw [(hrun x).mp hx]))⟩
  · simp only [mem_emit, reduceCtorEq, or_false] at hf
    exact h.fired x hf
  · simp only [mem_emit, reduceCtorEq, or_false, TimerEvent.invoked.injEq, not_or, not_and]
    obtain ⟨hfx, hix⟩ := h.queued x (hqueue ▸ List.mem_cons_of_mem _ hq)
    exact ⟨hfx, fun cb' => ⟨hix cb', fun hx => absurd (hx ▸ hq) hdistinct.1⟩⟩
  · simp only [mem_emit, reduceCtorEq, or_false] at hf
    rcases h.waiting x hf with hq | hs
    · rw [hqueue] at hq
      rcases List.mem_cons.mp hq with rfl | hq
      · exact Or.inr hsettled
      · exact Or.inl hq
    · exact Or.inr (settled_concat _ hs)
  · rcases h.current_concat (.invoked hdl cb) nofun (by rw [hpc]; exact nofun) hf with hmem | hs
    · rw [hpc] at hmem
      rcases List.mem_cons.mp hmem with rfl | hmem
      · exact Or.inr hsettled
      · exact Or.inl hmem
    · exact Or.inr hs

/-- The callback returns, and the timer is erased. -/
theorem Inv.erase (h : Inv s) {hdl : Nat} {all : List Nat} (hpc : s.pc = .callback hdl all) :
    Inv { s with manager := s.manager.erase hdl, pc := .loop all } := by
  have hqueue : ({ s with manager := s.manager.erase hdl, pc := .loop all } : TimerSystem κ).queue = s.queue := by
    show all ++ s.manager.timeoutTimers = s.pc.rest ++ s.manager.timeoutTimers
    rw [hpc, TickPc.rest]
  have hrun : ∀ x, s.Running x ↔ x = hdl := by
    refine fun x => ⟨fun hx => ?_, fun hx => ⟨all, hx ▸ hpc⟩⟩
    obtain ⟨all', hall⟩ := rest_of_running hx hpc
    cases hall
    rfl
  have hnone' : ∀ x, ¬({ s with manager := s.manager.erase hdl, pc := .loop all } : TimerSystem κ).Running x :=
    not_running_loop rfl
  obtain ⟨cb, hcb⟩ := h.running hdl ((hrun hdl).mpr rfl)
  refine { h with
    nodup := h.nodup.erase hdl
    timers := fun x => ?_
    running := fun x hx => absurd hx (hnone' x)
    distinct := hqueue ▸ h.distinct
    queued := fun x hq => h.queued x (hqueue ▸ hq)
    waiting := fun x hf => hqueue ▸ h.waiting x hf
    current := fun _ x hf => ?_ }
  · show x ∈ s.manager.timers.erase hdl ↔ _
    rw [h.nodup.mem_erase_iff, h.timers]
    constructor
    · rintro ⟨hne, hlt, hc, hi⟩
      exact ⟨hlt, hc, fun cb' hcb' => absurd ((hrun x).mp (hi cb' hcb')) hne⟩
    · rintro ⟨hlt, hc, hi⟩
      refine ⟨?_, hlt, hc, fun cb' hcb' => absurd (hi cb' hcb') (hnone' x)⟩
      rintro rfl
      exact hnone' x (hi cb hcb)
  · have hcurrent := h.current (by rw [hpc]; exact nofun) x hf
    rw [hpc] at hcurrent
    exact hcurrent

theorem Inv.tick (h : Inv s) : Inv s.tick := by
  unfold TimerSystem.tick
  split
  · rename_i hpc
    exact h.tickBegins hpc
  · rename_i hpc
    exact h.tickEnds hpc
  · rename_i hdl all hpc
    split
    · rename_i hlock
      refine h.skip hpc fun hmem => ?_
      rw [TimerManager.lock, if_pos hmem, List.getElem?_eq_getElem (h.lt_of_mem hmem)] at hlock
      cases hlock
    · rename_i cb hlock
      obtain ⟨hmem, hcb⟩ := TimerManager.lock_eq_some.mp hlock
      exact h.invoke hpc hmem hcb
  · rename_i timer all hpc
    exact h.erase hpc

/-! ### Steps -/

theorem Inv.step (h : Inv s) {a : Action κ} (hs : TimerSystem.step s a = .ok t) : Inv t := by
  cases a with
  | addTimer cb =>
    simp only [TimerSystem.step] at hs
    split at hs <;> cases hs
    exact h.addTimer cb
  | cancelTimer hdl =>
    simp only [TimerSystem.step] at hs
    split at hs
    · cases hs
    · split at hs <;> cases hs
      exact h.cancelTimer ‹_›
  | tick =>
    cases hs
    exact h.tick
  | expires hdl =>
    simp only [TimerSystem.step, TimerSystem.expires] at hs
    split at hs <;> cases hs
    rename_i hwait
    exact h.setWait .expired (by rw [hwait]; exact nofun)
  | handler hdl =>
    simp only [TimerSystem.step, TimerSystem.handler] at hs
    split at hs <;> cases hs
    · rename_i hwait
      exact h.cbEvent hwait
    · rename_i hwait
      exact h.setWait .over (by rw [hwait]; exact nofun)

/-! ### A `Tick` comes to its end -/

/-- The loop gets shorter with each handle, whether it locks or not. -/
theorem loop_ends (all : List Nat) (s : TimerSystem κ) (hpc : s.pc = .loop all) :
    ∃ n t, run TimerSystem.step s (List.replicate n .tick) = .ok t ∧ t.pc = .user := by
  induction all generalizing s with
  | nil =>
    refine ⟨1, s.tick, rfl, ?_⟩
    unfold TimerSystem.tick
    rw [hpc]
    rfl
  | cons hdl all ih =>
    cases hlock : s.manager.lock hdl with
    | none =>
      have hnext : s.tick.pc = .loop all := by
        unfold TimerSystem.tick
        rw [hpc]
        simp only [hlock]
      obtain ⟨n, t, hn, ht⟩ := ih s.tick hnext
      exact ⟨n + 1, t, hn, ht⟩
    | some cb =>
      have hnext : s.tick.tick.pc = .loop all := by
        have hcall : s.tick.pc = .callback hdl all := by
          unfold TimerSystem.tick
          rw [hpc]
          simp only [hlock]
          rfl
        generalize s.tick = u at hcall
        unfold TimerSystem.tick
        rw [hcall]
      obtain ⟨n, t, hn, ht⟩ := ih s.tick.tick hnext
      exact ⟨n + 1 + 1, t, hn, ht⟩

theorem tick_ends (s : TimerSystem κ) : ∃ n t, run TimerSystem.step s (List.replicate n .tick) = .ok t ∧ t.pc = .user := by
  cases hpc : s.pc with
  | user => exact ⟨0, s, rfl, hpc⟩
  | loop all => exact loop_ends all s hpc
  | callback timer all =>
    have hnext : s.tick.pc = .loop all := by
      unfold TimerSystem.tick
      rw [hpc]
    obtain ⟨n, t, hn, ht⟩ := loop_ends all s.tick hnext
    exact ⟨n + 1, t, hn, ht⟩

end

/-! ### Runs -/

structure Sound (s : TimerSystem κ) : Prop where
  order : Respects InOrder s.log
  canceled : ∀ hdl, .canceled hdl ∈ s.log → hdl ∉ s.manager.timers
  invoked : ∀ hdl cb, .invoked hdl cb ∈ s.log → ¬s.Running hdl → hdl ∉ s.manager.timers

theorem Inv.sound {s : TimerSystem κ} (h : Inv s) : Sound s where
  order := h.order
  canceled hdl hc hmem := ((h.timers hdl).mp hmem).2.1 hc
  invoked hdl cb hi hrun hmem := hrun (((h.timers hdl).mp hmem).2.2 cb hi)

/-- In whatever order timers are added and canceled, also in callbacks, `Tick` goes on and waits expire: a callback
    is invoked once at most, after its `CB_Event` and not after its cancellation; when a `Tick` ends, each timer
    whose `CB_Event` ran before it was invoked or canceled; a timer that was canceled or whose callback has
    returned is not in `m_timers`. If all callbacks return, `Tick` does. -/
theorem timers_sound {as : List (Action κ)} {s : TimerSystem κ} (h : run TimerSystem.step {} as = .ok s) :
    Sound s ∧ ∃ n t, run TimerSystem.step s (List.replicate n .tick) = .ok t ∧ t.pc = .user :=
  ⟨(run_invariant (fun hI _ hs => hI.step hs) inv_init (along_true _ _) h).sound, tick_ends s⟩

/-- Two timers expire, and the callback of the first cancels the second. -/
theorem timers_sound_two :
    let as := [.addTimer 5, .addTimer 6, .expires 0, .handler 0, .expires 1, .handler 1, .tick, .tick, .cancelTimer 1, .tick,
      .tick, .tick]
    let s : TimerSystem Nat :=
      { manager := { heap := [5, 6] }, waits := [.over, .over]
        log := [.added 0 5, .added 1 6, .fired 0, .fired 1, .tickBegins, .invoked 0 5, .canceled 1, .tickEnds] }
    run TimerSystem.step {} as = .ok s ∧
      Sound s ∧ ∃ n t, run TimerSystem.step s (List.replicate n .tick) = .ok t ∧ t.pc = .user :=
  have hrun : run TimerSystem.step {} [.addTimer 5, .addTimer 6, .expires 0, .handler 0, .expires 1, .handler 1, .tick, .tick,
      .cancelTimer 1, .tick, .tick, .tick] = .ok
        { manager := { heap := [5, 6] }, waits := [.over, .over]
          log := [.added 0 5, .added 1 6, .fired 0, .fired 1, .tickBegins, .invoked 0 5, .canceled 1, .tickEnds] } := rfl
  ⟨hrun, timers_sound hrun⟩

end Zylib.KNet.TimerSystem
