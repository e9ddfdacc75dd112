import Zylib.Theorems.KNet.Steps
import Zylib.Lib.Lists
import Mathlib.Data.List.GetD

/-! The invariant of the slots and their timers: each timer calls back the slot that holds its handle,
    the map has each key and each slot once, and a slot of the map whose timer is gone has timed out. -/

namespace Zylib.KNet
open Lists

namespace RPCManager

structure WellFormed (r : RPCManager) : Prop where
  live : ∀ t ∈ r.timerManager.timers, t < r.timerManager.heap.length
  timers : r.timerManager.timers.Nodup
  /-- a timer calls back the slot that holds its handle -/
  owner : ∀ t i, r.timerManager.heap[t]? = some i ↔ (r.slot i).timerHdl = some t
  timeoutCb : ∀ i t, (r.slot i).timerHdl = some t → (r.slot i).context.timeoutCb = true
  keys : (r.slots.map (·.1)).Nodup
  addrs : (r.slots.map (·.2)).Nodup
  slots_lt : ∀ p ∈ r.slots, p.2 < r.heap.length

variable {r r' : RPCManager} {key : Key} {s : ContextSlot} {i : Nat}

theorem SameSlots.slot_eq (h : SameSlots r r') (i : Nat) : r'.slot i = r.slot i := by
  unfold slot
  rw [h.heap]

theorem slot_of_ge (h : r.heap.length ≤ i) : r.slot i = default := by
  unfold slot
  rw [List.getD_eq_default _ _ h]

theorem lt_of_timerHdl {t : Nat} (h : (r.slot i).timerHdl = some t) : i < r.heap.length := by
  by_contra hlt
  rw [slot_of_ge (Nat.le_of_not_lt hlt)] at h
  cases h

theorem NewSlot.slot_lt (h : NewSlot r r' key s) (hi : i < r.heap.length) : r'.slot i = r.slot i := by
  unfold slot
  rw [h.heap, List.getD_append _ _ _ _ hi]

theorem NewSlot.slot_new (h : NewSlot r r' key s) : r'.slot r.heap.length = s := by
  unfold slot
  rw [h.heap, List.getD_append_right _ _ _ _ (Nat.le_refl _), Nat.sub_self, List.getD_cons_zero]

theorem NewSlot.slot_cases (h : NewSlot r r' key s) (hi : i < r'.heap.length) :
    i < r.heap.length ∧ r'.slot i = r.slot i ∨ i = r.heap.length ∧ r'.slot i = s := by
  rw [h.heap, List.length_append, List.length_singleton] at hi
  rcases Nat.lt_succ_iff_lt_or_eq.mp hi with hlt | rfl
  · exact Or.inl ⟨hlt, h.slot_lt hlt⟩
  · exact Or.inr ⟨rfl, h.slot_new⟩

theorem NewSlot.mem_slots (h : NewSlot r r' key s) {p : Key × Nat} (hp : p ∈ r'.slots) :
    p ∈ r.slots ∨ p = (key, r.heap.length) := by
  rcases h.slots with hslots | ⟨-, hslots⟩
  · rw [hslots] at hp
    exact Or.inl hp
  · rw [hslots, List.mem_append, List.mem_singleton] at hp
    exact hp

theorem NewSlot.mem_slots_of (h : NewSlot r r' key s) {p : Key × Nat} (hp : p ∈ r.slots) : p ∈ r'.slots := by
  rcases h.slots with hslots | ⟨-, hslots⟩
  · exact hslots ▸ hp
  · exact hslots ▸ List.mem_append_left _ hp

theorem WellFormed.same (hw : WellFormed r) (h : SameSlots r r') : WellFormed r' where
  live := by
    rw [h.timers, h.timerHeap]
    exact hw.live
  timers := h.timers ▸ hw.timers
  owner t i := by
    rw [h.timerHeap, h.slot_eq]
    exact hw.owner t i
  timeoutCb i t := by
    rw [h.slot_eq]
    exact hw.timeoutCb i t
  keys := h.slots ▸ hw.keys
  addrs := h.slots ▸ hw.addrs
  slots_lt := by
    rw [h.slots, h.heap]
    exact hw.slots_lt

theorem NewSlot.mem_timers (h : NewSlot r r' key s) {t : Nat} (ht : t ∈ r'.timerManager.timers) :
    t ∈ r.timerManager.timers ∨ t = r.timerManager.heap.length ∧ s.timerHdl = some t := by
  rcases h.timer with ⟨-, htm⟩ | ⟨hhdl, -, htm⟩
  · rw [htm] at ht
    exact Or.inl ht
  · rw [htm] at ht
    rcases List.mem_append.mp ht with ht | ht
    · exact Or.inl ht
    · obtain rfl := List.mem_singleton.mp ht
      exact Or.inr ⟨rfl, hhdl⟩

theorem NewSlot.mem_timers_of (h : NewSlot r r' key s) {t : Nat} (ht : t ∈ r.timerManager.timers) :
    t ∈ r'.timerManager.timers := by
  rcases h.timer with ⟨-, htm⟩ | ⟨-, -, htm⟩
  · rw [htm]
    exact ht
  · rw [htm]
    exact List.mem_append_left _ ht

theorem NewSlot.timerHeap (h : NewSlot r r' key s) (t i : Nat) :
    r'.timerManager.heap[t]? = some i ↔ r.timerManager.heap[t]? = some i ∨ i = r.heap.length ∧ s.timerHdl = some t := by
  rcases h.timer with ⟨hhdl, htm⟩ | ⟨hhdl, -, htm⟩
  · rw [htm, hhdl]
    simp
  · rw [htm, hhdl]
    show (r.timerManager.heap ++ [r.heap.length])[t]? = some i ↔ _
    rcases Nat.lt_trichotomy t r.timerManager.heap.length with ht | rfl | ht
    · rw [List.getElem?_append_left ht]
      simp [Nat.ne_of_gt ht]
    · rw [List.getElem?_concat_length]
      simp [eq_comm]
    · rw [List.getElem?_eq_none (by simp; omega), List.getElem?_eq_none (Nat.le_of_lt ht)]
      simp [Nat.ne_of_lt ht]

theorem NewSlot.timerHdl (h : NewSlot r r' key s) {t : Nat} (hi : (r'.slot i).timerHdl = some t) :
    (r.slot i).timerHdl = some t ∨ i = r.heap.length ∧ t = r.timerManager.heap.length ∧ t ∈ r'.timerManager.timers := by
  rcases h.slot_cases (lt_of_timerHdl hi) with ⟨-, heq⟩ | ⟨rfl, heq⟩
  · exact Or.inl (heq ▸ hi)
  · rw [heq] at hi
    rcases h.timer with ⟨hnone, -⟩ | ⟨hhdl, -, htm⟩
    · rw [hnone] at hi
      cases hi
    · obtain rfl := Option.some.inj (hhdl.symm.trans hi)
      exact Or.inr ⟨rfl, rfl, htm ▸ List.mem_append_right _ (List.mem_singleton_self _)⟩

theorem WellFormed.freshTimers (hw : WellFormed r) (h : NewSlot r r' key s) :
    r'.timerManager.timers.Nodup ∧ ∀ t ∈ r'.timerManager.timers, t < r'.timerManager.heap.length := by
  rcases h.timer with ⟨-, htm⟩ | ⟨-, -, htm⟩ <;> rw [htm]
  · exact ⟨hw.timers, hw.live⟩
  · show (r.timerManager.timers ++ [r.timerManager.heap.length]).Nodup ∧
      ∀ t ∈ r.timerManager.timers ++ [r.timerManager.heap.length], t < (r.timerManager.heap ++ [r.heap.length]).length
    rw [List.length_append, List.length_singleton]
    exact fresh_of_perm (List.perm_append_singleton _ _) hw.timers hw.live

theorem WellFormed.freshAddrs (hw : WellFormed r) (h : NewSlot r r' key s) :
    (r'.slots.map (·.2)).Nodup ∧ ∀ n ∈ r'.slots.map (·.2), n < r'.heap.length := by
  have hlt : ∀ n ∈ r.slots.map (·.2), n < r.heap.length := List.forall_mem_map.mpr hw.slots_lt
  rw [h.heap, List.length_append, List.length_singleton]
  rcases h.slots with hslots | ⟨-, hslots⟩ <;> rw [hslots]
  · exact ⟨hw.addrs, fun n hn => Nat.lt_succ_of_lt (hlt n hn)⟩
  · rw [List.map_append]
    exact fresh_of_perm (List.perm_append_singleton _ _) hw.addrs hlt

theorem WellFormed.newSlot (hw : WellFormed r) (h : NewSlot r r' key s) : WellFormed r' where
  live := (hw.freshTimers h).2
  timers := (hw.freshTimers h).1
  owner t i := by
    rw [h.timerHeap, hw.owner]
    constructor
    · rintro (hi | ⟨rfl, ht⟩)
      · rw [h.slot_lt (lt_of_timerHdl hi)]
        exact hi
      · rw [h.slot_new]
        exact ht
    · intro hi
      rcases h.slot_cases (lt_of_timerHdl hi) with ⟨-, heq⟩ | ⟨rfl, heq⟩
      · exact Or.inl (heq ▸ hi)
      · exact Or.inr ⟨rfl, heq ▸ hi⟩
  timeoutCb i t hi := by
    rcases h.slot_cases (lt_of_timerHdl hi) with ⟨-, heq⟩ | ⟨-, heq⟩
    · rw [heq] at hi ⊢
      exact hw.timeoutCb i t hi
    · rw [heq] at hi ⊢
      rcases h.timer with ⟨hnone, -⟩ | ⟨-, hcb, -⟩
      · rw [hnone] at hi
        cases hi
      · exact hcb
  keys := by
    rcases h.slots with hslots | ⟨hkey, hslots⟩
    · exact hslots ▸ hw.keys
    · rw [hslots, List.map_append]
      refine List.Nodup.append hw.keys (List.nodup_singleton _) fun k hk hk' => ?_
      obtain ⟨p, hp, rfl⟩ := List.mem_map.mp hk
      exact hkey p hp (List.mem_singleton.mp hk')
  addrs := (hw.freshAddrs h).1
  slots_lt := List.forall_mem_map.mp (hw.freshAddrs h).2

theorem WellFormed.sublist (hw : WellFormed r) {timerManager : TimerManager Nat} {slots : List (Key × Nat)}
    (ht : timerManager.timers.Sublist r.timerManager.timers) (hheap : timerManager.heap = r.timerManager.heap)
    (hs : slots.Sublist r.slots) : WellFormed { r with timerManager, slots } where
  live t h := by
    rw [show ({ r with timerManager, slots } : RPCManager).timerManager = timerManager from rfl, hheap]
    exact hw.live t (ht.subset h)
  timers := hw.timers.sublist ht
  owner t i := by
    rw [show ({ r with timerManager, slots } : RPCManager).timerManager = timerManager from rfl, hheap]
    exact hw.owner t i
  timeoutCb := hw.timeoutCb
  keys := hw.keys.sublist (hs.map _)
  addrs := hw.addrs.sublist (hs.map _)
  slots_lt p h := hw.slots_lt p (hs.subset h)

theorem WellFormed.erase (hw : WellFormed r) (timer : Nat) :
    WellFormed { r with timerManager := r.timerManager.erase timer } :=
  hw.sublist (List.erase_sublist) rfl (List.Sublist.refl _)

theorem WellFormed.mem_erase (hw : WellFormed r) {t timer : Nat} :
    t ∈ (r.timerManager.erase timer).timers ↔ t ≠ timer ∧ t ∈ r.timerManager.timers :=
  hw.timers.mem_erase_iff

theorem WellFormed.lock (hw : WellFormed r) {t : Nat} (ht : t ∈ r.timerManager.timers) (hi : (r.slot i).timerHdl = some t) :
    r.timerManager.lock t = some i := TimerManager.lock_eq_some.mpr ⟨ht, (hw.owner t i).mpr hi⟩

/-- After a success callback the timer of the slot is not set, and the other timers are as before. -/
theorem WellFormed.mem_finish (hw : WellFormed r) {t : Nat} :
    t ∈ (r.finish key i).timerManager.timers ↔ t ∈ r.timerManager.timers ∧ (r.slot i).timerHdl ≠ some t := by
  unfold finish
  cases hhdl : (r.slot i).timerHdl with
  | none => simp
  | some hdl =>
    by_cases hexp : hdl ∈ r.timerManager.timers
    · have hlock := hw.lock hexp hhdl
      simp only [TimerManager.expired, hexp, not_true, decide_false, Bool.not_false, if_true, TimerManager.cancelTimer, hlock]
      rw [hw.mem_erase, and_comm, ne_comm, Ne, Ne, Option.some.injEq]
    · simp only [TimerManager.expired, hexp, not_false_iff, decide_true, Bool.not_true, if_false, Bool.false_eq_true]
      exact ⟨fun ht => ⟨ht, fun heq => hexp (Option.some.inj heq ▸ ht)⟩, And.left⟩

theorem WellFormed.finish (hw : WellFormed r) (key : Key) (i : Nat) : WellFormed (r.finish key i) := by
  unfold RPCManager.finish
  refine hw.sublist ?_ ?_ List.filter_sublist
  · split
    · exact List.Sublist.refl _
    · split
      · unfold TimerManager.cancelTimer
        split
        · exact List.Sublist.refl _
        · exact List.erase_sublist
      · exact List.Sublist.refl _
  · split
    · rfl
    · split
      · exact TimerManager.heap_cancelTimer _
      · rfl

theorem WellFormed.eq_of_key (hw : WellFormed r) {p q : Key × Nat} (hp : p ∈ r.slots) (hq : q ∈ r.slots)
    (h : p.1 = q.1) : p = q := List.inj_on_of_nodup_map hw.keys hp hq h

theorem WellFormed.eq_of_addr (hw : WellFormed r) {p q : Key × Nat} (hp : p ∈ r.slots) (hq : q ∈ r.slots)
    (h : p.2 = q.2) : p = q := List.inj_on_of_nodup_map hw.addrs hp hq h

theorem find_eq_some (hw : WellFormed r) : r.find key = some i ↔ (key, i) ∈ r.slots := by
  unfold find
  constructor
  · intro h
    obtain ⟨p, hp, rfl⟩ := Option.map_eq_some_iff.mp h
    have hkey : p.1 = key := by simpa using List.find?_some hp
    rw [← hkey]
    exact List.mem_of_find?_eq_some hp
  · intro h
    obtain ⟨p, hp⟩ := Option.isSome_iff_exists.mp
      (List.find?_isSome.mpr ⟨(key, i), h, beq_self_eq_true key⟩ : (r.slots.find? (·.1 == key)).isSome)
    have hkey : p.1 = key := by simpa using List.find?_some hp
    obtain rfl := hw.eq_of_key (List.mem_of_find?_eq_some hp) h hkey
    rw [hp]
    rfl

theorem find_eq_none : r.find key = none ↔ ∀ p ∈ r.slots, p.1 ≠ key := by
  unfold find
  rw [Option.map_eq_none_iff, List.find?_eq_none]
  exact forall₂_congr fun p _ => not_congr beq_iff_eq

end RPCManager

def Event.slot : Event → Nat
  | .found slot _ | .success slot _ | .timeout slot => slot

namespace UniformNetwork
open RPCManager

variable {w w' : UniformNetwork}

/-! ### Slots, timers and callbacks -/

/-- What holds of the callback that runs: its timer is set and has been noted, or its slot is in the map. -/
def CallingOk (w : UniformNetwork) : Calling → Prop
  | .none => True
  | .timeout t => t ∈ w.rpc.timerManager.timers ∧ ∀ i, (w.rpc.slot i).timerHdl = some t → .timeout i ∈ w.log
  | .success key i => (key, i) ∈ w.rpc.slots

structure Inv (w : UniformNetwork) : Prop where
  rpc : w.rpc.WellFormed
  log_lt : ∀ e ∈ w.log, e.slot < w.rpc.heap.length
  calling : w.CallingOk w.pc.calling
  /-- a slot of the map whose timer is gone has timed out -/
  gone : ∀ p ∈ w.rpc.slots, ∀ t, (w.rpc.slot p.2).timerHdl = some t → t ∉ w.rpc.timerManager.timers → .timeout p.2 ∈ w.log

theorem inv_init (sid : ServiceId) (cbs : List MsgId) : Inv (init sid cbs) where
  rpc :=
    { live := nofun, timers := .nil, owner := fun t i => by simp [init, slot]; nofun, timeoutCb := nofun, keys := .nil,
      addrs := .nil, slots_lt := nofun }
  log_lt := nofun
  calling := trivial
  gone := nofun

theorem Inv.newSlot (hi : Inv w) {key : Key} {s : ContextSlot} (h : NewSlot w.rpc w'.rpc key s)
    (hpc : w'.pc.calling = w.pc.calling) (hlog : w'.log = w.log) : Inv w' where
  rpc := hi.rpc.newSlot h
  log_lt e he := by
    rw [hlog] at he
    rw [h.heap, List.length_append]
    exact Nat.lt_add_right _ (hi.log_lt e he)
  calling := by
    have hc := hi.calling
    rw [hpc]
    cases hcall : w.pc.calling with
    | none => trivial
    | timeout t =>
      rw [hcall] at hc
      refine ⟨h.mem_timers_of hc.1, fun i ht => ?_⟩
      rcases h.timerHdl ht with ht | ⟨-, rfl, -⟩
      · exact hlog ▸ hc.2 i ht
      · exact absurd (hi.rpc.live _ hc.1) (Nat.lt_irrefl _)
    | success key i =>
      rw [hcall] at hc
      exact h.mem_slots_of hc
  gone p hp t ht hgone := by
    rw [hlog]
    rcases h.timerHdl ht with ht | ⟨-, -, hmem⟩
    · rcases h.mem_slots hp with hp | rfl
      · exact hi.gone p hp t ht fun hmem => hgone (h.mem_timers_of hmem)
      · exact absurd (lt_of_timerHdl ht) (Nat.lt_irrefl _)
    · exact absurd hmem hgone

theorem Inv.same (hi : Inv w) (h : SameSlots w.rpc w'.rpc) (hpc : w'.pc.calling = w.pc.calling) (hlog : w'.log = w.log) :
    Inv w' where
  rpc := hi.rpc.same h
  log_lt := by
    rw [hlog, h.heap]
    exact hi.log_lt
  calling := by
    have hc := hi.calling
    rw [hpc]
    cases hcall : w.pc.calling with
    | none => trivial
    | timeout t =>
      rw [hcall] at hc
      refine ⟨h.timers ▸ hc.1, fun i ht => ?_⟩
      rw [h.slot_eq] at ht
      exact hlog ▸ hc.2 i ht
    | success key i =>
      rw [hcall] at hc
      rw [CallingOk, h.slots]
      exact hc
  gone p hp t ht hgone := by
    rw [h.slots] at hp
    rw [h.slot_eq] at ht
    rw [h.timers] at hgone
    exact hlog ▸ hi.gone p hp t ht hgone

/-- The timer that locks is that of the slot it calls back, which is set to time out. -/
theorem Inv.cbTimeout (hi : Inv w) {timer i : Nat} (h : w.rpc.timerManager.lock timer = some i) :
    (w.rpc.slot i).timerHdl = some timer ∧ w.cbTimeout i = [.timeout i] := by
  have hhdl := (hi.rpc.owner timer i).mp (TimerManager.lock_eq_some.mp h).2
  refine ⟨hhdl, ?_⟩
  unfold UniformNetwork.cbTimeout
  rw [if_pos (hi.rpc.timeoutCb i timer hhdl)]

theorem Inv.timeout (hi : Inv w) {timer i : Nat} (hlock : w.rpc.timerManager.lock timer = some i) (hrpc : w'.rpc = w.rpc)
    (hpc : w'.pc.calling = .timeout timer) (hlog : w'.log = w.log ++ w.cbTimeout i) : Inv w' := by
  obtain ⟨hhdl, hcb⟩ := hi.cbTimeout hlock
  rw [hcb] at hlog
  exact
    { rpc := hrpc ▸ hi.rpc
      log_lt := by
        intro e he
        rw [hrpc]
        rw [hlog] at he
        rcases List.mem_append.mp he with he | he
        · exact hi.log_lt e he
        · obtain rfl := List.mem_singleton.mp he
          exact lt_of_timerHdl hhdl
      calling := by
        rw [hpc]
        refine ⟨hrpc ▸ (TimerManager.lock_eq_some.mp hlock).1, fun j hj => ?_⟩
        rw [hrpc, ← hi.rpc.owner, (TimerManager.lock_eq_some.mp hlock).2] at hj
        cases hj
        exact hlog ▸ List.mem_append_right _ (List.mem_singleton_self _)
      gone := by
        rw [hrpc, hlog]
        exact fun p hp t ht hgone => List.mem_append_left _ (hi.gone p hp t ht hgone) }

theorem Inv.erase (hi : Inv w) {timer : Nat} (hcalling : w.pc.calling = .timeout timer)
    (hrpc : w'.rpc = { w.rpc with timerManager := w.rpc.timerManager.erase timer }) (hpc : w'.pc.calling = .none)
    (hlog : w'.log = w.log) : Inv w' where
  rpc := hrpc ▸ hi.rpc.erase timer
  log_lt := by
    rw [hrpc, hlog]
    exact hi.log_lt
  calling := by
    rw [hpc]
    trivial
  gone p hp t ht hgone := by
    have hc := hi.calling
    rw [hcalling] at hc
    rw [hrpc] at hp ht hgone
    rw [hlog]
    by_cases hmem : t ∈ w.rpc.timerManager.timers
    · obtain rfl : t = timer := not_not.mp fun hne => hgone (hi.rpc.mem_erase.mpr ⟨hne, hmem⟩)
      exact hc.2 p.2 ht
    · exact hi.gone p hp t ht hmem

theorem Inv.success (hi : Inv w) {msg : ReceivedMsg} {o : Origin} {i : Nat} (hfind : w.rpc.find msg.key = some i)
    (hrpc : w'.rpc = w.rpc) (hpc : w'.pc.calling = .success msg.key i)
    (hlog : w'.log = w.log ++ .found i o :: w.cbSuccess i o) : Inv w' where
  rpc := hrpc ▸ hi.rpc
  log_lt e he := by
    rw [hrpc]
    rw [hlog] at he
    have hlt := hi.rpc.slots_lt _ ((find_eq_some hi.rpc).mp hfind)
    rcases List.mem_append.mp he with he | he
    · exact hi.log_lt e he
    rcases List.mem_cons.mp he with rfl | he
    · exact hlt
    · unfold cbSuccess at he
      split at he
      · obtain rfl := List.mem_singleton.mp he
        exact hlt
      · cases he
  calling := by
    rw [hpc, CallingOk, hrpc]
    exact (find_eq_some hi.rpc).mp hfind
  gone := by
    rw [hrpc, hlog]
    exact fun p hp t ht hgone => List.mem_append_left _ (hi.gone p hp t ht hgone)

theorem Inv.mem_finish (hi : Inv w) {key : Key} {i : Nat} (hcalling : w.pc.calling = .success key i) {p : Key × Nat}
    (hp : p ∈ (w.rpc.finish key i).slots) : p ∈ w.rpc.slots ∧ p.1 ≠ key ∧ p.2 ≠ i := by
  have hc := hi.calling
  rw [hcalling] at hc
  obtain ⟨hmem, hkey⟩ := List.mem_filter.mp hp
  have hkey : p.1 ≠ key := bne_iff_ne.mp hkey
  exact ⟨hmem, hkey, fun haddr => hkey (congrArg Prod.fst (hi.rpc.eq_of_addr hmem hc haddr))⟩

theorem Inv.finish (hi : Inv w) {key : Key} {i : Nat} (hcalling : w.pc.calling = .success key i)
    (hrpc : w'.rpc = w.rpc.finish key i) (hpc : w'.pc.calling = .none) (hlog : w'.log = w.log) : Inv w' where
  rpc := hrpc ▸ hi.rpc.finish key i
  log_lt := by
    rw [hrpc, hlog]
    exact hi.log_lt
  calling := by
    rw [hpc]
    trivial
  gone p hp t ht hgone := by
    rw [hrpc] at hp ht hgone
    rw [hlog]
    obtain ⟨hmem, -, haddr⟩ := hi.mem_finish hcalling hp
    refine hi.gone p hmem t ht fun hset => hgone (hi.rpc.mem_finish.mpr ⟨hset, fun hi' => haddr ?_⟩)
    -- a timer calls back one slot
    have h₁ := (hi.rpc.owner t p.2).mpr ht
    rw [(hi.rpc.owner t i).mpr hi'] at h₁
    exact (Option.some.inj h₁).symm

theorem Inv.change (hi : Inv w) {a : Action} (h : Change w a w') : Inv w' := by
  cases h with
  | same hs hpc hlog => exact hi.same hs hpc hlog
  | newSlot key s hs hpc hlog => exact hi.newSlot hs hpc hlog
  | timeout timer slot calling lock rpc pc log => exact hi.timeout lock rpc pc log
  | erase timer calling rpc pc log => exact hi.erase calling rpc pc log
  | success msg o temp slot action msgs find rpc pc log => exact hi.success find rpc pc log
  | finish key slot calling rpc pc log => exact hi.finish calling rpc pc log

end UniformNetwork

end Zylib.KNet
