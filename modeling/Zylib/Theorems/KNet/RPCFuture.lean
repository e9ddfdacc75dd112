import Zylib.KNet.RPCFuture
import Zylib.Lib.Lists
import Mathlib.Logic.Equiv.Basic

/-! Each request of the user results in one call of `UniformNetwork::RPC`, with what was last set on it, as long as no
    move leaves a `m_pkg` that is still to be sent behind, or a launched flag at a future that is used again. -/

namespace Zylib.KNet

namespace Futures
open Run Lists RPCFuture

variable {C : Type}

/-- Every object is destroyed. -/
def AllDestroyed (s : Futures C) : Prop := ∀ x ∈ s.objects, x = none

instance (s : Futures C) : Decidable s.AllDestroyed :=
  decidable_of_iff (∀ x ∈ s.objects, x.isNone = true) (by simp [AllDestroyed])

/-- The calls that the requests are to result in: one for each on which `RPC` was called. -/
def requested (s : Futures C) : List (RPCCall C) := s.requests.filterMap Request.call?

/-- `RPC` is not called on a future that has the launched flag of a request that was moved away. A move constructor is
    given a future without a `m_pkg`, or one that is launched; a move assignment two futures that are launched, or whose
    `m_pkg` are equal. -/
def Carried (s : Futures C) : Action C → Prop
  | .rpc o _ _ _ =>
    match s.object o with
    | .ok x => x.future.launched = true → (s.requests[x.request]?).any (·.launched) = true
    | .error _ => True
  | .moveConstruct rhs =>
    match s.object rhs with
    | .ok x => x.future.launched = true ∨ x.future.pkg = none
    | .error _ => True
  | .moveAssign o rhs =>
    match s.object o, s.object rhs with
    | .ok x, .ok y =>
      o = rhs ∨ (x.future.launched = true ∧ y.future.launched = true) ∨ x.future.pkg = y.future.pkg
    | _, _ => True
  | _ => True

instance (s : Futures C) : DecidablePred s.Carried := by
  intro a
  unfold Carried
  split <;> try infer_instance
  all_goals split <;> infer_instance

/-- A future that is not launched is as its request; one that is launched has nothing left to send. -/
structure Agree (f : RPCFuture C) (r : Request C) : Prop where
  pending : f.launched = false → r = ⟨f.network, f.pkg, f.ctx, false⟩
  done : f.launched = true → r.launched = true ∨ r.pkg = none

/-- The call of a request that is launched. -/
def sent? (r : Request C) : Option (RPCCall C) := if r.launched then r.call? else none

structure Inv (s : Futures C) : Prop where
  held : ∀ {o : Nat} {x : FutureObject C}, s.objects[o]? = some (some x) →
    ∃ r, s.requests[x.request]? = some r ∧ Agree x.future r
  inj : ∀ {o p : Nat} {x y : FutureObject C}, s.objects[o]? = some (some x) → s.objects[p]? = some (some y) →
    x.request = y.request → o = p
  pending : ∀ {i : Nat} {r : Request C}, s.requests[i]? = some r → r.launched = false → r.pkg ≠ none →
    ∃ (o : Nat) (x : FutureObject C), s.objects[o]? = some (some x) ∧ x.request = i
  calls : s.calls.Perm (s.requests.filterMap sent?)

variable {s t : Futures C} {o : Nat} {x y : FutureObject C} {r : Request C}

theorem inv_init : Inv ({} : Futures C) where
  held := fun h => (by cases h)
  inj := fun h => (by cases h)
  pending := fun h => (by cases h)
  calls := .nil

theorem getElem?_of_object (h : s.object o = .ok x) : s.objects[o]? = some (some x) := by
  unfold object at h
  split at h
  · cases h
    assumption
  · cases h

/-! ### Requests -/

theorem sent?_set {g : Request C → Request C} (hg : (g r).launched = r.launched) : sent? (r.set g) = sent? r := by
  unfold Request.set
  split
  · rfl
  · rename_i hr
    rw [sent?, sent?, hg, if_neg hr, if_neg hr]

theorem sent?_launch_of_pkg {p : Pkg} (hr : r = ⟨r.network, some p, r.ctx, false⟩) :
    sent? r = none ∧ sent? r.launch = some ⟨r.network, p, r.ctx⟩ := by
  rw [hr]
  exact ⟨rfl, rfl⟩

theorem sent?_launch_of_done (h : r.launched = true ∨ r.pkg = none) : r.launch = r := by
  obtain ⟨network, pkg, ctx, launched⟩ := r
  rcases h with rfl | rfl <;> simp [Request.launch]

theorem done_launch (r : Request C) : r.launch.launched = true ∨ r.launch.pkg = none := by
  obtain ⟨network, pkg, ctx, launched⟩ := r
  cases pkg <;> simp [Request.launch]

/-! ### Futures -/

theorem agree_new (network : Nat) : Agree (C := C) { network } { network } where
  pending := fun _ => rfl
  done := fun h => (by cases h)

/-- A call that sets something on a future and on its request, which is not launched if the future is not. -/
theorem Agree.set {f f' : RPCFuture C} (h : Agree f r) {g : Request C → Request C} (hf : f'.launched = f.launched)
    (hpending : g ⟨f.network, f.pkg, f.ctx, false⟩ = ⟨f'.network, f'.pkg, f'.ctx, false⟩)
    (hdone : f.launched = true → r.launched = true ∨ (g r).pkg = r.pkg) : Agree f' (r.set g) where
  pending := fun hf' => by
    rw [h.pending (hf ▸ hf')]
    exact hpending
  done := fun hf' => by
    unfold Request.set
    split
    · exact .inl ‹_›
    · rename_i hr
      have hlaunched := hf ▸ hf'
      rw [(hdone hlaunched).resolve_left hr]
      exact .inr ((h.done hlaunched).resolve_left hr)

/-- What `Launch()` does to a future and to its request. -/
theorem Agree.launch {f : RPCFuture C} (h : Agree f r) :
    Agree f.launch.1 r.launch ∧
      (f.launch.2 = none ∧ sent? r.launch = sent? r ∨ sent? r = none ∧ sent? r.launch = f.launch.2) := by
  unfold RPCFuture.launch
  split
  · rename_i hf
    rw [sent?_launch_of_done (h.done hf)]
    exact ⟨h, .inl ⟨rfl, rfl⟩⟩
  · rename_i hf
    have hr := h.pending (Bool.eq_false_iff.mpr hf)
    split
    · rename_i hpkg
      rw [sent?_launch_of_done (.inr (by rw [hr]; exact hpkg))]
      exact ⟨h, .inl ⟨rfl, rfl⟩⟩
    · rename_i p hpkg
      subst hr
      refine ⟨⟨fun hlaunched => (by cases hlaunched), fun _ => done_launch _⟩, .inr ?_⟩
      exact sent?_launch_of_pkg (by rw [hpkg])

/-! ### Objects -/

/-- One object is changed or destroyed, its request changed and perhaps sent. -/
theorem Inv.replace (hI : Inv s) (hx : s.objects[o]? = some (some x)) (hr : s.requests[x.request]? = some r)
    {y : Option (FutureObject C)} {q : Request C} {c : Option (RPCCall C)}
    (hy : ∀ z, y = some z → z.request = x.request ∧ Agree z.future q)
    (hnone : y = none → q.launched = true ∨ q.pkg = none)
    (hc : c = none ∧ sent? q = sent? r ∨ sent? r = none ∧ sent? q = c) :
    Inv { objects := s.objects.set o y, calls := s.calls ++ c.toList, requests := s.requests.set x.request q } where
  held := by
    intro p z hz
    rcases (getElem?_set_iff hx).mp hz with ⟨rfl, hyz⟩ | ⟨hne, hz⟩
    · obtain ⟨hreq, hagree⟩ := hy z hyz
      exact ⟨q, (getElem?_set_iff hr).mpr (.inl ⟨hreq.symm, rfl⟩), hagree⟩
    · obtain ⟨q, hq, hagree⟩ := hI.held hz
      exact ⟨q, (getElem?_set_iff hr).mpr (.inr ⟨fun heq => hne (hI.inj hx hz heq), hq⟩), hagree⟩
  inj := by
    intro p q z w hz hw heq
    rcases (getElem?_set_iff hx).mp hz with ⟨rfl, hyz⟩ | ⟨hne, hz⟩ <;>
      rcases (getElem?_set_iff hx).mp hw with ⟨rfl, hyw⟩ | ⟨hne', hw⟩
    · rfl
    · exact absurd (hI.inj hx hw ((hy z hyz).1.symm.trans heq)) hne'
    · exact absurd (hI.inj hx hz ((hy w hyw).1.symm.trans heq.symm)) hne
    · exact hI.inj hz hw heq
  pending := by
    intro i q hq hlaunched hpkg
    rcases (getElem?_set_iff hr).mp hq with ⟨rfl, rfl⟩ | ⟨hne, hq⟩
    · cases hyz : y with
      | none => exact ((hnone hyz).elim (by simp [hlaunched]) hpkg).elim
      | some z => exact ⟨o, z, (getElem?_set_iff hx).mpr (.inl ⟨rfl, rfl⟩), (hy z hyz).1⟩
    · obtain ⟨p, z, hz, rfl⟩ := hI.pending hq hlaunched hpkg
      refine ⟨p, z, (getElem?_set_iff hx).mpr (.inr ⟨fun heq => hne ?_, hz⟩), rfl⟩
      subst heq
      cases hx.symm.trans hz
      rfl
  calls := by
    obtain ⟨rest, hold, hnew⟩ := perm_of_set hr q
    have hcalls := hI.calls.trans (hold.filterMap sent?)
    refine .trans ?_ (hnew.filterMap sent?).symm
    rw [List.filterMap_cons] at hcalls ⊢
    rcases hc with ⟨rfl, hsent⟩ | ⟨hsent, hsent'⟩
    · rw [hsent, Option.toList_none, List.append_nil]
      exact hcalls
    · rw [hsent] at hcalls
      rw [hsent']
      cases c with
      | none => rwa [Option.toList_none, List.append_nil]
      | some c => exact (List.perm_append_singleton c s.calls).trans (hcalls.cons c)

theorem modify_eq_set {l : List (Request C)} {i : Nat} (hr : l[i]? = some r) (g : Request C → Request C) :
    l.modify i g = l.set i (g r) := by
  rw [List.modify_eq_set_getElem?, hr]
  rfl

theorem inv_update (hI : Inv s) (hx : s.object o = .ok x) {f : RPCFuture C} {g : Request C → Request C}
    (hf : f.launched = x.future.launched) (hg : ∀ r, (g r).launched = r.launched)
    (hpending : g ⟨x.future.network, x.future.pkg, x.future.ctx, false⟩ = ⟨f.network, f.pkg, f.ctx, false⟩)
    (hdone : ∀ r, s.requests[x.request]? = some r → x.future.launched = true → r.launched = true ∨ (g r).pkg = r.pkg) :
    Inv (s.update o x f (·.set g)) := by
  have hx := getElem?_of_object hx
  obtain ⟨r, hr, hagree⟩ := hI.held hx
  have := hI.replace hx hr (y := some { x with future := f }) (q := r.set g) (c := none)
    (fun z hz => by cases hz; exact ⟨rfl, hagree.set hf hpending (hdone r hr)⟩) (fun h => (by cases h))
    (.inl ⟨rfl, sent?_set (hg r)⟩)
  rw [update, modify_eq_set hr]
  rwa [Option.toList_none, List.append_nil] at this

theorem inv_launched (hI : Inv s) (hx : s.object o = .ok x) : Inv (s.launched o x) := by
  have hx := getElem?_of_object hx
  obtain ⟨r, hr, hagree⟩ := hI.held hx
  rw [launched, update, modify_eq_set hr]
  exact hI.replace hx hr (fun z hz => by cases hz; exact ⟨rfl, hagree.launch.1⟩) (fun h => (by cases h)) hagree.launch.2

theorem inv_destroyed (hI : Inv s) (hx : s.object o = .ok x) : Inv (s.destroyed o x) := by
  have hx := getElem?_of_object hx
  obtain ⟨r, hr, hagree⟩ := hI.held hx
  rw [destroyed, launched, update, modify_eq_set hr, List.set_set]
  exact hI.replace hx hr (fun z hz => (by cases hz)) (fun _ => done_launch r) hagree.launch.2

/-- A new object, with a new request. -/
theorem Inv.concat (hI : Inv s) (network : Nat) :
    Inv { s with
      objects := s.objects ++ [some ⟨{ network }, s.requests.length⟩], requests := s.requests ++ [{ network }] } where
  held := by
    intro p z hz
    rcases getElem?_concat_iff.mp hz with hz | ⟨-, hz⟩
    · obtain ⟨r, hr, hagree⟩ := hI.held hz
      exact ⟨r, getElem?_concat_iff.mpr (.inl hr), hagree⟩
    · cases hz
      exact ⟨_, List.getElem?_concat_length, agree_new network⟩
  inj := by
    have hne : ∀ {p : Nat} {z : FutureObject C}, s.objects[p]? = some (some z) → z.request ≠ s.requests.length := by
      intro p z hz
      obtain ⟨_, hr, -⟩ := hI.held hz
      exact Nat.ne_of_lt (List.getElem?_eq_some_iff.mp hr).1
    intro p q z w hz hw heq
    rcases getElem?_concat_iff.mp hz with hz | ⟨hp, hz⟩ <;> rcases getElem?_concat_iff.mp hw with hw | ⟨hq, hw⟩
    · exact hI.inj hz hw heq
    · cases hw
      exact absurd heq (hne hz)
    · cases hz
      exact absurd heq.symm (hne hw)
    · exact hp.trans hq.symm
  pending := by
    intro i r hr hlaunched hpkg
    rcases getElem?_concat_iff.mp hr with hr | ⟨-, rfl⟩
    · obtain ⟨p, z, hz, hi⟩ := hI.pending hr hlaunched hpkg
      exact ⟨p, z, getElem?_concat_iff.mpr (.inl hz), hi⟩
    · exact absurd rfl hpkg
  calls := by
    rw [List.filterMap_append]
    exact (List.append_nil _).symm ▸ hI.calls

/-- Two objects exchange their requests. -/
theorem Inv.exchange (hI : Inv s) {p : Nat} (hop : o ≠ p) (hx : s.objects[o]? = some (some x))
    (hy : s.objects[p]? = some (some y)) {f g : RPCFuture C}
    (hf : ∀ r, s.requests[y.request]? = some r → Agree f r) (hg : ∀ r, s.requests[x.request]? = some r → Agree g r) :
    Inv { s with objects := (s.objects.set o (some ⟨f, y.request⟩)).set p (some ⟨g, x.request⟩) } := by
  have hy' : (s.objects.set o (some ⟨f, y.request⟩))[p]? = some (some y) := (getElem?_set_iff hx).mpr (.inr ⟨hop, hy⟩)
  have hget : ∀ {j : Nat} {z : FutureObject C},
      ((s.objects.set o (some ⟨f, y.request⟩)).set p (some ⟨g, x.request⟩))[j]? = some (some z) ↔
        p = j ∧ z = ⟨g, x.request⟩ ∨ o = j ∧ z = ⟨f, y.request⟩ ∨ p ≠ j ∧ o ≠ j ∧ s.objects[j]? = some (some z) := by
    intro j z
    rw [getElem?_set_iff hy', getElem?_set_iff hx, Option.some_inj, Option.some_inj, and_or_left]
    refine or_congr (and_congr_right fun _ => eq_comm) (or_congr ?_ (by rw [and_left_comm]))
    exact ⟨fun h => ⟨h.2.1, h.2.2.symm⟩, fun h => ⟨fun hj => hop (h.1.trans hj.symm), h.1, h.2.symm⟩⟩
  -- Where the request of an object was before.
  have hback : ∀ {j : Nat} {z : FutureObject C},
      ((s.objects.set o (some ⟨f, y.request⟩)).set p (some ⟨g, x.request⟩))[j]? = some (some z) →
        ∃ w, s.objects[Equiv.swap o p j]? = some (some w) ∧ w.request = z.request := by
    intro j z hz
    rcases hget.mp hz with ⟨rfl, rfl⟩ | ⟨rfl, rfl⟩ | ⟨hpj, hoj, hz⟩
    · exact ⟨x, by rwa [Equiv.swap_apply_right], rfl⟩
    · exact ⟨y, by rwa [Equiv.swap_apply_left], rfl⟩
    · exact ⟨z, by rwa [Equiv.swap_apply_of_ne_of_ne hoj.symm hpj.symm], rfl⟩
  exact {
    held := by
      intro j z hz
      rcases hget.mp hz with ⟨rfl, rfl⟩ | ⟨rfl, rfl⟩ | ⟨-, -, hz⟩
      · obtain ⟨r, hr, -⟩ := hI.held hx
        exact ⟨r, hr, hg r hr⟩
      · obtain ⟨r, hr, -⟩ := hI.held hy
        exact ⟨r, hr, hf r hr⟩
      · exact hI.held hz
    inj := by
      intro j k z w hz hw heq
      obtain ⟨z', hz', hzr⟩ := hback hz
      obtain ⟨w', hw', hwr⟩ := hback hw
      exact (Equiv.swap o p).injective (hI.inj hz' hw' (hzr.trans (heq.trans hwr.symm)))
    pending := by
      intro i r hr hlaunched hpkg
      obtain ⟨j, z, hz, rfl⟩ := hI.pending hr hlaunched hpkg
      by_cases hoj : o = j
      · subst hoj
        cases hx.symm.trans hz
        exact ⟨p, _, hget.mpr (.inl ⟨rfl, rfl⟩), rfl⟩
      by_cases hpj : p = j
      · subst hpj
        cases hy.symm.trans hz
        exact ⟨o, _, hget.mpr (.inr (.inl ⟨rfl, rfl⟩)), rfl⟩
      · exact ⟨j, z, hget.mpr (.inr (.inr ⟨hpj, hoj, hz⟩)), rfl⟩
    calls := hI.calls }

/-! ### Steps -/

theorem inv_moved (hI : Inv s) (hx : s.object o = .ok x) (hcarried : x.future.launched = true ∨ x.future.pkg = none) :
    Inv (s.moved o x) := by
  have hx := getElem?_of_object hx
  have hlt := (List.getElem?_eq_some_iff.mp hx).1
  obtain ⟨r, hr, hagree⟩ := hI.held hx
  have hpkg : x.future.launched = false → x.future.pkg = none := fun h => hcarried.resolve_left (by simp [h])
  have := (hI.concat x.future.network).exchange (Nat.ne_of_lt hlt) (getElem?_concat_iff.mpr (.inl hx))
    List.getElem?_concat_length (f := x.future.moveConstruct.2) (g := x.future.moveConstruct.1)
    (fun q hq => by
      rw [List.getElem?_concat_length] at hq
      cases hq
      exact ⟨fun hl => by simp [RPCFuture.moveConstruct, hpkg hl], fun _ => .inr rfl⟩)
    (fun q hq => by
      cases ((getElem?_concat_iff.mpr (.inl hr)).symm.trans hq)
      refine ⟨fun hl => ?_, hagree.done⟩
      rw [hagree.pending hl, hpkg hl]
      rfl)
  rwa [List.set_append_left _ _ hlt, List.set_append_right _ _ (Nat.le_of_eq List.length_set),
    List.length_set, Nat.sub_self] at this

theorem inv_swapped (hI : Inv s) {rhs : Nat} (hne : o ≠ rhs) (hx : s.object o = .ok x) (hy : s.object rhs = .ok y)
    (hcarried : (x.future.launched = true ∧ y.future.launched = true) ∨ x.future.pkg = y.future.pkg) :
    Inv (s.swapped o rhs x y) := by
  have hx := getElem?_of_object hx
  have hy := getElem?_of_object hy
  obtain ⟨rx, hrx, hagreex⟩ := hI.held hx
  obtain ⟨ry, hry, hagreey⟩ := hI.held hy
  refine hI.exchange hne hx hy (fun q hq => ?_) fun q hq => ?_
  · cases hry.symm.trans hq
    refine ⟨fun hl => ?_, hagreey.done⟩
    have hpkg := hcarried.resolve_left fun h => (by cases hl.symm.trans h.2)
    rw [hagreey.pending hl, ← hpkg]
    rfl
  · cases hrx.symm.trans hq
    refine ⟨fun hl => ?_, hagreex.done⟩
    have hpkg := hcarried.resolve_left fun h => (by cases hl.symm.trans h.1)
    rw [hagreex.pending hl, hpkg]
    rfl

theorem inv_step {a : Action C} (hI : Inv s) (hcarried : s.Carried a) (h : s.step a = .ok t) : Inv t := by
  cases a with
  | makeFuture network =>
    cases h
    exact hI.concat network
  | rpc o sid msgId msg =>
    obtain ⟨x, hx, rfl⟩ := map_eq_ok_iff.mp h
    rw [Carried, hx] at hcarried
    refine inv_update hI hx rfl (fun _ => rfl) rfl fun r hr hl => .inl ?_
    simpa [hr] using hcarried hl
  | onSuccess o cb =>
    obtain ⟨x, hx, rfl⟩ := map_eq_ok_iff.mp h
    exact inv_update hI hx rfl (fun _ => rfl) rfl fun r hr hl => .inr rfl
  | onTimeout o cb d =>
    obtain ⟨x, hx, rfl⟩ := map_eq_ok_iff.mp h
    exact inv_update hI hx rfl (fun _ => rfl) rfl fun r hr hl => .inr rfl
  | moveConstruct rhs =>
    obtain ⟨x, hx, rfl⟩ := map_eq_ok_iff.mp h
    rw [Carried, hx] at hcarried
    exact inv_moved hI hx hcarried
  | moveAssign o rhs =>
    obtain ⟨x, hx, h⟩ := bind_eq_ok_iff.mp h
    obtain ⟨y, hy, rfl⟩ := map_eq_ok_iff.mp h
    rw [Carried, hx, hy] at hcarried
    split
    · exact hI
    · exact inv_swapped hI ‹_› hx hy (hcarried.resolve_left ‹_›)
  | launch o =>
    obtain ⟨x, hx, rfl⟩ := map_eq_ok_iff.mp h
    exact inv_launched hI hx
  | destroy o =>
    obtain ⟨x, hx, rfl⟩ := map_eq_ok_iff.mp h
    exact inv_destroyed hI hx

/-! ### Runs -/

/-- Once no object is left, every request on which `RPC` was called is launched. -/
theorem requested_of_allDestroyed (hI : Inv s) (h : s.AllDestroyed) : s.requests.filterMap sent? = s.requested := by
  refine List.filterMap_congr fun r hr => ?_
  obtain ⟨i, hi⟩ := List.mem_iff_getElem?.mp hr
  cases hl : r.launched with
  | true => exact if_pos hl
  | false =>
    have hpkg : r.pkg = none := by
      by_contra hpkg
      obtain ⟨o, x, hx, -⟩ := hI.pending hi hl hpkg
      cases h _ (List.mem_of_getElem? hx)
    rw [sent?, if_neg (by simp [hl]), Request.call?, hpkg, Option.map_none]

/-- Whatever the order of the calls, moves and destructions, the calls of `UniformNetwork::RPC` are those that the
    requests are to result in. -/
theorem issued_once {as : List (Action C)} (h : run step {} as = .ok s) (hcarried : Along step Carried {} as)
    (hend : s.AllDestroyed) : s.calls.Perm s.requested := by
  have hI : Inv s := run_invariant inv_step inv_init hcarried h
  rw [← requested_of_allDestroyed hI hend]
  exact hI.calls

/-- Two requests that change places before `RPC` is called on them, and again once both are launched. -/
theorem issued_once_two :
    ([⟨2, ⟨[10], 4, []⟩, none⟩, ⟨1, ⟨[7], 3, [8, 9]⟩, some ⟨some 5, some 6, some 100⟩⟩] : List (RPCCall Nat)).Perm
      [⟨1, ⟨[7], 3, [8, 9]⟩, some ⟨some 5, some 6, some 100⟩⟩, ⟨2, ⟨[10], 4, []⟩, none⟩] := by
  let as : List (Action Nat) :=
    [.makeFuture 1, .makeFuture 2, .onSuccess 0 (some 5), .moveAssign 1 0, .rpc 1 [7] 2 [], .rpc 0 [10] 4 [],
     .rpc 1 [7] 3 [8, 9], .onTimeout 1 (some 6) 100, .launch 0, .launch 1, .moveConstruct 1, .moveAssign 0 2, .destroy 2,
     .destroy 0, .destroy 1]
  have h : run step ({} : Futures Nat) as = .ok
      { objects := [none, none, none],
        calls := [⟨2, ⟨[10], 4, []⟩, none⟩, ⟨1, ⟨[7], 3, [8, 9]⟩, some ⟨some 5, some 6, some 100⟩⟩],
        requests :=
          [⟨1, some ⟨[7], 3, [8, 9]⟩, some ⟨some 5, some 6, some 100⟩, true⟩, ⟨2, some ⟨[10], 4, []⟩, none, true⟩,
           ⟨1, none, none, false⟩] } := by decide
  exact issued_once h (by decide) (by decide)

/-- The move constructor leaves `m_pkg` behind: the request is sent without the callbacks that were set on it. -/
theorem not_issued_once : ¬∀ (as : List (Action Nat)) (s : Futures Nat), run step {} as = .ok s → s.AllDestroyed →
    s.calls.Perm s.requested := by
  intro h
  have hperm := h [.makeFuture 0, .rpc 0 [65] 1 [66], .onSuccess 0 (some 1), .moveConstruct 0, .destroy 0, .destroy 1]
    _ rfl (by decide)
  revert hperm
  decide

end Futures

end Zylib.KNet
