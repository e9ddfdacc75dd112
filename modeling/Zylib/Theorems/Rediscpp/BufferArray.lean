import Zylib.Rediscpp.BufferArray

/-! A `BufferArray` is a checked tree: whatever a program does, no buffer has children and no array a buffer, and each
    member does what it has to do. The exception is `push_back(Buffer)`: what it makes for the buffer is an array, and an
    array takes no buffer. -/

namespace Zylib.Rediscpp.BufferArray
open Run

/-! ### Checks -/

section
variable {α : Type} {t : TYPE} {a : BufferArray}

theorem checked_of_eq {body : Member α} (h : a.type = t) : checked t body a = body a := by
  unfold checked checkType
  rw [if_neg (not_not_intro h)]

theorem checked_of_ne (body : Member α) (h : a.type ≠ t) : ∃ e, checked t body a = (.error (.throws e), a) := by
  unfold checked checkType
  rw [if_pos h]
  cases t <;> exact ⟨_, rfl⟩

end

/-- Each call is of a member that begins with its check. -/
theorem run_eq_checked (c : Call BufferArray) :
    ∃ (α : Type) (value : α → Value) (body : Member α), c.run = returning value (checked c.type body) := by
  cases c <;> exact ⟨_, _, _, rfl⟩

theorem run_of_ne {c : Call BufferArray} {a : BufferArray} (h : a.type ≠ c.type) :
    ∃ e, c.run a = (.error (.throws e), a) := by
  obtain ⟨α, value, body, hrun⟩ := run_eq_checked c
  obtain ⟨e, he⟩ := checked_of_ne body h
  refine ⟨e, ?_⟩
  rw [hrun, returning, he]
  rfl

/-! ### What the members do -/

theorem setBuffer_eq {a : BufferArray} (h : a.type = .BUFFER) (b : Buffer) :
    setBuffer b a = (.ok (), { a with buffer := b }) := checked_of_eq h

theorem pushBack_eq {a : BufferArray} (h : a.type = .ARRAY) (x : BufferArray) :
    pushBack x a = (.ok (), { a with array := a.array ++ [x] }) := checked_of_eq h

/-- The array that is made for the buffer does not take it. -/
theorem pushBackBuffer_throws (b : Buffer) (a : BufferArray) : ∃ e, pushBackBuffer b a = (.error (.throws e), a) := by
  by_cases h : a.type = .ARRAY
  · obtain ⟨e, he⟩ := checked_of_ne (t := .BUFFER) (a := initArray) (fun a => (.ok (), { a with buffer := b })) (by decide)
    refine ⟨e, (checked_of_eq h).trans ?_⟩
    rw [show setBuffer b initArray = _ from he]
  · exact checked_of_ne _ h

theorem popBack_eq {a x : BufferArray} {init : List BufferArray} (h : a.type = .ARRAY) (hx : a.array = init ++ [x]) :
    popBack a = (.ok x, { a with array := init }) := by
  refine (checked_of_eq h).trans ?_
  simp [hx]

theorem index_eq {α : Type} {f : Member α} {a x : BufferArray} {idx : Nat} (h : a.type = .ARRAY) (hx : a.array[idx]? = some x) :
    index idx f a = ((f x).1, { a with array := a.array.set idx (f x).2 }) := by
  refine (checked_of_eq h).trans ?_
  rw [hx]

theorem returning_eq {α : Type} (value : α → Value) {f : Member α} {a a' : BufferArray} {r : α} (h : f a = (.ok r, a')) :
    returning value f a = (.ok (value r), a') := by
  rw [returning, h]
  rfl

theorem conforms_iff (c : Call BufferArray) (a : BufferArray) : c.Conforms a ↔ ¬c.PushesBuffer a := by
  unfold Call.Conforms Call.PushesBuffer
  have hwrong : a.type ≠ c.type → (∃ e, (c.run a).1 = .error (.throws e)) ∧ (c.run a).2 = a := by
    intro h
    obtain ⟨e, he⟩ := run_of_ne h
    rw [he]
    exact ⟨⟨e, rfl⟩, rfl⟩
  rw [and_iff_right hwrong]
  cases c with
  | setBuffer b => exact iff_of_true (fun h => returning_eq _ (setBuffer_eq h b)) And.right
  | getBuffer => exact iff_of_true (fun h => returning_eq _ (checked_of_eq h)) And.right
  | moveBuffer => exact iff_of_true (fun h => returning_eq _ (checked_of_eq h)) And.right
  | pushBackBuffer b =>
    refine ⟨fun h hpush => ?_, fun h htype => absurd ⟨htype, trivial⟩ h⟩
    obtain ⟨e, he⟩ := pushBackBuffer_throws b a
    have hrun := h hpush.1
    rw [Call.run, returning, he] at hrun
    cases hrun
  | pushBack x =>
    refine iff_of_true (fun h => ?_) And.right
    have hpush := returning_eq (fun _ => Value.unit) (pushBack_eq h x)
    refine ⟨hpush, ?_⟩
    rw [show Call.run (.pushBack x) a = _ from hpush]
    cases a
    exact returning_eq _ (popBack_eq h rfl)
  | popBack => exact iff_of_true (fun h init x hx => returning_eq _ (popBack_eq h hx)) And.right
  | index idx =>
    refine iff_of_true (fun h x hx => ?_) And.right
    obtain ⟨hlt, rfl⟩ := List.getElem?_eq_some_iff.mp hx
    have hindex := index_eq (f := copied) h hx
    simp only [copied, List.set_getElem_self] at hindex
    cases a
    exact returning_eq _ hindex
  | moveIndex idx => exact iff_of_true (fun h x hx => returning_eq _ (index_eq h hx)) And.right
  | size => exact iff_of_true (fun h => returning_eq _ (checked_of_eq h)) And.right
  | empty => exact iff_of_true (fun h => returning_eq _ (checked_of_eq h)) And.right

/-! ### Well-formed trees -/

/-- What a member leaves, and the nodes that it returns, are well formed. -/
def Keeps {α : Type} (f : Member α) (P : α → Prop) : Prop :=
  ∀ a, WellFormed a → WellFormed (f a).2 ∧ ∀ r, (f a).1 = .ok r → P r

def Value.WellFormed : Value → Prop
  | .node a => BufferArray.WellFormed a
  | _ => True

theorem wellFormed_init (t : TYPE) : WellFormed { type := t } := by
  cases t
  · exact .buffer {}
  · exact .array [] nofun

section
variable {α : Type} {P : α → Prop}

theorem keeps_checked {t : TYPE} {body : Member α}
    (h : ∀ a, WellFormed a → a.type = t → WellFormed (body a).2 ∧ ∀ r, (body a).1 = .ok r → P r) :
    Keeps (checked t body) P := by
  intro a ha
  by_cases ht : a.type = t
  · rw [checked_of_eq ht]
    exact h a ha ht
  · obtain ⟨e, he⟩ := checked_of_ne body ht
    rw [he]
    exact ⟨ha, nofun⟩

theorem keeps_returning {f : Member α} {Q : Value → Prop} {value : α → Value} (h : Keeps f P) (hQ : ∀ r, P r → Q (value r)) :
    Keeps (returning value f) Q := by
  intro a ha
  obtain ⟨hleft, hret⟩ := h a ha
  refine ⟨hleft, fun r hr => ?_⟩
  obtain ⟨x, hx, rfl⟩ := map_eq_ok_iff.mp hr
  exact hQ x (hret x hx)

/-- A buffer stays one whatever it holds. -/
theorem keeps_setBuffer (b : Buffer) : Keeps (setBuffer b) fun _ => True := by
  refine keeps_checked fun a ha ht => ⟨?_, fun _ _ => trivial⟩
  cases ha with
  | buffer b' => exact .buffer b
  | array as has => cases ht

theorem keeps_moveBuffer : Keeps moveBuffer fun _ => True := by
  refine keeps_checked fun a ha ht => ⟨?_, fun _ _ => trivial⟩
  cases ha with
  | buffer b' => exact .buffer {}
  | array as has => cases ht

theorem keeps_pushBackBuffer (b : Buffer) : Keeps (pushBackBuffer b) fun _ => True := by
  intro a ha
  obtain ⟨e, he⟩ := pushBackBuffer_throws b a
  rw [he]
  exact ⟨ha, nofun⟩

theorem keeps_pushBack {x : BufferArray} (hx : WellFormed x) : Keeps (pushBack x) fun _ => True := by
  refine keeps_checked fun a ha ht => ⟨?_, fun _ _ => trivial⟩
  cases ha with
  | buffer b' => cases ht
  | array as has => exact .array _ (List.forall_mem_append.mpr ⟨has, by simpa using hx⟩)

theorem keeps_popBack : Keeps popBack WellFormed := by
  refine keeps_checked fun a ha ht => ?_
  cases ha with
  | buffer b' => cases ht
  | array as has =>
    dsimp only
    split
    · exact ⟨.array as has, nofun⟩
    next x hx =>
      refine ⟨.array _ fun y hy => has y (List.dropLast_subset as hy), fun r hr => ?_⟩
      cases hr
      exact has x (List.mem_of_getLast? hx)

theorem keeps_index {f : Member α} (idx : Nat) (h : Keeps f P) : Keeps (index idx f) P := by
  refine keeps_checked fun a ha ht => ?_
  cases ha with
  | buffer b' => cases ht
  | array as has =>
    dsimp only
    split
    · exact ⟨.array as has, nofun⟩
    next x hx =>
      obtain ⟨hleft, hret⟩ := h x (has x (List.mem_of_getElem? hx))
      refine ⟨.array _ fun y hy => ?_, hret⟩
      rcases List.mem_or_eq_of_mem_set hy with hy | rfl
      · exact has y hy
      · exact hleft

theorem keeps_copied : Keeps copied WellFormed := fun a ha => ⟨ha, fun r hr => by cases hr; exact ha⟩

theorem keeps_moved : Keeps moved WellFormed := fun a ha => ⟨wellFormed_init a.type, fun r hr => by cases hr; exact ha⟩

theorem keeps_assign {x : BufferArray} (hx : WellFormed x) : Keeps (assign x) fun _ => True :=
  fun _ _ => ⟨hx, fun _ _ => trivial⟩

theorem keeps_along {f : Member α} (h : Keeps f P) : ∀ path, Keeps (along f path) P
  | [] => h
  | idx :: path => keeps_index idx (keeps_along h path)

end

/-- The node that a call is given. -/
def Call.ArgWellFormed : Call BufferArray → Prop
  | .pushBack a => WellFormed a
  | _ => True

theorem keeps_run {c : Call BufferArray} (hc : c.ArgWellFormed) : Keeps c.run Value.WellFormed := by
  have htrue {α : Type} {value : α → Value} {f : Member α} (hf : Keeps f fun _ => True) (hv : ∀ r, (value r).WellFormed) :
      Keeps (returning value f) Value.WellFormed := keeps_returning hf fun r _ => hv r
  have hread {α : Type} {t : TYPE} (r : BufferArray → α) : Keeps (checked t fun a => (.ok (r a), a)) fun _ => True :=
    keeps_checked fun a ha _ => ⟨ha, fun _ _ => trivial⟩
  cases c with
  | setBuffer b => exact htrue (keeps_setBuffer b) fun _ => trivial
  | getBuffer => exact htrue (hread _) fun _ => trivial
  | moveBuffer => exact htrue keeps_moveBuffer fun _ => trivial
  | pushBackBuffer b => exact htrue (keeps_pushBackBuffer b) fun _ => trivial
  | pushBack a => exact htrue (keeps_pushBack hc) fun _ => trivial
  | popBack => exact keeps_returning keeps_popBack fun _ h => h
  | index idx => exact keeps_returning (keeps_index idx keeps_copied) fun _ h => h
  | moveIndex idx => exact keeps_returning (keeps_index idx keeps_moved) fun _ h => h
  | size => exact htrue (hread _) fun _ => trivial
  | empty => exact htrue (hread _) fun _ => trivial

/-! ### Programs -/

/-- Every variable is a well-formed tree. -/
def AllWellFormed (vars : List BufferArray) : Prop := ∀ v ∈ vars, WellFormed v

theorem AllWellFormed.concat {vars : List BufferArray} (h : AllWellFormed vars) {a : BufferArray} (ha : WellFormed a) :
    AllWellFormed (vars ++ [a]) :=
  List.forall_mem_append.mpr ⟨h, by simpa using ha⟩

section
variable {α : Type} {P : α → Prop} {vars vars' : List BufferArray}

/-- What is evaluated gives a value that meets `P`, and leaves well-formed trees. -/
def Sound (P : α → Prop) (result : Except Fault α × List BufferArray) : Prop :=
  AllWellFormed result.2 ∧ ∀ r, result.1 = .ok r → P r

theorem sound_on {f : Member α} (hf : Keeps f P) (loc : Loc) (h : AllWellFormed vars) : Sound P (on loc f vars) := by
  unfold on
  split
  · exact ⟨h, nofun⟩
  next a ha =>
    obtain ⟨hleft, hret⟩ := keeps_along hf loc.path a (h a (List.mem_of_getElem? ha))
    refine ⟨fun v hv => ?_, hret⟩
    rcases List.mem_or_eq_of_mem_set hv with hv | rfl
    · exact h v hv
    · exact hleft

theorem sound_arg (arg : Arg) (h : AllWellFormed vars) : Sound WellFormed (arg.eval vars) := by
  cases arg with
  | initBuffer => exact ⟨h, fun r hr => by cases hr; exact wellFormed_init .BUFFER⟩
  | initArray => exact ⟨h, fun r hr => by cases hr; exact wellFormed_init .ARRAY⟩
  | copy src => exact sound_on keeps_copied src h
  | move src => exact sound_on keeps_moved src h

theorem sound_call (c : Call Arg) (h : AllWellFormed vars) : Sound Call.ArgWellFormed (c.eval vars) := by
  cases c with
  | pushBack arg =>
    obtain ⟨hleft, hret⟩ := sound_arg arg h
    refine ⟨hleft, fun r hr => ?_⟩
    obtain ⟨a, ha, rfl⟩ := map_eq_ok_iff.mp hr
    exact hret a ha
  | _ => exact ⟨h, fun r hr => by cases hr; trivial⟩

theorem wellFormed_andThen {result : Except Fault α × List BufferArray}
    {next : α → List BufferArray → Except Fault (List BufferArray)} (hr : Sound P result)
    (hnext : ∀ r vars, P r → AllWellFormed vars → ∀ vars', next r vars = .ok vars' → AllWellFormed vars')
    (h : andThen result next = .ok vars') : AllWellFormed vars' := by
  obtain ⟨r, vars⟩ := result
  obtain ⟨hleft, hret⟩ := hr
  cases r with
  | ok r => exact hnext r vars (hret r rfl) hleft vars' h
  | error e =>
    cases e with
    | throws e =>
      cases h
      exact hleft
    | undefined => cases h

end

/-- A statement keeps every tree well formed, whether or not it throws. -/
theorem wellFormed_step {vars vars' : List BufferArray} {op : Op} (h : AllWellFormed vars) (hstep : step vars op = .ok vars') :
    AllWellFormed vars' := by
  cases op with
  | construct arg =>
    refine wellFormed_andThen (sound_arg arg h) (fun a vars ha h vars' hv => ?_) hstep
    cases hv
    exact h.concat ha
  | assign dst arg =>
    refine wellFormed_andThen (sound_arg arg h) (fun a vars ha h vars' hv => ?_) hstep
    refine wellFormed_andThen (sound_on (keeps_assign ha) dst h) (fun r vars _ h vars' hv => ?_) hv
    cases hv
    exact h
  | call loc c =>
    refine wellFormed_andThen (sound_on keeps_copied loc h) (fun a vars _ h vars' hv => ?_) hstep
    refine wellFormed_andThen (sound_call c h) (fun c vars hc h vars' hv => ?_) hv
    refine wellFormed_andThen (sound_on (keeps_run hc) loc h) (fun value vars hvalue h vars' hv => ?_) hv
    cases hv
    cases value with
    | node a => exact h.concat hvalue
    | _ => exact h

theorem wellFormed_run {ops : List Op} {vars : List BufferArray} (h : run step [] ops = .ok vars) : AllWellFormed vars :=
  run_invariant (P := fun _ _ => True) (fun h _ => wellFormed_step h) (fun _ h => by cases h) (along_true [] ops) h

theorem WellFormed.node {a v : BufferArray} (hv : WellFormed v) (h : Node a v) : WellFormed a := by
  induction h with
  | refl => exact hv
  | child hmem _ ih =>
    cases hv with
    | buffer b => cases hmem
    | array as has => exact ih (has _ hmem)

theorem WellFormed.shape {a : BufferArray} (h : WellFormed a) :
    (a.type = .BUFFER → a.array = []) ∧ (a.type = .ARRAY → a.buffer = {}) := by
  cases h with
  | buffer b => exact ⟨fun _ => rfl, nofun⟩
  | array as has => exact ⟨nofun, fun _ => rfl⟩

/-- Every node that a program reaches has the shape of its type and is what its members take it for, if, and only if, the
    member is not `push_back(Buffer)` of an array. -/
theorem node_conforms_iff {ops : List Op} {vars : List BufferArray} {v a : BufferArray} (h : run step [] ops = .ok vars)
    (hv : v ∈ vars) (ha : Node a v) (c : Call BufferArray) :
    (((a.type = .BUFFER → a.array = []) ∧ (a.type = .ARRAY → a.buffer = {})) ∧ c.Conforms a) ↔ ¬c.PushesBuffer a := by
  rw [and_iff_right ((wellFormed_run h v hv).node ha).shape]
  exact conforms_iff c a

/-- An array of one buffer. -/
def oneBuffer : BufferArray := { type := .ARRAY, array := [initBuffer] }

theorem node_conforms_iff_popBack :
    (((oneBuffer.type = .BUFFER → oneBuffer.array = []) ∧ (oneBuffer.type = .ARRAY → oneBuffer.buffer = {})) ∧
      Call.popBack.Conforms oneBuffer) ↔ ¬Call.popBack.PushesBuffer oneBuffer := by
  have hrun : run step [] [.construct .initArray, .construct .initBuffer, .call { var := 0 } (.pushBack (.move { var := 1 }))] =
    .ok [oneBuffer, initBuffer] := rfl
  exact node_conforms_iff hrun List.mem_cons_self .refl .popBack

/-- An array does not take a buffer. -/
theorem not_node_conforms : ¬ ∀ (ops : List Op) (vars : List BufferArray) (v a : BufferArray), run step [] ops = .ok vars →
    v ∈ vars → Node a v → ∀ c : Call BufferArray, c.Conforms a := by
  intro h
  have hrun : run step [] [.construct .initArray] = .ok [initArray] := rfl
  have hpush := h _ _ initArray initArray hrun List.mem_cons_self .refl (.pushBackBuffer {})
  exact absurd ⟨rfl, trivial⟩ ((conforms_iff _ _).mp hpush)

end Zylib.Rediscpp.BufferArray
