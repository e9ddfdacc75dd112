import Mathlib.Data.List.Basic

/-! Framed streams. `enc` writes a message as a frame; over the messages that are `ok` no frame is
    empty and none begins another one. A reader appends each chunk it receives to the bytes it holds
    and takes the complete frames at their front: however the stream is cut, it takes the messages
    of the stream in order (`feed_stream`). -/

namespace Framing

variable {α β σ ε : Type*} {enc : β → List α} {ok : β → Prop}

/-- No frame is empty, and none begins another one. -/
structure PrefixCode (enc : β → List α) (ok : β → Prop) : Prop where
  ne_nil : ∀ {m}, ok m → enc m ≠ []
  eq_of_prefix : ∀ {m n}, ok m → ok n → enc m <+: enc n → m = n

def stream (enc : β → List α) (ms : List β) : List α := ms.flatMap enc

@[simp] theorem stream_nil : stream enc [] = [] := rfl

@[simp] theorem stream_cons (m : β) (ms : List β) : stream enc (m :: ms) = enc m ++ stream enc ms := rfl

@[simp] theorem stream_append (ms ns : List β) : stream enc (ms ++ ns) = stream enc ms ++ stream enc ns :=
  List.flatMap_append

/-- `r` is the beginning of a frame, and not the whole of it. -/
def Unfinished (enc : β → List α) (ok : β → Prop) (r : List α) : Prop :=
  r = [] ∨ ∃ m t, ok m ∧ t ≠ [] ∧ enc m = r ++ t

theorem Unfinished.not_prefix (code : PrefixCode enc ok) {r : List α} (h : Unfinished enc ok r) {n : β} (hn : ok n) :
    ¬enc n <+: r := by
  intro hp
  rcases h with rfl | ⟨m, t, hm, ht, e⟩
  · exact code.ne_nil hn (List.prefix_nil.mp hp)
  · have hrm : r <+: enc m := ⟨t, e.symm⟩
    obtain rfl := code.eq_of_prefix hn hm (hp.trans hrm)
    have hlen := congrArg List.length e
    have := hp.length_le
    rw [List.length_append] at hlen
    exact ht (List.length_eq_zero_iff.mp (by omega))

theorem stream_eq_nil (code : PrefixCode enc ok) {ms : List β} (hok : ∀ m ∈ ms, ok m) (h : stream enc ms = []) :
    ms = [] := by
  cases ms with
  | nil => rfl
  | cons m ms => exact absurd (List.append_eq_nil_iff.mp h).1 (code.ne_nil (hok m List.mem_cons_self))

theorem Unfinished.length_lt_stream (code : PrefixCode enc ok) {r t : List α} (h : Unfinished enc ok r)
    {ms ns : List β} (hok : ∀ m ∈ ms, ok m) (hr : r ++ t = stream enc (ms ++ ns)) (hne : ms ≠ []) :
    r.length < (stream enc ms).length := by
  obtain ⟨m, ms, rfl⟩ := List.exists_cons_of_ne_nil hne
  by_contra hle
  rw [List.cons_append, stream_cons] at hr
  rw [stream_cons, List.length_append] at hle
  have hpre : enc m <+: r := List.prefix_of_prefix_length_le ⟨_, hr.symm⟩ ⟨t, rfl⟩ (by omega)
  exact h.not_prefix code (hok m List.mem_cons_self) hpre

theorem Unfinished.stream_eq_nil (code : PrefixCode enc ok) {ms : List β} (hok : ∀ m ∈ ms, ok m)
    (h : Unfinished enc ok (stream enc ms)) : ms = [] := by
  by_contra hne
  have hr : stream enc ms ++ [] = stream enc (ms ++ []) := by rw [List.append_nil, List.append_nil]
  exact Nat.lt_irrefl _ (h.length_lt_stream code hok hr hne)

/-- `b` is the frames of the messages `ms` and the beginning `r` of a further one. -/
structure Splits (enc : β → List α) (ok : β → Prop) (ms : List β) (r b : List α) : Prop where
  eq : b = stream enc ms ++ r
  valid : ∀ m ∈ ms, ok m
  rest : Unfinished enc ok r

namespace Splits
variable {ms ns : List β} {r s b : List α} {m : β}

theorem nil (h : Unfinished enc ok r) : Splits enc ok [] r r := ⟨rfl, by simp, h⟩

theorem cons (hm : ok m) (h : Splits enc ok ms r b) : Splits enc ok (m :: ms) r (enc m ++ b) where
  eq := by rw [h.eq, stream_cons, List.append_assoc]
  valid n hn := by
    rcases List.mem_cons.mp hn with rfl | hn
    · exact hm
    · exact h.valid n hn
  rest := h.rest

theorem of_cons (h : Splits enc ok (m :: ms) r b) : ∃ b', b = enc m ++ b' ∧ ok m ∧ Splits enc ok ms r b' :=
  ⟨stream enc ms ++ r, by rw [h.eq, stream_cons, List.append_assoc], h.valid m List.mem_cons_self,
    rfl, fun n hn => h.valid n (List.mem_cons_of_mem _ hn), h.rest⟩

theorem unique (code : PrefixCode enc ok) (h : Splits enc ok ms r b) (h' : Splits enc ok ns s b) : ms = ns ∧ r = s := by
  induction ms generalizing ns b with
  | nil =>
    cases ns with
    | nil => exact ⟨rfl, by simpa using h.eq.symm.trans h'.eq⟩
    | cons n ns =>
      obtain ⟨b', hb, hn, -⟩ := h'.of_cons
      exact absurd ⟨b', by rw [← hb, h.eq]; rfl⟩ (h.rest.not_prefix code hn)
  | cons m ms ih =>
    obtain ⟨b₁, hb, hm, h₁⟩ := h.of_cons
    cases ns with
    | nil => exact absurd ⟨b₁, by rw [← hb, h'.eq]; rfl⟩ (h'.rest.not_prefix code hm)
    | cons n ns =>
      obtain ⟨b₂, hb', hn, h₂⟩ := h'.of_cons
      have hmn : m = n := by
        rcases List.prefix_or_prefix_of_prefix (show enc m <+: b from ⟨b₁, hb.symm⟩) ⟨b₂, hb'.symm⟩ with hp | hp
        · exact code.eq_of_prefix hm hn hp
        · exact (code.eq_of_prefix hn hm hp).symm
      subst hmn
      obtain rfl : b₁ = b₂ := List.append_cancel_left (hb.symm.trans hb')
      obtain ⟨rfl, rfl⟩ := ih h₁ h₂
      exact ⟨rfl, rfl⟩

end Splits

/-- What has been received of a stream is frames of the stream and the beginning of the next. -/
theorem splits_of_prefix {ms : List β} (hok : ∀ m ∈ ms, ok m) {b t : List α} (h : b ++ t = stream enc ms) :
    ∃ ms₁ ms₂ r, ms = ms₁ ++ ms₂ ∧ Splits enc ok ms₁ r b ∧ r ++ t = stream enc ms₂ := by
  induction ms generalizing b with
  | nil =>
    obtain ⟨rfl, rfl⟩ : b = [] ∧ t = [] := List.append_eq_nil_iff.mp h
    exact ⟨[], [], [], rfl, .nil (Or.inl rfl), rfl⟩
  | cons m ms ih =>
    have hm : ok m := hok m List.mem_cons_self
    have hok' : ∀ n ∈ ms, ok n := fun n hn => hok n (List.mem_cons_of_mem _ hn)
    rw [stream_cons] at h
    rcases List.append_eq_append_iff.mp h with ⟨u, hu, -⟩ | ⟨b', rfl, hb'⟩
    · by_cases hnil : u = []
      · -- The bytes end with the first frame.
        subst hnil
        rw [List.append_nil] at hu
        obtain rfl := hu
        obtain ⟨ms₁, ms₂, r, e, hs, ht⟩ := ih hok' (b := []) (by simpa using List.append_cancel_left h)
        exact ⟨m :: ms₁, ms₂, r, by rw [e]; rfl, by simpa using hs.cons hm, ht⟩
      · -- The bytes end inside the first frame.
        exact ⟨[], m :: ms, b, rfl, .nil (Or.inr ⟨m, u, hm, hnil, hu⟩), by rw [h, stream_cons]⟩
    · obtain ⟨ms₁, ms₂, r, rfl, hs, ht⟩ := ih hok' hb'.symm
      exact ⟨m :: ms₁, ms₂, r, rfl, hs.cons hm, ht⟩

/-! ### Reading a stream in chunks -/

/-- The messages that successive reads of the chunks give. -/
def feed (read : σ → List α → Except ε (List β × σ)) : σ → List (List α) → Except ε (List β × σ)
  | s, [] => .ok ([], s)
  | s, c :: cs =>
    match read s c with
    | .error e => .error e
    | .ok (ms, t) =>
      match feed read t cs with
      | .error e => .error e
      | .ok (ns, u) => .ok (ms ++ ns, u)

theorem feed_cons_eq_ok {read : σ → List α → Except ε (List β × σ)} {s u : σ} {c : List α} {cs : List (List α)}
    {rs : List β} : feed read s (c :: cs) = .ok (rs, u) ↔
      ∃ ms t ns, read s c = .ok (ms, t) ∧ feed read t cs = .ok (ns, u) ∧ rs = ms ++ ns := by
  constructor
  · intro h
    simp only [feed] at h
    split at h
    · cases h
    · rename_i ms t hread
      split at h
      · cases h
      · rename_i ns v hrest
        cases h
        exact ⟨ms, t, ns, hread, hrest, rfl⟩
  · rintro ⟨ms, t, ns, hread, hrest, rfl⟩
    simp [feed, hread, hrest]

theorem feed_cons_nil {read : σ → List α → Except ε (List β × σ)} {s t : σ} {c : List α}
    (h : read s c = .ok ([], t)) (cs : List (List α)) : feed read s (c :: cs) = feed read t cs := by
  simp only [feed, h]
  cases feed read t cs with
  | error e => rfl
  | ok out => rfl

/-- If each read takes exactly the complete frames of the bytes held and the chunk, and holds the
    rest, then the reads together take the messages of the stream and hold nothing at its end. `I`
    is what the reads keep of the state and the chunks to come. -/
theorem feed_stream (code : PrefixCode enc ok) {read : σ → List α → Except ε (List β × σ)} (held : σ → List α)
    (I : σ → List (List α) → Prop)
    (hread : ∀ s c cs ms r, I s (c :: cs) → Splits enc ok ms r (held s ++ c) →
      ∃ t, read s c = .ok (ms, t) ∧ held t = r ∧ I t cs)
    {cs : List (List α)} {s : σ} {ms : List β} (hI : I s cs) (hok : ∀ m ∈ ms, ok m)
    (hs : Unfinished enc ok (held s)) (h : held s ++ cs.flatten = stream enc ms) :
    ∃ t, feed read s cs = .ok (ms, t) ∧ held t = [] ∧ I t [] := by
  induction cs generalizing s ms with
  | nil =>
    rw [List.flatten_nil, List.append_nil] at h
    cases ms with
    | nil => exact ⟨s, rfl, h, hI⟩
    | cons m ms => exact absurd ⟨stream enc ms, h.symm⟩ (hs.not_prefix code (hok m List.mem_cons_self))
  | cons c cs ih =>
    rw [List.flatten_cons, ← List.append_assoc] at h
    obtain ⟨ms₁, ms₂, r, rfl, hsp, hr⟩ := splits_of_prefix hok h
    obtain ⟨t, ht, rfl, hIt⟩ := hread s c cs ms₁ r hI hsp
    obtain ⟨u, hu, hnil, hIu⟩ := ih hIt (fun m hm => hok m (List.mem_append_right _ hm)) hsp.rest hr
    exact ⟨u, by simp [feed, ht, hu], hnil, hIu⟩

end Framing
