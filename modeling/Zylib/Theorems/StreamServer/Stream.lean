import Zylib.Theorems.StreamServer.Decode

/-! A stream of encoded messages, read by an `RWHandler` in chunks that are cut anywhere. A frame with
    data takes the whole read buffer with it, so such a frame has to end where a chunk ends; and the
    read buffer has to stay below 2^31 bytes. -/

namespace Zylib.StreamServer
open Drain Framing
open ByteBuffer (Holds Compact)

variable {b : ByteBuffer} {c q r : Bytes} {ms ns rs : List CallbackMessage} {chunks : List Bytes}

/-- A message with data is the last of the messages, and nothing follows it. -/
def Clean (ms : List CallbackMessage) (r : Bytes) : Prop :=
  ∀ ps p qs, ms = ps ++ p :: qs → p.data ≠ [] → qs = [] ∧ r = []

theorem clean_nil (r : Bytes) : Clean [] r := fun ps p qs e => by simp at e

theorem Clean.of_cons {m : CallbackMessage} (h : Clean (m :: ms) r) : Clean ms r := fun ps p qs e =>
  h (m :: ps) p qs (by rw [e]; rfl)

theorem Clean.cons {m : CallbackMessage} (hm : m.data ≠ [] → ms = [] ∧ r = []) (h : Clean ms r) : Clean (m :: ms) r := by
  intro ps p qs e hp
  cases ps with
  | nil =>
    obtain ⟨rfl, rfl⟩ := List.cons.inj e
    exact hm hp
  | cons n ps => exact h ps p qs (List.cons.inj e).2 hp

/-! ### The loop -/

/-- The loop takes the complete frames off a buffer in which no frame follows one with data. -/
theorem drains_of_clean (h : Holds b q) (hs : Splits frame Fits ms r q) (hlen : q.length < 2 ^ 31) (hc : Clean ms r) :
    ∃ b', Drains decodeOnce b ms b' ∧ Holds b' r := by
  induction ms generalizing b q with
  | nil =>
    obtain rfl : q = r := by simpa using hs.eq
    exact ⟨b, .done (decodeOnce_unfinished h hs.rest), h⟩
  | cons m ms ih =>
    obtain ⟨q', rfl, hm, hs'⟩ := hs.of_cons
    have hlen' : q'.length < 2 ^ 31 := by
      rw [List.length_append] at hlen
      omega
    by_cases hdata : m.data = []
    · obtain ⟨b₁, hturn, h₁⟩ := decodeOnce_nil hm hdata hlen h
      obtain ⟨b₂, hd, h₂⟩ := ih h₁ hs' hlen' hc.of_cons
      exact ⟨b₂, .more hturn hd, h₂⟩
    · obtain ⟨rfl, rfl⟩ := hc [] m ms rfl hdata
      obtain rfl : q' = [] := by simpa using hs'.eq
      obtain ⟨b₁, hturn, h₁⟩ := decodeOnce_data hm hdata hlen h
      rw [List.append_nil] at hturn
      exact ⟨b₁, .more hturn (.done (decodeOnce_unfinished h₁ (Or.inl rfl))), h₁⟩

/-- What a loop leaves that has given the messages at the front of the stream: from a buffer below
    2^31 bytes a part of a frame, from a larger one still 2^31 bytes or more. -/
structure Left (q q' : Bytes) (ms : List CallbackMessage) : Prop where
  small : q.length < 2 ^ 31 → Unfinished frame Fits q' ∧ Clean ms q'
  large : 2 ^ 31 ≤ q.length → 2 ^ 31 ≤ q'.length

/-- If the messages that the loop gives are those of the stream, it has taken exactly their frames. -/
theorem left_of_drains {b' : ByteBuffer} (hd : Drains decodeOnce b ms b') {t : Bytes}
    (hok : ∀ m ∈ ms ++ ns, Fits m) (h : Holds b q) (hq : q ++ t = stream frame (ms ++ ns)) :
    ∃ q', Holds b' q' ∧ q = stream frame ms ++ q' ∧ Left q q' ms := by
  induction hd generalizing q with
  | @done b hturn =>
    refine ⟨q, h, rfl, fun hlen => ⟨?_, clean_nil q⟩, id⟩
    obtain ⟨ms₁, ms₂, r, -, hs, -⟩ := splits_of_prefix hok hq
    cases ms₁ with
    | nil =>
      obtain rfl : q = r := by simpa using hs.eq
      exact hs.rest
    | cons m ms₁ =>
      obtain ⟨q', rfl, hm, -⟩ := hs.of_cons
      exact absurd hturn (decodeOnce_ne_none hm hlen h)
  | @more b b₁ b' m ms hturn hd ih =>
    have hm : Fits m := hok m (by simp)
    obtain ⟨ms₁, ms₂, r, hms, hs, -⟩ := splits_of_prefix hok hq
    cases ms₁ with
    | nil =>
      obtain rfl : q = r := by simpa using hs.eq
      rw [decodeOnce_unfinished h hs.rest] at hturn
      cases hturn
    | cons n ms₁ =>
      obtain ⟨rfl, -⟩ := List.cons.inj hms
      obtain ⟨q₁, rfl, -, -⟩ := hs.of_cons
      have hq₁ : q₁ ++ t = stream frame (ms ++ ns) := by
        rw [List.cons_append, stream_cons, List.append_assoc] at hq
        exact List.append_cancel_left hq
      have hok₁ : ∀ n ∈ ms ++ ns, Fits n := fun n hn => hok n (List.mem_cons_of_mem _ hn)
      by_cases hlen : (frame m ++ q₁).length < 2 ^ 31
      · have hlen₁ : q₁.length < 2 ^ 31 := by
          rw [List.length_append] at hlen
          omega
        have hstep := decodeOnce_small hm hlen h hturn
        obtain ⟨q', h', e, hleft⟩ := ih hok₁ hstep.1 hq₁
        refine ⟨q', h', by rw [e, stream_cons, List.append_assoc], fun _ => ?_, fun hl => absurd hl (Nat.not_le.mpr hlen)⟩
        obtain ⟨hu, hc⟩ := hleft.small hlen₁
        refine ⟨hu, hc.cons fun hdata => ?_⟩
        rw [hstep.2 hdata] at e
        obtain ⟨hnil, rfl⟩ := List.append_eq_nil_iff.mp e.symm
        refine ⟨?_, rfl⟩
        cases ms with
        | nil => rfl
        | cons n ms =>
          have := congrArg List.length hnil
          simp [stream_cons] at this
      · obtain ⟨h₁, hlen₁⟩ := decodeOnce_large hm (Nat.not_lt.mp hlen) h hturn
        obtain ⟨q', h', e, hleft⟩ := ih hok₁ h₁ hq₁
        exact ⟨q', h', by rw [e, stream_cons, List.append_assoc], fun hl => absurd hl hlen, fun _ => hleft.large hlen₁⟩

/-! ### A read -/

theorem shrinkToFit_run (h : Holds b q) : ∃ b', shrinkToFit b = .ok () b' ∧ Compact b' q := by
  have hclear : b.rpos ≠ 0 → b.rpos = b.wpos → drained b.storage = [] := fun _ _ => rfl
  obtain ⟨b', hrun, h', h0⟩ := ByteBuffer.shrinkToFitWith_run h hclear
  exact ⟨b', hrun, h', h0⟩

theorem doReadCallback_of_drains (h : Compact b q) (hc : c ≠ []) (hfit : (q ++ c).length < 2 ^ 31)
    (hd : ∀ b₁, Holds b₁ (q ++ c) → ∃ b₂, Drains decodeOnce b₁ ms b₂ ∧ Holds b₂ r) {turns : Nat}
    (hturns : ms.length < turns) : ∃ b', RWHandler.doReadCallback turns b c = .ok (ms, b') ∧ Compact b' r := by
  have hroom : b.wpos + c.length ≤ vectorMaxSize := by
    rw [List.length_append] at hfit
    rw [h.wpos, vectorMaxSize]
    omega
  obtain ⟨b₂, hdrains, h₂⟩ := hd _ (h.holds.append c)
  obtain ⟨b₃, hshrink, h₃⟩ := shrinkToFit_run h₂
  refine ⟨b₃, ?_, h₃⟩
  have hloop := drain_mono (hdrains.drain []) (Nat.succ_le_of_lt hturns)
  simp [RWHandler.doReadCallback, List.length_pos_iff.mpr hc, h.holds.append_run c hroom, callbackMessageDecoder, hloop,
    hshrink]

theorem drains_of_doReadCallback (h : Compact b q) (hc : c ≠ []) {turns : Nat} {b' : ByteBuffer}
    (hread : RWHandler.doReadCallback turns b c = .ok (ms, b')) :
    ∃ b₁ b₂, Holds b₁ (q ++ c) ∧ Drains decodeOnce b₁ ms b₂ ∧ ∀ r, Holds b₂ r → Compact b' r := by
  rw [RWHandler.doReadCallback, if_pos (List.length_pos_iff.mpr hc)] at hread
  by_cases hroom : b.wpos + c.length ≤ vectorMaxSize
  · rw [h.holds.append_run c hroom] at hread
    simp only [callbackMessageDecoder] at hread
    split at hread
    · cases hread
    · rename_i ms' b₂ hloop
      split at hread
      · cases hread
      · rename_i b₃ hshrink
        cases hread
        refine ⟨_, b₂, h.holds.append c, exists_drain_iff.mp ⟨turns, hloop⟩, fun r h₂ => ?_⟩
        obtain ⟨b₃, hrun, h₃⟩ := shrinkToFit_run h₂
        rw [hrun] at hshrink
        cases hshrink
        exact h₃
  · rw [Holds.append_lengthError b hc (Nat.lt_of_not_le hroom)] at hread
    cases hread

/-! ### A stream -/

/-- A buffer of 2^31 bytes or more never gives the rest of the stream. -/
theorem not_feed_of_large {turns : Nat} (hok : ∀ m ∈ rs, Fits m) (h : Compact b q) (hlarge : 2 ^ 31 ≤ q.length)
    (hq : q ++ chunks.flatten = stream frame rs) (b' : ByteBuffer) :
    feed (RWHandler.doReadCallback turns) b chunks ≠ .ok (rs, b') := by
  induction chunks generalizing b q rs with
  | nil =>
    intro hfeed
    cases hfeed
    rw [List.flatten_nil, List.append_nil] at hq
    rw [hq] at hlarge
    exact absurd hlarge (by decide)
  | cons c chunks ih =>
    intro hfeed
    obtain ⟨ms, b₁, ns, hread, hrest, rfl⟩ := feed_cons_eq_ok.mp hfeed
    by_cases hc : c = []
    · subst hc
      cases hread
      exact ih (fun m hm => hok m (by simpa using hm)) h hlarge (by simpa using hq) hrest
    · obtain ⟨b₃, b₄, h₃, hd, hcompact⟩ := drains_of_doReadCallback h hc hread
      rw [List.flatten_cons, ← List.append_assoc] at hq
      obtain ⟨q', h₄, e, hleft⟩ := left_of_drains hd hok h₃ hq
      rw [e, stream_append, List.append_assoc] at hq
      have hlarge' : 2 ^ 31 ≤ q'.length := hleft.large (by rw [List.length_append]; omega)
      exact ih (fun m hm => hok m (List.mem_append_right _ hm)) (hcompact q' h₄) hlarge'
        (List.append_cancel_left hq) hrest

theorem length_lt_of_unfinished (h : Unfinished frame Fits r) : r.length < 2 ^ 31 := by
  rcases h with rfl | ⟨m, t, hm, -, e⟩
  · decide
  · have hlen := congrArg List.length e
    have := hm.length_frame
    rw [List.length_append] at hlen
    omega

/-- How the chunks have to be cut, from the bytes `q` in the read buffer on: each frame with data ends
    where a chunk ends, and with each chunk the read buffer stays below 2^31 bytes. -/
structure Aligned (q : Bytes) (chunks : List Bytes) (rs : List CallbackMessage) : Prop where
  ends : ∀ ps p qs, rs = ps ++ p :: qs → p.data ≠ [] →
    ∃ cs ds, chunks = cs ++ ds ∧ q ++ cs.flatten = stream frame (ps ++ [p])
  room : ∀ cs c ds, chunks = cs ++ c :: ds → ∃ ps qs, rs = ps ++ qs ∧
    (stream frame ps).length ≤ (q ++ cs.flatten).length ∧
    (q ++ (cs ++ [c]).flatten).length < (stream frame ps).length + 2 ^ 31

theorem aligned_nil : Aligned [] [] [] where
  ends := fun ps p qs e => by simp at e
  room := fun cs c ds e => by simp at e

/-- The chunk `c` comes after the bytes `q`: with it the frames of `ms` are complete and `r` is left over, and
    with the other chunks those of `ns` come. -/
structure Cut (q c r : Bytes) (chunks : List Bytes) (ms ns : List CallbackMessage) : Prop where
  fits : ∀ m ∈ ms ++ ns, Fits m
  unfinished : Unfinished frame Fits q
  splits : Splits frame Fits ms r (q ++ c)
  rest : r ++ chunks.flatten = stream frame ns

namespace Cut
variable {ps qs : List CallbackMessage}

theorem eq_stream (h : Cut q c r chunks ms ns) : q ++ (c ++ chunks.flatten) = stream frame (ms ++ ns) := by
  rw [← List.append_assoc, h.splits.eq, stream_append, List.append_assoc, h.rest]

theorem length_lt (h : Cut q c r chunks ms ns) (e : ms ++ ns = ps ++ qs) (hne : ps ≠ []) :
    q.length < (stream frame ps).length := by
  have hq := h.eq_stream
  have hok := h.fits
  rw [e] at hq hok
  exact h.unfinished.length_lt_stream prefixCode_frame (fun m hm => hok m (List.mem_append_left _ hm)) hq hne

/-- The end of a frame comes after the first chunk. -/
theorem end_later (h : Cut q c r chunks ms ns) (e : ms ++ ns = ps ++ qs) (hne : ps ≠ []) {cs ds : List Bytes}
    (hcs : c :: chunks = cs ++ ds) (hend : q ++ cs.flatten = stream frame ps) :
    ∃ cs', chunks = cs' ++ ds ∧ stream frame ms ++ (r ++ cs'.flatten) = stream frame ps := by
  cases cs with
  | nil =>
    have := h.length_lt e hne
    rw [← hend, List.flatten_nil, List.append_nil] at this
    exact absurd this (Nat.lt_irrefl _)
  | cons c' cs =>
    obtain ⟨rfl, rfl⟩ := List.cons.inj hcs
    refine ⟨cs, rfl, ?_⟩
    rw [← hend, List.flatten_cons, ← List.append_assoc, ← List.append_assoc, h.splits.eq]

theorem lt_of_aligned (h : Cut q c r chunks ms ns) (ha : Aligned q (c :: chunks) (ms ++ ns)) :
    (q ++ c).length < 2 ^ 31 := by
  obtain ⟨ps, qs, e, hle, hlt⟩ := ha.room [] c chunks rfl
  have hps : ps = [] := by
    by_contra hne
    have := h.length_lt e hne
    simp only [List.flatten_nil, List.append_nil] at hle
    omega
  subst hps
  simpa using hlt

theorem clean_of_aligned (h : Cut q c r chunks ms ns) (ha : Aligned q (c :: chunks) (ms ++ ns)) : Clean ms r := by
  rintro ps p qs rfl hp
  obtain ⟨cs, ds, e, hend⟩ := ha.ends ps p (qs ++ ns) (by simp) hp
  have hpre : (ps ++ p :: qs) ++ ns = (ps ++ [p]) ++ (qs ++ ns) := by simp
  obtain ⟨cs', -, h'⟩ := h.end_later hpre (by simp) e hend
  have hlen := congrArg List.length h'
  simp only [stream_append, stream_cons, stream_nil, List.append_nil, List.length_append] at hlen
  have hqs : stream frame qs = [] := List.length_eq_zero_iff.mp (by omega)
  exact ⟨stream_eq_nil prefixCode_frame (fun m hm => h.fits m (by simp [hm])) hqs, List.length_eq_zero_iff.mp (by omega)⟩

theorem aligned_tail (h : Cut q c r chunks ms ns) (ha : Aligned q (c :: chunks) (ms ++ ns)) : Aligned r chunks ns where
  ends := by
    rintro ps p qs rfl hp
    obtain ⟨cs, ds, e, hend⟩ := ha.ends (ms ++ ps) p qs (by simp) hp
    have hpre : ms ++ (ps ++ p :: qs) = (ms ++ ps ++ [p]) ++ qs := by simp
    obtain ⟨cs', hcs', h'⟩ := h.end_later hpre (by simp) e hend
    refine ⟨cs', ds, hcs', ?_⟩
    rw [List.append_assoc, stream_append] at h'
    exact List.append_cancel_left h'
  room := by
    rintro cs d ds rfl
    obtain ⟨ps, qs, e, hle, hlt⟩ := ha.room (c :: cs) d ds rfl
    have hlen := congrArg List.length h.splits.eq
    simp only [List.length_append, List.cons_append, List.flatten_cons, List.flatten_append] at hle hlt hlen ⊢
    rcases List.append_eq_append_iff.mp e with ⟨u, rfl, rfl⟩ | ⟨u, rfl, rfl⟩
    · -- The boundary is one of those that come later.
      refine ⟨u, qs, rfl, ?_⟩
      rw [stream_append, List.length_append] at hle hlt
      omega
    · refine ⟨[], ns, rfl, ?_⟩
      simp only [stream_append, List.length_append, stream_nil, List.length_nil] at hlen ⊢
      omega

theorem aligned_cons (h : Cut q c r chunks ms ns) (hlt : (q ++ c).length < 2 ^ 31) (hclean : Clean ms r)
    (ha : Aligned r chunks ns) : Aligned q (c :: chunks) (ms ++ ns) where
  ends := by
    have hlater : ∀ {ps : List CallbackMessage} {p : CallbackMessage} {qs : List CallbackMessage}, ns = ps ++ p :: qs →
        p.data ≠ [] → ∃ cs ds, c :: chunks = cs ++ ds ∧ q ++ cs.flatten = stream frame (ms ++ ps ++ [p]) := by
      intro ps p qs e hp
      obtain ⟨cs, ds, rfl, hend⟩ := ha.ends ps p qs e hp
      refine ⟨c :: cs, ds, rfl, ?_⟩
      rw [List.flatten_cons, ← List.append_assoc, h.splits.eq, List.append_assoc, hend, List.append_assoc ms,
        stream_append ms]
    intro ps p qs e hp
    rcases List.append_eq_append_iff.mp e with ⟨u, rfl, hu⟩ | ⟨u, hms, hu⟩
    · exact hlater hu hp
    · cases u with
      | nil =>
        rw [List.append_nil] at hms
        rw [← hms, ← List.append_nil ms]
        exact hlater hu.symm hp
      | cons p' u =>
        obtain ⟨rfl, -⟩ := List.cons.inj hu
        obtain ⟨rfl, hnil⟩ := hclean ps p u hms hp
        refine ⟨[c], chunks, rfl, ?_⟩
        rw [List.flatten_singleton, h.splits.eq, hnil, List.append_nil, hms]
  room := by
    intro cs d ds e
    cases cs with
    | nil =>
      obtain ⟨rfl, rfl⟩ := List.cons.inj e
      refine ⟨[], ms ++ ns, rfl, Nat.zero_le _, ?_⟩
      simpa using hlt
    | cons c' cs =>
      obtain ⟨rfl, rfl⟩ := List.cons.inj e
      obtain ⟨ps, qs, rfl, hle, hlt'⟩ := ha.room cs d ds rfl
      refine ⟨ms ++ ps, qs, by simp, ?_⟩
      have hlen := congrArg List.length h.splits.eq
      simp only [List.length_append, List.cons_append, List.flatten_cons, List.flatten_append, stream_append]
        at hle hlt' hlen ⊢
      omega

theorem aligned_iff (h : Cut q c r chunks ms ns) :
    Aligned q (c :: chunks) (ms ++ ns) ↔ (q ++ c).length < 2 ^ 31 ∧ Clean ms r ∧ Aligned r chunks ns :=
  ⟨fun ha => ⟨h.lt_of_aligned ha, h.clean_of_aligned ha, h.aligned_tail ha⟩,
    fun ⟨hlt, hclean, ha⟩ => h.aligned_cons hlt hclean ha⟩

end Cut

theorem feed_iff {turns : Nat} (hok : ∀ m ∈ rs, Fits m) (h : Compact b q) (hr : Unfinished frame Fits q)
    (hq : q ++ chunks.flatten = stream frame rs) (hturns : rs.length < turns) :
    (∃ b', feed (RWHandler.doReadCallback turns) b chunks = .ok (rs, b')) ↔ Aligned q chunks rs := by
  induction chunks generalizing b q rs with
  | nil =>
    rw [List.flatten_nil, List.append_nil] at hq
    rw [hq] at hr
    obtain rfl := hr.stream_eq_nil prefixCode_frame hok
    subst hq
    exact ⟨fun _ => aligned_nil, fun _ => ⟨b, rfl⟩⟩
  | cons c chunks ih =>
    rw [List.flatten_cons, ← List.append_assoc] at hq
    obtain ⟨ms, ns, r, rfl, hs, hrest⟩ := splits_of_prefix hok hq
    have hokms : ∀ m ∈ ms, Fits m := fun m hm => hok m (List.mem_append_left _ hm)
    have hokns : ∀ m ∈ ns, Fits m := fun m hm => hok m (List.mem_append_right _ hm)
    rw [List.length_append] at hturns
    rw [Cut.aligned_iff ⟨hok, hr, hs, hrest⟩]
    by_cases hc : c = []
    · -- An empty read does nothing.
      subst hc
      rw [List.append_nil] at hs ⊢
      obtain ⟨rfl, rfl⟩ := hs.unique prefixCode_frame (.nil hr)
      have hread : RWHandler.doReadCallback turns b [] = .ok ([], b) := rfl
      rw [List.nil_append, ← ih hokns h hr hrest (by omega), feed_cons_nil hread]
      exact ⟨fun hfeed => ⟨length_lt_of_unfinished hr, clean_nil r, hfeed⟩, fun hfeed => hfeed.2.2⟩
    constructor
    · rintro ⟨b', hfeed⟩
      obtain ⟨ms', b₁, ns', hread, hfeed', e⟩ := feed_cons_eq_ok.mp hfeed
      obtain ⟨b₂, b₃, h₂, hd, hcompact⟩ := drains_of_doReadCallback h hc hread
      rw [e] at hok hq
      obtain ⟨q', h₃, hsplit, hleft⟩ := left_of_drains hd hok h₂ hq
      rw [hsplit, stream_append, List.append_assoc] at hq
      have hrest' := List.append_cancel_left hq
      by_cases hlt : (q ++ c).length < 2 ^ 31
      · obtain ⟨hu, hclean⟩ := hleft.small hlt
        obtain ⟨rfl, rfl⟩ := hs.unique prefixCode_frame ⟨hsplit, fun m hm => hok m (List.mem_append_left _ hm), hu⟩
        obtain rfl := List.append_cancel_left e
        exact ⟨hlt, hclean, (ih hokns (hcompact r h₃) hu hrest (by omega)).mp ⟨b', hfeed'⟩⟩
      · exact absurd hfeed' (not_feed_of_large (fun m hm => hok m (List.mem_append_right _ hm)) (hcompact q' h₃)
          (hleft.large (Nat.not_lt.mp hlt)) hrest' b')
    · rintro ⟨hlt, hclean, hal⟩
      have hms : ms.length < turns := by omega
      obtain ⟨b₁, hread, h₁⟩ :=
        doReadCallback_of_drains h hc hlt (fun b₁ h₁ => drains_of_clean h₁ hs hlt hclean) hms
      obtain ⟨b', hfeed⟩ := (ih hokns h₁ hs.rest hrest (by omega)).mpr hal
      exact ⟨b', feed_cons_eq_ok.mpr ⟨ms, b₁, ns, hread, hfeed, rfl⟩⟩

/-- However often the loop may turn, beyond the number of messages: a handler that reads the frames of
    `pairs` in chunks throws nothing and hands on exactly the pairs if and only if the chunks are
    aligned. -/
theorem doReadCallback_iff (pairs : List CallbackMessage) (chunks : List Bytes) (turns : Nat)
    (hok : ∀ m ∈ pairs, m.data.length + 8 < 2 ^ 31)
    (hc : chunks.flatten = pairs.flatMap fun m => (callbackMessageEncoder m.msgId m.data).data)
    (hturns : pairs.length < turns) :
    (∃ b, feed (RWHandler.doReadCallback turns) {} chunks = .ok (pairs, b)) ↔ Aligned [] chunks pairs :=
  feed_iff hok ⟨ByteBuffer.holds_empty, rfl⟩ (Or.inl rfl) hc hturns

theorem doReadCallback_iff_two :
    (∃ b, feed (RWHandler.doReadCallback 3) {} [[9, 0, 0, 0, 1, 0, 0, 0, 7], [8, 0, 0], [0, 2, 0, 0, 0]] =
        .ok ([⟨1, [7]⟩, ⟨2, []⟩], b)) ↔
      Aligned [] [[9, 0, 0, 0, 1, 0, 0, 0, 7], [8, 0, 0], [0, 2, 0, 0, 0]] [⟨1, [7]⟩, ⟨2, []⟩] :=
  doReadCallback_iff [⟨1, [7]⟩, ⟨2, []⟩] [[9, 0, 0, 0, 1, 0, 0, 0, 7], [8, 0, 0], [0, 2, 0, 0, 0]] 3 (by decide)
    (by decide) (by decide)

/-- Two frames with data that come in one read are not handed on as two messages. -/
theorem not_doReadCallback_coalesced :
    ¬∀ (pairs : List CallbackMessage) (chunks : List Bytes) (turns : Nat), (∀ m ∈ pairs, m.data.length + 8 < 2 ^ 31) →
      chunks.flatten = (pairs.flatMap fun m => (callbackMessageEncoder m.msgId m.data).data) → pairs.length < turns →
      ∃ b, feed (RWHandler.doReadCallback turns) {} chunks = .ok (pairs, b) := by
  intro h
  obtain ⟨b, hfeed⟩ := h [⟨1, [7]⟩, ⟨2, [8]⟩] [[9, 0, 0, 0, 1, 0, 0, 0, 7, 9, 0, 0, 0, 2, 0, 0, 0, 8]] 3 (by decide)
    (by decide) (by decide)
  have hmsgs : ((feed (RWHandler.doReadCallback 3) {} [[9, 0, 0, 0, 1, 0, 0, 0, 7, 9, 0, 0, 0, 2, 0, 0, 0, 8]]).toOption.map
      Prod.fst) = some [⟨1, [7]⟩, ⟨2, [8]⟩] := by
    rw [hfeed]
    rfl
  exact absurd hmsgs (by decide)

end Zylib.StreamServer
