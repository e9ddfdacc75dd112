import Zylib.Nel.TSock
import Zylib.Lib.Framing
import Zylib.Theorems.ByteBuffer

/-! What a `TSock` passes on of a stream of frames. The bytes that the decoder takes off its copy of the
    buffer stay in the socket's own, so each further read passes on once more every frame received so
    far. -/

namespace Zylib.Nel
open Framing
open ByteBuffer (Holds Compact)

variable {β : Type} {enc : β → Bytes} {ok : β → Prop} {decoder : ByteToMessageCallback β}

/-- The decoder puts out the complete frames at the front of the buffer it is given and takes exactly
    their bytes off it. -/
def Decodes (enc : β → Bytes) (ok : β → Prop) (decoder : ByteToMessageCallback β) : Prop :=
  ∀ b ms r, Splits enc ok ms r b.unread → (decoder b).1 = ms ∧ (decoder b).2.unread = r

/-- There is such a decoder only for frames that can be told apart. -/
theorem Decodes.prefixCode (h : Decodes enc ok decoder) : PrefixCode enc ok := by
  have hgives : ∀ {ms ns : List β} {r s q : Bytes}, Splits enc ok ms r q → Splits enc ok ns s q → ms = ns := by
    intro ms ns r s q h₁ h₂
    have hq : ByteBuffer.unread { wpos := q.length, storage := q } = q := by simp [ByteBuffer.unread]
    rw [← hq] at h₁ h₂
    exact (h _ _ _ h₁).1.symm.trans (h _ _ _ h₂).1
  have hone : ∀ {m}, ok m → Splits enc ok [m] [] (enc m) := fun hm => ⟨by simp, by simpa using hm, Or.inl rfl⟩
  constructor
  · intro m hm hnil
    have := hone hm
    rw [hnil] at this
    cases hgives this (.nil (Or.inl rfl))
  · rintro m n hm hn ⟨t, ht⟩
    by_cases hnil : t = []
    · subst hnil
      rw [List.append_nil] at ht
      have := hone hm
      rw [ht] at this
      exact (List.cons.inj (hgives this (hone hn))).1
    · -- The frame of `m` would be both complete and a part of a frame.
      cases hgives (hone hm) (.nil (Or.inr ⟨n, t, hn, hnil, ht.symm⟩))

variable {sock : TSock} {q c : Bytes} {ms : List β} {chunks : List Bytes}

/-- A read appends the chunk and passes on the complete frames of everything received so far. -/
theorem doRead_run (hd : Decodes enc ok decoder) (h : Compact sock.byteBuf q) (hc : c ≠ [])
    (hfit : (q ++ c).length ≤ vectorMaxSize) {r : Bytes} (hs : Splits enc ok ms r (q ++ c)) :
    ∃ byteBuf, sock.doRead decoder c = .ok (ms.map fun msg => ⟨sock.sockHdl, msg⟩, { sock with byteBuf }) ∧
      Compact byteBuf (q ++ c) := by
  have hroom : sock.byteBuf.wpos + c.length ≤ vectorMaxSize := by
    rwa [h.wpos, ← List.length_append]
  have h' := h.append c
  rw [← h'.holds.unread] at hs
  refine ⟨_, ?_, h'⟩
  simp only [TSock.doRead, gt_iff_lt, List.length_pos_iff.mpr hc, if_true, h.holds.append_run c hroom, (hd _ _ _ hs).1]

theorem doRead_full (h : Compact sock.byteBuf q) (hc : c ≠ []) (hfit : ¬(q ++ c).length ≤ vectorMaxSize) :
    sock.doRead decoder c = .error .lengthError := by
  have hroom : vectorMaxSize < sock.byteBuf.wpos + c.length := by
    rw [h.wpos, ← List.length_append]
    exact Nat.lt_of_not_le hfit
  simp [TSock.doRead, List.length_pos_iff.mpr hc, Holds.append_lengthError _ hc hroom]

theorem feed_empty (h : ∀ c ∈ chunks, c = []) (sock : TSock) : feed (TSock.doRead decoder) sock chunks = .ok ([], sock) := by
  induction chunks with
  | nil => rfl
  | cons c chunks ih =>
    obtain rfl : c = [] := h c List.mem_cons_self
    exact feed_cons_eq_ok.mpr ⟨[], sock, [], rfl, ih fun d hd => h d (List.mem_cons_of_mem _ hd), rfl⟩

/-- If a byte is still to come, the reads pass on at least as many messages as the whole stream has. -/
theorem length_le_of_feed (hd : Decodes enc ok decoder) (hok : ∀ m ∈ ms, ok m) (h : Compact sock.byteBuf q)
    (hq : q ++ chunks.flatten = stream enc ms) (hmore : ¬∀ c ∈ chunks, c = []) {out : List (NetworkMessage β)} {t : TSock}
    (hfeed : feed (TSock.doRead decoder) sock chunks = .ok (out, t)) : ms.length ≤ out.length := by
  induction chunks generalizing sock q out with
  | nil => exact absurd (fun c hc => by cases hc) hmore
  | cons c chunks ih =>
    obtain ⟨out₁, sock₁, out₂, hread, hrest, rfl⟩ := feed_cons_eq_ok.mp hfeed
    rw [List.flatten_cons, ← List.append_assoc] at hq
    by_cases hc : c = []
    · subst hc
      cases hread
      rw [List.append_nil] at hq
      exact ih h hq (fun hall => hmore (List.forall_mem_cons.mpr ⟨rfl, hall⟩)) hrest
    · by_cases hfit : (q ++ c).length ≤ vectorMaxSize
      · obtain ⟨ms₁, ms₂, r, rfl, hs, hr⟩ := splits_of_prefix hok hq
        obtain ⟨byteBuf, hrun, h₁⟩ := doRead_run hd h hc hfit hs
        rw [hrun] at hread
        cases hread
        by_cases hend : ∀ d ∈ chunks, d = []
        · -- Nothing more comes, so this read passes on the whole stream.
          have hnil : chunks.flatten = [] := List.flatten_eq_nil_iff.mpr hend
          rw [hnil, List.append_nil] at hr
          have hokms₂ : ∀ m ∈ ms₂, ok m := fun m hm => hok m (List.mem_append_right _ hm)
          have hms₂ : ms₂ = [] := Unfinished.stream_eq_nil hd.prefixCode hokms₂ (hr ▸ hs.rest)
          simp [hms₂]
        · exact Nat.le_trans (ih h₁ hq hend hrest) (by simp)
      · rw [doRead_full h hc hfit] at hread
        cases hread

/-- Whenever a byte arrives, what came before it does not contain the whole first frame. -/
def FirstFrameLast (enc : β → Bytes) (q : Bytes) (chunks : List Bytes) (ms : List β) : Prop :=
  ∀ m, ms.head? = some m → ∀ cs c ds, chunks = cs ++ c :: ds → c ≠ [] → (q ++ cs.flatten).length < (enc m).length

theorem firstFrameLast_cons_iff (hok : ∀ m ∈ ms, ok m) (code : PrefixCode enc ok) (hr : Unfinished enc ok q) {t : Bytes}
    (hq : q ++ t = stream enc ms) :
    FirstFrameLast enc q (c :: chunks) ms ↔ FirstFrameLast enc (q ++ c) chunks ms := by
  constructor
  · rintro h m hm cs d ds rfl hd
    have := h m hm (c :: cs) d ds rfl hd
    rwa [List.flatten_cons, ← List.append_assoc] at this
  · intro h m hm cs d ds e hd
    obtain ⟨ms', rfl⟩ : ∃ ms', ms = m :: ms' := by
      cases ms with
      | nil => cases hm
      | cons n ms' => exact ⟨ms', by cases hm; rfl⟩
    cases cs with
    | nil =>
      have hone : ∀ n ∈ [m], ok n := fun n hn => hok n (by simp at hn; simp [hn])
      have hlt : q.length < (stream enc [m]).length := hr.length_lt_stream code hone hq (List.cons_ne_nil m [])
      simpa using hlt
    | cons c' cs =>
      obtain ⟨rfl, rfl⟩ := List.cons.inj e
      have := h m hm cs d ds rfl hd
      rwa [List.append_assoc] at this

def FitsBuffer (q : Bytes) (chunks : List Bytes) : Prop :=
  chunks.flatten ≠ [] → (q ++ chunks.flatten).length ≤ vectorMaxSize

theorem fitsBuffer_cons_iff (hc : c ≠ []) :
    FitsBuffer q (c :: chunks) ↔ (q ++ c).length ≤ vectorMaxSize ∧ FitsBuffer (q ++ c) chunks := by
  have hne : (c :: chunks).flatten ≠ [] := by simp [hc]
  unfold FitsBuffer
  rw [List.flatten_cons] at hne ⊢
  rw [← List.append_assoc]
  constructor
  · intro h
    have hall := h hne
    refine ⟨?_, fun _ => hall⟩
    simp only [List.length_append] at hall ⊢
    omega
  · rintro ⟨hfit, h⟩ -
    by_cases hnil : chunks.flatten = []
    · rwa [hnil, List.append_nil]
    · exact h hnil

theorem firstFrameLast_of_complete {m : β} {r : Bytes} (hs : Splits enc ok (m :: ms) r q) (ns : List β) :
    FirstFrameLast enc q chunks (m :: ms ++ ns) ↔ ∀ d ∈ chunks, d = [] := by
  constructor
  · intro h d hd
    by_contra hne
    obtain ⟨cs, ds, rfl⟩ := List.append_of_mem hd
    have := h m rfl cs d ds rfl hne
    rw [hs.eq, stream_cons] at this
    simp only [List.length_append] at this
    omega
  · rintro h n - cs d ds rfl hd
    exact absurd (h d (by simp)) hd

/-- Once the first frame is complete it is passed on with every byte that arrives. -/
theorem feed_iff_of_complete (hd : Decodes enc ok decoder) (hok : ∀ m ∈ ms, ok m) (hc : c ≠ [])
    (hfit : (q ++ c).length ≤ vectorMaxSize) (h : Compact sock.byteBuf q) (hq : (q ++ c) ++ chunks.flatten = stream enc ms)
    {ns₁ ns₂ : List β} {r : Bytes} (hms : ms = ns₁ ++ ns₂) (hne : ns₁ ≠ []) (hs : Splits enc ok ns₁ r (q ++ c)) :
    (∃ t, feed (TSock.doRead decoder) sock (c :: chunks) = .ok (ms.map fun msg => ⟨sock.sockHdl, msg⟩, t)) ↔
      ∀ d ∈ chunks, d = [] := by
  obtain ⟨byteBuf, hrun, h₁⟩ := doRead_run hd h hc hfit hs
  constructor
  · rintro ⟨t, hfeed⟩
    by_contra hmore
    obtain ⟨_, _, out, hread, hrest, e⟩ := feed_cons_eq_ok.mp hfeed
    rw [hrun] at hread
    cases hread
    have hlen := length_le_of_feed hd hok h₁ hq hmore hrest
    have hpos := List.length_pos_iff.mpr hne
    have := congrArg List.length e
    simp only [List.length_map, List.length_append] at this
    omega
  · intro hend
    have hrest : r = stream enc ns₂ := by
      have := hq
      rw [List.flatten_eq_nil_iff.mpr hend, List.append_nil, hs.eq, hms, stream_append] at this
      exact List.append_cancel_left this
    have hokns₂ : ∀ m ∈ ns₂, ok m := fun m hm => hok m (by rw [hms]; exact List.mem_append_right _ hm)
    obtain rfl : ns₂ = [] := Unfinished.stream_eq_nil hd.prefixCode hokns₂ (hrest ▸ hs.rest)
    rw [List.append_nil] at hms
    subst hms
    exact ⟨_, feed_cons_eq_ok.mpr ⟨_, _, [], hrun, feed_empty hend _, by simp⟩⟩

/-- From a socket with a part of a frame on, the reads pass on the messages of the stream if and only if
    bytes arrive only as long as the first frame is not complete. -/
theorem feed_iff (hd : Decodes enc ok decoder) (hok : ∀ m ∈ ms, ok m) (h : Compact sock.byteBuf q)
    (hr : Unfinished enc ok q) (hq : q ++ chunks.flatten = stream enc ms) :
    (∃ t, feed (TSock.doRead decoder) sock chunks = .ok (ms.map fun msg => ⟨sock.sockHdl, msg⟩, t)) ↔
      FirstFrameLast enc q chunks ms ∧ FitsBuffer q chunks := by
  induction chunks generalizing sock q with
  | nil =>
    rw [List.flatten_nil, List.append_nil] at hq
    subst hq
    obtain rfl := hr.stream_eq_nil hd.prefixCode hok
    exact ⟨fun _ => ⟨fun m hm => (by cases hm), fun hne => absurd rfl hne⟩, fun _ => ⟨sock, rfl⟩⟩
  | cons c chunks ih =>
    rw [firstFrameLast_cons_iff hok hd.prefixCode hr hq]
    by_cases hc : c = []
    · subst hc
      have hread : sock.doRead decoder [] = .ok ([], sock) := rfl
      have hfits : FitsBuffer q ([] :: chunks) ↔ FitsBuffer q chunks := Iff.rfl
      rw [List.flatten_cons, List.nil_append] at hq
      rw [feed_cons_nil hread, ih h hr hq, List.append_nil, hfits]
    rw [fitsBuffer_cons_iff hc]
    by_cases hfit : (q ++ c).length ≤ vectorMaxSize
    swap
    · constructor
      · rintro ⟨t, hfeed⟩
        obtain ⟨_, _, _, hread, -, -⟩ := feed_cons_eq_ok.mp hfeed
        rw [doRead_full h hc hfit] at hread
        cases hread
      · rintro ⟨-, hmax, -⟩
        exact absurd hmax hfit
    rw [List.flatten_cons, ← List.append_assoc] at hq
    obtain ⟨ms₁, ms₂, r, hms, hs, -⟩ := splits_of_prefix hok hq
    cases ms₁ with
    | nil =>
      -- The first frame is not yet complete.
      obtain rfl : q ++ c = r := by simpa using hs.eq
      obtain ⟨byteBuf, hrun, h₁⟩ := doRead_run hd h hc hfit hs
      have h₁' : Compact ({ sock with byteBuf } : TSock).byteBuf (q ++ c) := h₁
      rw [and_iff_right hfit, feed_cons_nil hrun, ← ih h₁' hs.rest hq]
    | cons m ms₁ =>
      rw [feed_iff_of_complete hd hok hc hfit h hq hms (List.cons_ne_nil m ms₁) hs, hms, firstFrameLast_of_complete hs]
      exact ⟨fun hend => ⟨hend, hfit, fun hne => absurd (List.flatten_eq_nil_iff.mpr hend) hne⟩, And.left⟩

def byteDecoder : ByteToMessageCallback UInt8 := fun b => (b.unread, { b with rpos := b.wpos })

theorem byteDecoder_decodes : Decodes (fun m : UInt8 => [m]) (fun _ => True) byteDecoder := by
  intro b ms r hs
  have hr : r = [] := by
    rcases hs.rest with h | ⟨m, t, -, ht, e⟩
    · exact h
    · have hlen := congrArg List.length e
      have hpos := List.length_pos_iff.mpr ht
      rw [List.length_append, List.length_singleton] at hlen
      exact List.length_eq_zero_iff.mp (by omega)
  subst hr
  have hms : ms = b.unread := by
    rw [hs.eq, List.append_nil]
    exact (List.flatMap_singleton' ms).symm
  refine ⟨hms.symm, List.drop_eq_nil_of_le ?_⟩
  exact List.length_take_le _ _

/-- A socket with a decoder of frames that reads a stream of frames in chunks passes on exactly the
    frames if and only if no byte arrives after the first frame is complete; the stream has to fit in a
    vector. -/
theorem doRead_iff (hd : Decodes enc ok decoder) (sockHdl : Nat) (ms : List β) (hok : ∀ m ∈ ms, ok m)
    (chunks : List Bytes) (hc : chunks.flatten = ms.flatMap enc) :
    (∃ t, feed (TSock.doRead decoder) { sockHdl } chunks = .ok (ms.map fun msg => ⟨sockHdl, msg⟩, t)) ↔
      FirstFrameLast enc [] chunks ms ∧ FitsBuffer [] chunks :=
  feed_iff hd hok .empty (Or.inl rfl) hc

theorem doRead_iff_one_read :
    (∃ t, feed (TSock.doRead byteDecoder) { sockHdl := 0 } [[5, 6], []] = .ok ([5, 6].map fun msg => ⟨0, msg⟩, t)) ↔
      FirstFrameLast (fun m : UInt8 => [m]) [] [[5, 6], []] [5, 6] ∧ FitsBuffer [] [[5, 6], []] :=
  doRead_iff byteDecoder_decodes 0 [5, 6] (by simp) [[5, 6], []] (by decide)

/-- Of two frames that come in two reads, the first is passed on twice. -/
theorem not_doRead_two_reads :
    ¬∀ (enc : UInt8 → Bytes) (ok : UInt8 → Prop) (decoder : ByteToMessageCallback UInt8), Decodes enc ok decoder →
      ∀ (ms : List UInt8) (chunks : List Bytes), (∀ m ∈ ms, ok m) → chunks.flatten = ms.flatMap enc →
        ∃ t, feed (TSock.doRead decoder) { sockHdl := 0 } chunks = .ok (ms.map fun msg => ⟨0, msg⟩, t) := by
  intro h
  obtain ⟨t, hfeed⟩ := h _ _ _ byteDecoder_decodes [5, 6] [[5], [6]] (by simp) (by decide)
  have hmsgs : ((feed (TSock.doRead byteDecoder) { sockHdl := 0 } [[5], [6]]).toOption.map Prod.fst) =
      some [⟨0, 5⟩, ⟨0, 6⟩] := by
    rw [hfeed]
    rfl
  exact absurd hmsgs (by decide)

end Zylib.Nel
