import Zylib.Theorems.VNetwork.ChatMessage
import Zylib.VNetwork.Session

/-! What becomes of the message that a handler has been given a pointer to. All pointers are to the one message that is read
    into, so they hold what it holds: a server clears it before the next header, a client when the next header has been read. -/

namespace Zylib.VNetwork.Session
open LittleEndian Run
open KNet.MessageDecoder (memcpyAt memcpyAt_zeros)
open ChatMessage (body_write body_prepareBody memcpyAt_front)

/-! ### The message -/

theorem holds_iff {m : ChatMessage} (h : m.body.length = m.getBodyLength) (body : Bytes) : Holds m body ↔ body = m.body := by
  unfold Holds
  rw [← h, List.take_length]
  exact ⟨fun h => h.2.symm, fun h => h ▸ ⟨rfl, rfl⟩⟩

/-- A byte of the header leaves the body. -/
theorem body_write_header {m : ChatMessage} {pos : Nat} (h : pos < HEADER_LENGTH) (b : UInt8) :
    (m.write pos [b]).body = m.body := by
  have hpos : (m.buffer.take pos ++ [b]).length = pos + 1 := by
    rw [List.length_append, List.length_take_of_le (Nat.le_of_lt (Nat.lt_of_lt_of_le h m.header))]
    rfl
  have hsplit : HEADER_LENGTH = pos + 1 + (HEADER_LENGTH - (pos + 1)) := by omega
  unfold ChatMessage.body ChatMessage.write memcpyAt
  dsimp only
  rw [hsplit, ← List.drop_drop, List.drop_left' hpos, List.drop_drop]
  rfl

theorem take_write {m : ChatMessage} {arrived : Bytes} (h : m.buffer.take arrived.length = arrived) (b : UInt8) :
    (m.write arrived.length [b]).buffer.take (arrived.length + 1) = arrived ++ [b] := by
  unfold ChatMessage.write memcpyAt
  dsimp only
  rw [h, List.take_left' (by simp)]

theorem decodeHeader_of_announced {m : ChatMessage} {header : Bytes} (hm : m.buffer.take HEADER_LENGTH = header) :
    match announced header with
    | none => m.decodeHeader = (false, m)
    | some n => ∃ m', m.decodeHeader = (true, m') ∧ m'.getBodyLength = n ∧ m'.body = List.replicate n 0 := by
  have htake : m.data.take 4 = header.take 4 := by
    rw [← hm, List.take_take]
    rfl
  unfold announced ChatMessage.decodeHeader
  dsimp only
  rw [htake]
  generalize int32OfBytes (header.take 4) = bodyLen
  by_cases hneg : bodyLen < 0
  · rw [if_pos (.inl hneg)]
    exact if_pos hneg
  · rw [if_neg hneg]
    by_cases hmax : (MAX_BODY_LENGTH : Int) < bodyLen.toInt
    · rw [if_pos (.inr hmax)]
      exact if_pos ⟨by decide, hmax⟩
    · rw [if_neg (not_or.mpr ⟨hneg, hmax⟩), if_neg fun h => hmax h.2]
      have hlen : toSizeT bodyLen.toInt = bodyLen.toInt.toNat := by
        rw [Int32.lt_iff_toInt_lt] at hneg
        exact toSizeT_of_nonneg (Int.not_lt.mp hneg) (by unfold MAX_BODY_LENGTH at hmax; omega)
      refine ⟨_, rfl, hlen, ?_⟩
      rw [body_prepareBody]
      exact congrArg (List.replicate · 0) hlen

/-! ### The outstanding read -/

/-- What has arrived is where it belongs, and the rest of a body is zero. -/
def Arrived (s : Session) : Prop :=
  match s.reading with
  | .header arrived => arrived.length < HEADER_LENGTH ∧ s.readMsg.buffer.take arrived.length = arrived
  | .body arrived => arrived.length < s.readMsg.getBodyLength ∧
      s.readMsg.body = arrived ++ List.replicate (s.readMsg.getBodyLength - arrived.length) 0
  | .closed => True

theorem arrived_doReadHeader (reader : Reader) (s : Session) : Arrived (doReadHeader reader s) := by
  cases reader <;> exact ⟨by decide, rfl⟩

/-- What `DoReadHeader` leaves of a body: all of it at a client, at a server none. -/
theorem stable_doReadHeader_iff (reader : Reader) {s : Session} (h : s.readMsg.body.length = s.readMsg.getBodyLength)
    (hs : s.received ≠ []) :
    Stable (doReadHeader reader s) ↔ Stable s ∧ (reader = .serverSession → s.readMsg.getBodyLength = 0) := by
  cases reader with
  | tcpClient => exact ⟨fun hstable => ⟨hstable, nofun⟩, And.left⟩
  | serverSession =>
    constructor
    · intro hstable
      obtain ⟨body, hmem⟩ := List.exists_mem_of_ne_nil _ hs
      have hnil : ∀ body ∈ s.received, s.readMsg.getBodyLength = 0 ∧ body = [] := by
        intro body hmem
        obtain ⟨hlen, htake⟩ := hstable body hmem
        have hbody : body = [] := htake.symm.trans List.take_nil
        exact ⟨hlen.trans (congrArg List.length hbody), hbody⟩
      have hzero := (hnil body hmem).1
      refine ⟨fun body hmem => (holds_iff h body).mpr ?_, fun _ => hzero⟩
      rw [(hnil body hmem).2, List.eq_nil_of_length_eq_zero (h.trans hzero)]
    · rintro ⟨hstable, hzero⟩ body hmem
      have hbody : body = [] := by
        rw [(holds_iff h body).mp (hstable body hmem), List.eq_nil_of_length_eq_zero (h.trans (hzero rfl))]
      exact ⟨(hzero rfl).trans (congrArg List.length hbody.symm), List.take_nil.trans hbody.symm⟩

theorem stable_onReceived_iff {s : Session} (h : s.readMsg.body.length = s.readMsg.getBodyLength) :
    Stable (s.onReceived s.readMsg.body) ↔ Stable s := by
  refine ⟨fun hstable body hmem => hstable body (List.mem_append_left _ hmem), fun hstable body hmem => ?_⟩
  rcases List.mem_append.mp hmem with hmem | hmem
  · exact hstable body hmem
  · rw [List.mem_singleton.mp hmem]
    exact (holds_iff h _).mpr rfl

/-! ### Steps -/

/-- The message after a header that is taken. -/
theorem stable_onHeader_iff (reader : Reader) {s : Session} {header : Bytes} (hstable : Stable s)
    (hheader : s.readMsg.buffer.take HEADER_LENGTH = header) :
    Stable (onHeader reader s) ↔ ∀ n, announced header = some n → ∀ body ∈ s.received, body = List.replicate n 0 := by
  have hdecode := decodeHeader_of_announced hheader
  cases hn : announced header with
  | none =>
    rw [hn] at hdecode
    unfold onHeader
    rw [show s.readMsg.decodeHeader = _ from hdecode]
    exact iff_of_true hstable nofun
  | some n =>
    rw [hn] at hdecode
    obtain ⟨m, hm, hlen, hbody⟩ := hdecode
    have hm' : m.body.length = m.getBodyLength := by rw [hbody, List.length_replicate, hlen]
    have hzeros : Stable { s with readMsg := m } ↔ ∀ body ∈ s.received, body = List.replicate n 0 := by
      rw [← hbody]
      exact forall₂_congr fun body _ => holds_iff hm' body
    have hforall : (∀ k, some n = some k → ∀ body ∈ s.received, body = List.replicate k 0) ↔
        ∀ body ∈ s.received, body = List.replicate n 0 :=
      ⟨fun h => h n rfl, fun h k hk => Option.some.inj hk ▸ h⟩
    rw [hforall, ← hzeros]
    unfold onHeader
    rw [hm]
    dsimp only
    split
    next hzero =>
      have hnil : m.body = [] := List.eq_nil_of_length_eq_zero (hm'.trans hzero)
      have hreceived := stable_onReceived_iff (s := { s with readMsg := m }) hm'
      rw [show ({ s with readMsg := m } : Session).readMsg.body = [] from hnil] at hreceived
      rw [stable_doReadHeader_iff reader (s := ({ s with readMsg := m } : Session).onReceived []) hm' (by simp [onReceived]),
        hreceived]
      exact and_iff_left fun _ => hzero
    next => exact Iff.rfl

/-- A byte of the body, in a message of which the rest of the body is still zero. -/
theorem body_write_byte {m : ChatMessage} {arrived : Bytes} (b : UInt8) (hlt : arrived.length < m.getBodyLength)
    (hbody : m.body = arrived ++ List.replicate (m.getBodyLength - arrived.length) 0) :
    (m.write (HEADER_LENGTH + arrived.length) [b]).body =
      arrived ++ [b] ++ List.replicate (m.getBodyLength - (arrived.length + 1)) 0 := by
  rw [body_write, hbody]
  exact memcpyAt_zeros rfl (by rw [List.length_singleton]; omega)

theorem stable_write_iff {s : Session} {arrived : Bytes} (reading : Reading) (b : UInt8)
    (hlt : arrived.length < s.readMsg.getBodyLength)
    (hbody : s.readMsg.body = arrived ++ List.replicate (s.readMsg.getBodyLength - arrived.length) 0) (hstable : Stable s) :
    (s.readMsg.write (HEADER_LENGTH + arrived.length) [b]).body.length =
      (s.readMsg.write (HEADER_LENGTH + arrived.length) [b]).getBodyLength ∧
    (Stable { s with readMsg := s.readMsg.write (HEADER_LENGTH + arrived.length) [b], reading } ↔
      (s.received ≠ [] → b = 0)) := by
  have hzeros : List.replicate (s.readMsg.getBodyLength - arrived.length) (0 : UInt8) =
      0 :: List.replicate (s.readMsg.getBodyLength - (arrived.length + 1)) 0 := by
    rw [← List.replicate_succ]
    congr 1
    omega
  have hwrite := body_write_byte b hlt hbody
  have hlen : (s.readMsg.write (HEADER_LENGTH + arrived.length) [b]).body.length = s.readMsg.getBodyLength := by
    rw [hwrite]
    simp only [List.length_append, List.length_singleton, List.length_replicate]
    omega
  have hlen₀ : s.readMsg.body.length = s.readMsg.getBodyLength := by
    rw [hbody, List.length_append, List.length_replicate]
    omega
  refine ⟨hlen, fun h hs => ?_, fun h body hmem => ?_⟩
  · obtain ⟨body, hmem⟩ := List.exists_mem_of_ne_nil _ hs
    have hsame := ((holds_iff hlen₀ body).mp (hstable body hmem)).symm.trans ((holds_iff hlen body).mp (h body hmem))
    rw [hwrite, hbody, hzeros, List.append_assoc] at hsame
    exact (List.cons.inj (List.append_cancel_left hsame)).1.symm
  · refine (holds_iff hlen body).mpr (((holds_iff hlen₀ body).mp (hstable body hmem)).trans ?_)
    rw [hwrite, hbody, hzeros, h (List.ne_nil_of_mem hmem), List.append_assoc]
    rfl

theorem stable_onByte_iff (reader : Reader) {s : Session} (b : UInt8) (harrived : Arrived s) (hstable : Stable s) :
    Stable (onByte reader s b) ↔ (Input.byte b).Leaves reader s := by
  unfold Arrived at harrived
  unfold onByte Input.Leaves
  cases hreading : s.reading with
  | closed => exact iff_of_true hstable trivial
  | header arrived =>
    rw [hreading] at harrived
    obtain ⟨hlt, htake⟩ := harrived
    have hwritten : Stable { s with readMsg := s.readMsg.write arrived.length [b], reading := .header (arrived ++ [b]) } := by
      intro body hmem
      refine ⟨(hstable body hmem).1, ?_⟩
      exact (congrArg _ (body_write_header hlt b)).trans (hstable body hmem).2
    dsimp only
    split
    next hmore => exact iff_of_true hwritten fun h => absurd h (Nat.ne_of_lt hmore)
    next hlast =>
      have hfull : arrived.length + 1 = HEADER_LENGTH := by omega
      have hheader := take_write htake b
      rw [hfull] at hheader
      rw [stable_onHeader_iff reader hwritten hheader]
      exact ⟨fun h _ => h, fun h => h hfull⟩
  | body arrived =>
    rw [hreading] at harrived
    obtain ⟨hlt, hbody⟩ := harrived
    obtain ⟨hlen, hwritten⟩ := stable_write_iff (.body (arrived ++ [b])) b hlt hbody hstable
    have hlen' : (s.readMsg.write (HEADER_LENGTH + arrived.length) [b]).getBodyLength = s.readMsg.getBodyLength := rfl
    dsimp only
    rw [hlen']
    split
    next hmore => exact hwritten.trans (and_iff_left fun _ => Nat.ne_of_lt hmore).symm
    next hlast =>
      have hfull : arrived.length + 1 = s.readMsg.getBodyLength := by omega
      have hall : (s.readMsg.write (HEADER_LENGTH + arrived.length) [b]).body = arrived ++ [b] := by
        rw [body_write_byte b hlt hbody, ← hfull, Nat.sub_self, List.replicate_zero, List.append_nil]
      rw [← hall, stable_doReadHeader_iff reader hlen (by simp [onReceived]), stable_onReceived_iff hlen]
      have hpos : s.readMsg.getBodyLength ≠ 0 := by omega
      exact and_congr hwritten ⟨fun h hserver _ => hpos (h hserver), fun h hserver => absurd hfull (h hserver)⟩

/-! ### Runs -/

theorem arrived_onHeader (reader : Reader) {s : Session} {header : Bytes} (hheader : s.readMsg.buffer.take HEADER_LENGTH = header) :
    Arrived (onHeader reader s) := by
  have hdecode := decodeHeader_of_announced hheader
  unfold onHeader
  cases hn : announced header with
  | none =>
    rw [hn] at hdecode
    rw [show s.readMsg.decodeHeader = _ from hdecode]
    trivial
  | some n =>
    rw [hn] at hdecode
    obtain ⟨m, hm, hlen, hbody⟩ := hdecode
    rw [hm]
    dsimp only
    split
    next => exact arrived_doReadHeader reader _
    next hpos =>
      refine ⟨Nat.pos_of_ne_zero hpos, ?_⟩
      exact hbody.trans (congrArg (List.replicate · 0) hlen.symm)

theorem arrived_onByte (reader : Reader) {s : Session} (b : UInt8) (h : Arrived s) : Arrived (onByte reader s b) := by
  unfold Arrived at h
  unfold onByte
  cases hreading : s.reading with
  | closed =>
    unfold Arrived
    rwa [hreading] at h ⊢
  | header arrived =>
    rw [hreading] at h
    have hheader := take_write h.2 b
    dsimp only
    split
    next hmore => exact ⟨by simpa using hmore, by simpa using hheader⟩
    next hlast =>
      have hfull : arrived.length + 1 = HEADER_LENGTH := by have := h.1; omega
      rw [hfull] at hheader
      exact arrived_onHeader reader hheader
  | body arrived =>
    rw [hreading] at h
    obtain ⟨hlt, hbody⟩ := h
    dsimp only
    split
    next hmore =>
      refine ⟨by simpa using hmore, ?_⟩
      rw [List.length_append]
      exact body_write_byte b hlt hbody
    next => exact arrived_doReadHeader reader _

/-- A pointer that a handler has kept holds its frame for as long as no header and no byte of a body changes what all
    frames so far were, and, where a server reads, none of them had a body. -/
theorem always_stable_iff (reader : Reader) (inputs : List Input) :
    Always (step reader) Stable (start reader) inputs ↔
      Along (step reader) (fun s input => input.Leaves reader s) (start reader) inputs := by
  have hstep : ∀ {s : Session} {input : Input}, Arrived s ∧ Stable s → ∃ t, step reader s input = .ok t ∧ Arrived t ∧
      (Stable t ↔ input.Leaves reader s) := by
    rintro s (b | -) ⟨harrived, hstable⟩
    · exact ⟨_, rfl, arrived_onByte reader b harrived, stable_onByte_iff reader b harrived hstable⟩
    · exact ⟨_, rfl, trivial, iff_of_true hstable trivial⟩
  refine always_iff_along_of (A := fun _ _ => True) (J := fun s => Arrived s ∧ Stable s) And.right ?_ ?_
    ⟨arrived_doReadHeader reader _, ?_⟩ (along_true _ _)
  · intro s input hJ _ hleaves
    obtain ⟨t, ht, harrived, hiff⟩ := hstep hJ
    exact ⟨t, ht, harrived, hiff.mpr hleaves⟩
  · intro s input t hJ _ ht hstable
    obtain ⟨t', ht', -, hiff⟩ := @hstep s input hJ
    cases ht.symm.trans ht'
    exact hiff.mp hstable
  · cases reader <;> exact nofun

/-- A frame of one byte, as it arrives. -/
def frameOfOne (b : UInt8) : List Input := ((1 :: List.replicate 15 0) ++ [b]).map .byte

/-- A client that has received two frames: the pointer to the first holds the second. -/
theorem not_always_stable : ¬ ∀ (reader : Reader) (inputs : List Input), Always (step reader) Stable (start reader) inputs := by
  intro h
  obtain ⟨t, ht, hstable⟩ := (h .tcpClient (frameOfOne 97 ++ frameOfOne 98)).run
  have hread : (run (step .tcpClient) (start .tcpClient) (frameOfOne 97 ++ frameOfOne 98)).map
      (fun s => (s.received, s.readMsg.body)) = .ok ([[97], [98]], [98]) := by rfl
  rw [ht] at hread
  have hreceived : t.received = [[97], [98]] := congrArg Prod.fst (Except.ok.inj hread)
  have hbody : t.readMsg.body = [98] := congrArg Prod.snd (Except.ok.inj hread)
  obtain ⟨hlen, htake⟩ := hstable [97] (hreceived ▸ List.mem_cons_self)
  rw [hbody, hlen] at htake
  exact absurd htake (by decide)

end Zylib.VNetwork.Session
