import Zylib.Lib.Framing
import Zylib.Theorems.VNetwork.Session
import Zylib.VNetwork.Delivery

/-! Readers of frames: what a reader has received of the beginning of a stream, and what it makes of a header and of a body that
    arrive whole. -/

namespace Zylib.VNetwork
open Framing LittleEndian Run
open KNet.MessageDecoder (memcpyAt)

namespace Session
open ChatMessage (head)

variable {reader : Reader} {s : Session}

/-! ### Reading frames -/

/-- A message of `Create`. -/
def frameOf (body : Bytes) : Bytes := head (Int32.ofNat body.length) ++ body

theorem doReadHeader_eq (reader : Reader) (s : Session) :
    (doReadHeader reader s).reading = .header [] ∧ (doReadHeader reader s).received = s.received := by
  cases reader <;> exact ⟨rfl, rfl⟩

theorem prefix_onHeader (reader : Reader) (s : Session) : s.received <+: (onHeader reader s).received := by
  unfold onHeader
  split
  · dsimp only
    split
    · rw [(doReadHeader_eq reader _).2]
      exact List.prefix_append _ _
    · exact List.prefix_rfl
  · exact List.prefix_rfl

theorem prefix_onByte (reader : Reader) (s : Session) (b : UInt8) : s.received <+: (onByte reader s b).received := by
  unfold onByte
  split
  · dsimp only
    split
    · exact List.prefix_rfl
    · exact prefix_onHeader reader { s with readMsg := s.readMsg.write _ [b], reading := .header (_ ++ [b]) }
  · dsimp only
    split
    · exact List.prefix_rfl
    · rw [(doReadHeader_eq reader _).2]
      exact List.prefix_append _ _
  · exact List.prefix_rfl

/-- More bytes take nothing back. -/
theorem prefix_foldl (reader : Reader) (s : Session) (bytes : Bytes) :
    s.received <+: (bytes.foldl (onByte reader) s).received := by
  induction bytes generalizing s with
  | nil => exact List.prefix_rfl
  | cons b bytes ih => exact (prefix_onByte reader s b).trans (ih _)

theorem foldl_closed (reader : Reader) (h : s.reading = .closed) (bytes : Bytes) : bytes.foldl (onByte reader) s = s := by
  induction bytes with
  | nil => rfl
  | cons b bytes ih =>
    have hstep : onByte reader s b = s := by
      unfold onByte
      rw [h]
    rw [List.foldl_cons, hstep, ih]

/-- The last byte of a header calls its handler. -/
theorem read_header (reader : Reader) (arrived rest : Bytes) (hs : s.reading = .header arrived)
    (hbuffer : s.readMsg.buffer.take arrived.length = arrived) (hlen : arrived.length + rest.length = HEADER_LENGTH)
    (hne : rest ≠ []) : ∃ u, rest.foldl (onByte reader) s = onHeader reader u ∧ u.received = s.received ∧
      u.readMsg.buffer.take HEADER_LENGTH = arrived ++ rest := by
  induction rest generalizing s arrived with
  | nil => exact absurd rfl hne
  | cons b rest ih =>
    let t : Session := { s with readMsg := s.readMsg.write arrived.length [b], reading := .header (arrived ++ [b]) }
    have hlength : (arrived ++ [b]).length = arrived.length + 1 := by simp
    rw [List.length_cons, Nat.add_comm _ 1, ← Nat.add_assoc, ← hlength] at hlen
    have htake := take_write hbuffer b
    rw [← hlength] at htake
    cases rest with
    | nil =>
      refine ⟨t, ?_, rfl, ?_⟩
      · simp only [List.foldl_cons, List.foldl_nil, onByte, hs]
        exact if_neg (hlength ▸ hlen ▸ Nat.lt_irrefl _)
      · exact hlen ▸ htake
    | cons c rest =>
      have hstep : onByte reader s b = t := by
        simp only [onByte, hs]
        exact if_pos (by rw [← hlength, ← hlen]; simp)
      rw [List.foldl_cons, hstep]
      obtain ⟨u, hu, hreceived, hheader⟩ := ih (arrived ++ [b]) (s := t) rfl htake hlen (List.cons_ne_nil c rest)
      exact ⟨u, hu, hreceived, by rw [hheader, List.append_assoc]; rfl⟩

/-- The last byte of a body has it received. -/
theorem read_body (reader : Reader) (arrived rest : Bytes) (hs : s.reading = .body arrived)
    (hlen : arrived.length + rest.length = s.readMsg.getBodyLength) (hne : rest ≠ []) :
    ∃ u : Session, rest.foldl (onByte reader) s = doReadHeader reader (u.onReceived (arrived ++ rest)) ∧
      u.received = s.received := by
  induction rest generalizing s arrived with
  | nil => exact absurd rfl hne
  | cons b rest ih =>
    let t : Session :=
      { s with readMsg := s.readMsg.write (HEADER_LENGTH + arrived.length) [b], reading := .body (arrived ++ [b]) }
    have hlength : (arrived ++ [b]).length = arrived.length + 1 := by simp
    rw [List.length_cons, Nat.add_comm _ 1, ← Nat.add_assoc, ← hlength] at hlen
    have hbody : t.readMsg.getBodyLength = (arrived ++ [b]).length + rest.length := hlen.symm
    cases rest with
    | nil =>
      refine ⟨t, ?_, rfl⟩
      simp only [List.foldl_cons, List.foldl_nil, onByte, hs]
      exact if_neg (by rw [hbody, hlength]; exact Nat.lt_irrefl _)
    | cons c rest =>
      have hstep : onByte reader s b = t := by
        simp only [onByte, hs]
        exact if_pos (by rw [hbody, hlength]; simp)
      rw [List.foldl_cons, hstep]
      obtain ⟨u, hu, hreceived⟩ := ih (arrived ++ [b]) rfl hbody.symm (List.cons_ne_nil c rest)
      exact ⟨u, by rw [hu, List.append_assoc]; rfl, hreceived⟩

/-- What the handler makes of the header of a `Create`. -/
theorem onHeader_eq (reader : Reader) {n : Nat} (hlen : n < 2 ^ 31)
    (hheader : s.readMsg.buffer.take HEADER_LENGTH = head (Int32.ofNat n)) :
    if n ≤ MAX_BODY_LENGTH then ∃ m : ChatMessage, m.getBodyLength = n ∧ onHeader reader s =
      if n = 0 then doReadHeader reader ({ s with readMsg := m }.onReceived []) else { s with readMsg := m }.doReadBody
    else onHeader reader s = s.shutdown := by
  have hdecode := ChatMessage.decodeHeader_eq hlen hheader
  unfold onHeader
  rw [hdecode]
  by_cases hmax : n ≤ MAX_BODY_LENGTH
  · rw [if_pos hmax, if_pos hmax]
    have hbody : ({ s.readMsg with bodyLength := Int32.ofNat n }.prepareBody n).getBodyLength = n :=
      ChatMessage.getBodyLength_ofNat rfl hlen
    exact ⟨_, hbody, by dsimp only; rw [hbody]⟩
  · rw [if_neg hmax, if_neg hmax]

/-- A frame is received if its body is short, and else closes the reader. -/
theorem read_frame (reader : Reader) {body : Bytes} (hlen : body.length < 2 ^ 31) (hs : s.reading = .header []) :
    if short body then ((frameOf body).foldl (onByte reader) s).reading = .header [] ∧
      ((frameOf body).foldl (onByte reader) s).received = s.received ++ [body]
    else ((frameOf body).foldl (onByte reader) s).reading = .closed ∧
      ((frameOf body).foldl (onByte reader) s).received = s.received := by
  have hhead := ChatMessage.length_head (Int32.ofNat body.length)
  obtain ⟨u, hu, hreceived, hheader⟩ := read_header reader [] (head (Int32.ofNat body.length)) hs rfl
    ((Nat.zero_add _).trans hhead) fun h => by rw [h] at hhead; cases hhead
  have hhandler := onHeader_eq reader hlen hheader
  unfold frameOf short
  rw [List.foldl_append, hu, ← hreceived]
  by_cases hmax : body.length ≤ MAX_BODY_LENGTH
  · rw [if_pos hmax] at hhandler
    obtain ⟨m, hm, hhandler⟩ := hhandler
    rw [if_pos (decide_eq_true hmax), hhandler]
    by_cases hnil : body = []
    · rw [if_pos (List.length_eq_zero_iff.mpr hnil), hnil]
      exact doReadHeader_eq reader _
    · rw [if_neg fun h => hnil (List.length_eq_zero_iff.mp h)]
      obtain ⟨v, hv, hr⟩ := read_body reader [] body (s := doReadBody { u with readMsg := m }) rfl
        ((Nat.zero_add _).trans hm.symm) hnil
      have hread := doReadHeader_eq reader (v.onReceived ([] ++ body))
      rw [hv]
      exact ⟨hread.1, hread.2.trans (congrArg (· ++ [body]) hr)⟩
  · rw [if_neg hmax] at hhandler
    rw [if_neg (by simpa using hmax), hhandler, foldl_closed reader rfl]
    exact ⟨rfl, rfl⟩

/-- Of a stream of frames the reader receives the bodies before the first that is not short. -/
theorem read_stream (reader : Reader) {bodies : List Bytes} (hlen : ∀ body ∈ bodies, body.length < 2 ^ 31)
    (hs : s.reading = .header []) :
    ((stream frameOf bodies).foldl (onByte reader) s).received = s.received ++ bodies.takeWhile short := by
  induction bodies generalizing s with
  | nil => exact (List.append_nil _).symm
  | cons body bodies ih =>
    have hframe := read_frame reader (hlen body List.mem_cons_self) hs
    rw [stream_cons, List.foldl_append, List.takeWhile_cons]
    split at hframe
    · rw [if_pos ‹_›, ih (fun b hb => hlen b (List.mem_cons_of_mem _ hb)) hframe.1, hframe.2, List.append_assoc]
      rfl
    · rw [if_neg ‹_›, foldl_closed reader hframe.1, hframe.2, List.append_nil]

theorem reading_start (reader : Reader) : (start reader).reading = .header [] ∧ (start reader).received = [] := by
  cases reader <;> exact ⟨rfl, rfl⟩

/-- What a reader that has the beginning of a stream has received, and what it has received of the whole of it. -/
theorem received_read (reader : Reader) {bodies : List Bytes} (hlen : ∀ body ∈ bodies, body.length < 2 ^ 31) {bytes : Bytes}
    (h : bytes <+: stream frameOf bodies) : (read reader bytes).received <+: bodies.takeWhile short ∧
      (bytes = stream frameOf bodies → (read reader bytes).received = bodies.takeWhile short) := by
  have hall := read_stream reader hlen (reading_start reader).1
  rw [(reading_start reader).2, List.nil_append] at hall
  refine ⟨?_, fun heq => heq ▸ hall⟩
  obtain ⟨rest, hrest⟩ := h
  rw [← hall, ← hrest, List.foldl_append]
  exact prefix_foldl reader _ rest

theorem read_append (reader : Reader) (xs ys : Bytes) : read reader (xs ++ ys) = ys.foldl (onByte reader) (read reader xs) :=
  List.foldl_append

/-- A header that arrives whole. -/
theorem read_announced (reader : Reader) {input bytes : Bytes} (hs : (read reader input).reading = .header [])
    (hlen : bytes.length = HEADER_LENGTH) :
    match announced bytes with
    | none => (read reader (input ++ bytes)).received = (read reader input).received
    | some n =>
      if n = 0 then (read reader (input ++ bytes)).reading = .header [] ∧
        (read reader (input ++ bytes)).received = (read reader input).received ++ [[]]
      else (read reader (input ++ bytes)).reading = .body [] ∧ (read reader (input ++ bytes)).readMsg.getBodyLength = n ∧
        (read reader (input ++ bytes)).received = (read reader input).received := by
  obtain ⟨u, hu, hreceived, hheader⟩ := read_header reader [] bytes hs rfl ((Nat.zero_add _).trans hlen)
    fun h => by rw [h] at hlen; cases hlen
  have hdecode := decodeHeader_of_announced hheader
  rw [read_append, hu, ← hreceived, onHeader]
  cases hn : announced bytes with
  | none =>
    rw [List.nil_append, hn] at hdecode
    rw [show u.readMsg.decodeHeader = _ from hdecode]
    rfl
  | some n =>
    rw [List.nil_append, hn] at hdecode
    obtain ⟨m, hm, hbody, -⟩ := hdecode
    rw [hm]
    dsimp only
    rw [hbody]
    by_cases hzero : n = 0
    · rw [if_pos hzero, if_pos hzero]
      exact doReadHeader_eq reader _
    · rw [if_neg hzero, if_neg hzero]
      exact ⟨rfl, hbody, rfl⟩

/-- A body that arrives whole. -/
theorem read_whole (reader : Reader) {input bytes : Bytes} (hs : (read reader input).reading = .body [])
    (hlen : bytes.length = (read reader input).readMsg.getBodyLength) (hne : bytes ≠ []) :
    (read reader (input ++ bytes)).reading = .header [] ∧
      (read reader (input ++ bytes)).received = (read reader input).received ++ [bytes] := by
  obtain ⟨u, hu, hreceived⟩ := read_body reader [] bytes hs ((Nat.zero_add _).trans hlen) hne
  have hread := doReadHeader_eq reader (u.onReceived ([] ++ bytes))
  rw [read_append, hu]
  exact ⟨hread.1, hread.2.trans (congrArg (· ++ [bytes]) hreceived)⟩

end Session

end Zylib.VNetwork
