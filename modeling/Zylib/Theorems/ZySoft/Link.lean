import Zylib.Theorems.ZySoft.Channel
import Zylib.Theorems.ZySoft.Received
import Zylib.ZySoft.Link

/-! What one channel sends is what the other receives. The bytes taken of the writes begin the stream of the messages handed to
    `async_write`; the bytes that have arrived are the messages received, what the read buffer holds and what has just been read. -/

namespace Zylib.ZySoft.ChannelState
open Run Framing

variable {c d : ChannelState}

/-! ### What leaves the writes alone -/

structure SameWrites (c d : ChannelState) : Prop where
  writes : d.writes = c.writes
  buffer : d.writeBuffer = c.writeBuffer
  handed : d.handed = c.handed
  sent : d.sent = c.sent

theorem SameWrites.trans {e : ChannelState} (h : SameWrites c d) (h' : SameWrites d e) : SameWrites c e :=
  ⟨h'.writes.trans h.writes, h'.buffer.trans h.buffer, h'.handed.trans h.handed, h'.sent.trans h.sent⟩

theorem SameWrites.of_eq {e : ChannelState} (h : SameWrites c d) (hwrites : c.writes = e.writes)
    (hbuffer : c.writeBuffer = e.writeBuffer) (hhanded : c.handed = e.handed) (hsent : c.sent = e.sent) : SameWrites e d :=
  ⟨h.writes.trans hwrites, h.buffer.trans hbuffer, h.handed.trans hhanded, h.sent.trans hsent⟩

theorem doClosed_writes {type : CloseType} (h : c.doClosed type = .ok d) : SameWrites c d := by
  unfold doClosed at h
  split at h
  · split at h <;> cases h
    exact ⟨rfl, rfl, rfl, rfl⟩
  · cases h
    exact ⟨rfl, rfl, rfl, rfl⟩

theorem doRead_writes (h : c.doRead = .ok d) : SameWrites c d := by
  obtain ⟨timers, made, htimer⟩ := createTimer_eq c c.opt.readTimeoutSeconds true
  unfold doRead at h
  simp only [htimer] at h
  split at h <;> cases h
  exact ⟨rfl, rfl, rfl, rfl⟩

theorem tryDecode_writes (c : ChannelState) (decode : FlatBuffer → List Message × FlatBuffer) :
    SameWrites c (c.tryDecode decode) := by
  unfold tryDecode
  dsimp only
  split <;> exact ⟨rfl, rfl, rfl, rfl⟩

theorem runRead_writes {decode : FlatBuffer → List Message × FlatBuffer} {number : Nat} (h : c.runRead decode number = .ok d) :
    SameWrites c d := by
  unfold runRead at h
  split at h
  · cases h
  · split at h
    · cases h
    · unfold readHandler at h
      dsimp only at h
      split at h
      · exact (doClosed_writes h).of_eq rfl rfl rfl rfl
      · exact ((tryDecode_writes _ decode).trans (doRead_writes h)).of_eq rfl rfl rfl rfl

theorem runTimer_writes {number : Nat} (h : c.runTimer number = .ok d) : SameWrites c d := by
  unfold runTimer at h
  split at h
  · cases h
  · dsimp only at h
    split at h
    · cases h
    · cases h
      exact ⟨rfl, rfl, rfl, rfl⟩
    · exact (doClosed_writes h).of_eq rfl rfl rfl rfl

theorem readEnds_writes {number : Nat} {ec : ErrorCode} {bytes : Bytes} (h : c.readEnds number ec bytes = .ok d) :
    SameWrites c d := by
  unfold readEnds at h
  split at h
  · cases h
  · split at h <;> cases h
    exact ⟨rfl, rfl, rfl, rfl⟩

theorem timerExpires_writes {number : Nat} (h : c.timerExpires number = .ok d) : SameWrites c d := by
  unfold timerExpires at h
  split at h
  · cases h
  · split at h <;> cases h
    exact ⟨rfl, rfl, rfl, rfl⟩

theorem shutdown_writes (c : ChannelState) : SameWrites c c.shutdown := by
  unfold shutdown
  split <;> exact ⟨rfl, rfl, rfl, rfl⟩

/-! ### What the stack has taken -/

/-- Of the write under way `progress` bytes have been taken, of the others all, unless one of them has failed: then none follows. -/
structure Taken (c : ChannelState) (progress : Nat) (wire : Bytes) : Prop where
  idle : c.writes = [] → progress = 0 ∧
    (wire = stream Message.bytes c.handed ∨ c.writeBuffer ≠ [] ∧ wire <+: stream Message.bytes c.handed)
  busy : ∀ w ∈ c.writes, ∃ pre, c.handed = pre ++ [w.msg] ∧
    wire = stream Message.bytes pre ++ w.msg.bytes.take progress ∧ progress ≤ w.msg.length ∧
    ∀ length, w.outcome = some (0, length) → progress = w.msg.length

variable {progress : Nat} {wire : Bytes}

theorem Taken.of_eq (h : Taken c progress wire) (hwrites : d.writes = c.writes) (hbuffer : d.writeBuffer = c.writeBuffer)
    (hhanded : d.handed = c.handed) : Taken d progress wire := by
  refine ⟨fun hw => ?_, fun w hw => ?_⟩
  · rw [hbuffer, hhanded]
    exact h.idle (hwrites.symm.trans hw)
  · rw [hhanded]
    exact h.busy w (hwrites ▸ hw)

theorem Taken.of_same (h : Taken c progress wire) (hs : SameWrites c d) : Taken d progress wire :=
  h.of_eq hs.writes hs.buffer hs.handed

theorem doWrite_spec (h : c.doWrite = .ok d) : ∃ node rest w, c.writeBuffer = node :: rest ∧ w.msg = node.msg ∧
    w.outcome = none ∧ d.writes = c.writes ++ [w] ∧ d.handed = c.handed ++ [node.msg] := by
  obtain ⟨timers, made, htimer⟩ := createTimer_eq c c.opt.writeTimeoutSeconds false
  unfold doWrite at h
  simp only [htimer] at h
  split at h
  · cases h
  · split at h
    · cases h
    · rename_i node rest hbuffer
      cases h
      exact ⟨node, rest, _, hbuffer, rfl, rfl, rfl, rfl⟩

/-- A write begins when all before it has been taken. -/
theorem doWrite_taken (h : c.doWrite = .ok d) (hwrites : c.writes = []) (hwire : wire = stream Message.bytes c.handed) :
    Taken d 0 wire := by
  obtain ⟨node, rest, w, hbuffer, hmsg, houtcome, hw, hhanded⟩ := doWrite_spec h
  rw [hwrites, List.nil_append] at hw
  refine ⟨fun hnil => (by rw [hw] at hnil; cases hnil), fun w' hw' => ?_⟩
  rw [hw] at hw'
  obtain rfl := List.mem_singleton.mp hw'
  refine ⟨c.handed, by rw [hhanded, hmsg], by rw [hwire, List.take_zero, List.append_nil], Nat.zero_le _, ?_⟩
  intro length hlength
  rw [houtcome] at hlength
  cases hlength

theorem sendHandler_taken {msg : Message} (hs : c.sendHandler msg = .ok d) (hinv : Writing c) (h : Taken c progress wire) :
    Taken d progress wire := by
  unfold sendHandler at hs
  dsimp only at hs
  split at hs
  · rename_i hempty
    have hempty : c.writeBuffer = [] := Classical.not_not.mp hempty
    have hwrites : c.writes = [] := by
      rcases hinv with hwrites | ⟨w, rest, -, hbuffer⟩
      · exact hwrites
      · rw [hempty] at hbuffer
        cases hbuffer
    obtain ⟨rfl, hwire⟩ := h.idle hwrites
    have hwire : wire = stream Message.bytes c.handed := hwire.resolve_right fun hne => hne.1 hempty
    exact doWrite_taken hs hwrites hwire
  · cases hs
    refine ⟨fun hwrites => ?_, h.busy⟩
    obtain ⟨hprogress, hwire⟩ := h.idle hwrites
    exact ⟨hprogress, hwire.imp_right fun hne => ⟨by simp, hne.2⟩⟩

theorem runPosted_taken (hinv : Inv c) (h : Taken c progress wire) (hs : c.runPosted = .ok d) : Taken d progress wire := by
  unfold runPosted at hs
  split at hs
  · cases hs
  · exact sendHandler_taken hs hinv.writing (h.of_eq rfl rfl rfl)
  · exact h.of_same ((doClosed_writes hs).of_eq rfl rfl rfl rfl)

/-- A write ends with success when it has been taken. -/
theorem writeEnds_taken {number : Nat} {ec : ErrorCode} {length : Nat} (h : Taken c progress wire)
    (hall : ec = 0 → ∀ w ∈ c.writes, progress = w.msg.length) (hs : c.writeEnds number ec length = .ok d) :
    Taken d progress wire := by
  unfold writeEnds at hs
  split at hs
  · cases hs
  · split at hs <;> cases hs
    refine ⟨fun hwrites => h.idle (List.map_eq_nil_iff.mp hwrites), fun w hw => ?_⟩
    obtain ⟨w', hw', rfl⟩ := List.mem_map.mp hw
    obtain ⟨pre, hhanded, hwire, hle, hdone⟩ := h.busy w' hw'
    split
    · refine ⟨pre, hhanded, hwire, hle, fun l hl => ?_⟩
      cases hl
      exact hall rfl w' hw'
    · exact ⟨pre, hhanded, hwire, hle, hdone⟩

/-- The handler of the write under way goes on with the next, or leaves the list as it is. -/
theorem runWrite_taken {number : Nat} (hinv : Inv c) (h : Taken c progress wire) (hs : c.runWrite number = .ok d) :
    Taken d 0 wire := by
  unfold runWrite at hs
  split at hs
  · cases hs
  · rename_i w hfind
    split at hs
    · cases hs
    · rename_i ec length houtcome
      have hmem : w ∈ c.writes := List.mem_of_find?_eq_some hfind
      have hperm := Lists.perm_of_find? hfind
      obtain ⟨w', rest, hwrites, hbuffer⟩ : ∃ w' rest, c.writes = [w'] ∧ c.writeBuffer = ⟨w'.node, w'.msg⟩ :: rest := by
        rcases hinv.writing with hwrites | hwrites
        · rw [hwrites] at hmem
          cases hmem
        · exact hwrites
      have hnil : c.writes.eraseP (·.number == number) = [] := by
        have hone : c.writes.length = 1 := congrArg List.length hwrites
        rw [hperm.length_eq, List.length_cons] at hone
        exact List.length_eq_zero_iff.mp (Nat.succ.inj hone)
      obtain ⟨pre, hhanded, hwire, hle, hdone⟩ := h.busy w hmem
      have hprefix : wire <+: stream Message.bytes c.handed := by
        rw [hwire, hhanded, stream_append, stream_cons, stream_nil, List.append_nil]
        exact (List.prefix_append_right_inj _).mpr (List.take_prefix _ _)
      unfold writeHandler at hs
      simp only [timerCancel, hbuffer] at hs
      split at hs
      · refine Taken.of_same ?_ (doClosed_writes hs)
        exact ⟨fun _ => ⟨rfl, Or.inr ⟨List.cons_ne_nil _ _, hprefix⟩⟩, fun w hw => (by rw [emit, hnil] at hw; cases hw)⟩
      · rename_i hec
        have hec : ec = 0 := Classical.not_not.mp hec
        subst hec
        have hall : wire = stream Message.bytes c.handed := by
          rw [hwire, hdone length houtcome, hhanded, stream_append, stream_cons, stream_nil, List.append_nil]
          exact congrArg _ List.take_length
        split at hs
        · exact doWrite_taken hs hnil hall
        · cases hs
          exact ⟨fun _ => ⟨rfl, Or.inl hall⟩, fun w hw => (by rw [hnil] at hw; cases hw)⟩

/-! ### What has been handed to `async_write` -/

structure Grows (c d : ChannelState) : Prop where
  sent : d.sent = c.sent
  handed : c.handed <+: d.handed

theorem SameWrites.grows (h : SameWrites c d) : Grows c d := ⟨h.sent, h.handed ▸ List.prefix_rfl⟩

theorem Grows.of_eq {e : ChannelState} (h : Grows c d) (hsent : c.sent = e.sent) (hhanded : c.handed = e.handed) : Grows e d :=
  ⟨h.sent.trans hsent, hhanded ▸ h.handed⟩

theorem doWrite_grows (h : c.doWrite = .ok d) : Grows c d := by
  obtain ⟨timers, made, htimer⟩ := createTimer_eq c c.opt.writeTimeoutSeconds false
  unfold doWrite at h
  simp only [htimer] at h
  split at h
  · cases h
  · split at h <;> cases h
    exact ⟨rfl, List.prefix_append _ _⟩

theorem runPosted_grows (h : c.runPosted = .ok d) : Grows c d := by
  unfold runPosted at h
  split at h
  · cases h
  · unfold sendHandler at h
    dsimp only at h
    split at h
    · exact (doWrite_grows h).of_eq rfl rfl
    · cases h
      exact ⟨rfl, List.prefix_rfl⟩
  · exact (doClosed_writes h).grows.of_eq rfl rfl

theorem runWrite_grows {number : Nat} (h : c.runWrite number = .ok d) : Grows c d := by
  unfold runWrite at h
  split at h
  · cases h
  · split at h
    · cases h
    · unfold writeHandler at h
      dsimp only at h
      split at h
      · cases h
      · split at h
        · exact (doClosed_writes h).grows.of_eq rfl rfl
        · split at h
          · exact (doWrite_grows h).of_eq rfl rfl
          · cases h
            exact ⟨rfl, List.prefix_rfl⟩

theorem writeEnds_grows {number : Nat} {ec : ErrorCode} {length : Nat} (h : c.writeEnds number ec length = .ok d) :
    Grows c d := by
  unfold writeEnds at h
  split at h
  · cases h
  · split at h <;> cases h
    exact ⟨rfl, List.prefix_rfl⟩

/-! ### What leaves the reads alone -/

def SameReads (c d : ChannelState) : Prop :=
  d.reads = c.reads ∧ d.readBuffer = c.readBuffer ∧ d.readFixedBuffer = c.readFixedBuffer

theorem SameReads.trans {e : ChannelState} (h : SameReads c d) (h' : SameReads d e) : SameReads c e :=
  ⟨h'.1.trans h.1, h'.2.1.trans h.2.1, h'.2.2.trans h.2.2⟩

theorem SameReads.of_eq {e : ChannelState} (h : SameReads c d) (hreads : c.reads = e.reads)
    (hbuffer : c.readBuffer = e.readBuffer) (hfixed : c.readFixedBuffer = e.readFixedBuffer) : SameReads e d :=
  ⟨h.1.trans hreads, h.2.1.trans hbuffer, h.2.2.trans hfixed⟩

theorem doClosed_reads {type : CloseType} (h : c.doClosed type = .ok d) : SameReads c d := by
  unfold doClosed at h
  split at h
  · split at h <;> cases h
    exact ⟨rfl, rfl, rfl⟩
  · cases h
    exact ⟨rfl, rfl, rfl⟩

theorem doWrite_reads (h : c.doWrite = .ok d) : SameReads c d := by
  obtain ⟨timers, made, htimer⟩ := createTimer_eq c c.opt.writeTimeoutSeconds false
  unfold doWrite at h
  simp only [htimer] at h
  split at h
  · cases h
  · split at h <;> cases h
    exact ⟨rfl, rfl, rfl⟩

theorem runPosted_reads (h : c.runPosted = .ok d) : SameReads c d := by
  unfold runPosted at h
  split at h
  · cases h
  · unfold sendHandler at h
    dsimp only at h
    split at h
    · exact (doWrite_reads h).of_eq rfl rfl rfl
    · cases h
      exact ⟨rfl, rfl, rfl⟩
  · exact (doClosed_reads h).of_eq rfl rfl rfl

theorem runWrite_reads {number : Nat} (h : c.runWrite number = .ok d) : SameReads c d := by
  unfold runWrite at h
  split at h
  · cases h
  · split at h
    · cases h
    · unfold writeHandler at h
      dsimp only at h
      split at h
      · cases h
      · split at h
        · exact (doClosed_reads h).of_eq rfl rfl rfl
        · split at h
          · exact (doWrite_reads h).of_eq rfl rfl rfl
          · cases h
            exact ⟨rfl, rfl, rfl⟩

theorem runTimer_reads {number : Nat} (h : c.runTimer number = .ok d) : SameReads c d := by
  unfold runTimer at h
  split at h
  · cases h
  · dsimp only at h
    split at h
    · cases h
    · cases h
      exact ⟨rfl, rfl, rfl⟩
    · exact (doClosed_reads h).of_eq rfl rfl rfl

theorem writeEnds_reads {number : Nat} {ec : ErrorCode} {length : Nat} (h : c.writeEnds number ec length = .ok d) :
    SameReads c d := by
  unfold writeEnds at h
  split at h
  · cases h
  · split at h <;> cases h
    exact ⟨rfl, rfl, rfl⟩

theorem timerExpires_reads {number : Nat} (h : c.timerExpires number = .ok d) : SameReads c d := by
  unfold timerExpires at h
  split at h
  · cases h
  · split at h <;> cases h
    exact ⟨rfl, rfl, rfl⟩

theorem sendMsg_reads (c : ChannelState) (msg : Message) : SameReads c (c.sendMsg msg) ∧ Quiet c (c.sendMsg msg) := by
  unfold sendMsg
  split <;> exact ⟨⟨rfl, rfl, rfl⟩, Quiet.of_eq rfl⟩

theorem shutdown_reads (c : ChannelState) : SameReads c c.shutdown ∧ Quiet c c.shutdown := by
  unfold shutdown
  split <;> exact ⟨⟨rfl, rfl, rfl⟩, Quiet.of_eq rfl⟩

/-! ### What has arrived -/

open Link (received)

theorem received_of_quiet (h : Quiet c d) : received d.log = received c.log := by
  obtain ⟨es, hes, hnot⟩ := h
  have hnone : received es = [] := by
    refine List.flatMap_eq_nil_iff.mpr fun e he => ?_
    cases e with
    | onReceivedMessage msgs => exact absurd he (hnot msgs)
    | _ => rfl
  rw [hes, received, List.flatMap_append]
  exact (congrArg _ hnone).trans (List.append_nil _)

/-- What reads that have ended have put into the fixed buffer. -/
def pending (c : ChannelState) : Bytes := c.reads.flatMap fun r =>
  match r.outcome with
  | some (0, length) => c.readFixedBuffer.take length
  | _ => []

structure Arrived (c : ChannelState) (bytes : Bytes) : Prop where
  one : c.reads.length ≤ 1
  bytes : bytes = stream Message.bytes (received c.log) ++ (c.readBuffer.buffer ++ c.pending)
  held : Unfinished Message.bytes IsFrame c.readBuffer.buffer

variable {bytes : Bytes}

theorem Arrived.of_same (h : Arrived c bytes) (hs : SameReads c d) (hquiet : Quiet c d) : Arrived d bytes := by
  obtain ⟨hreads, hbuffer, hfixed⟩ := hs
  refine ⟨hreads ▸ h.one, ?_, hbuffer ▸ h.held⟩
  rw [received_of_quiet hquiet, hbuffer, pending, hreads, hfixed]
  exact h.bytes

theorem doRead_spec (h : c.doRead = .ok d) : ∃ r, r.outcome = none ∧ d.reads = c.reads ++ [r] ∧ d.readBuffer = c.readBuffer ∧
    d.readFixedBuffer = c.readFixedBuffer ∧ d.log = c.log := by
  have hlog := doRead_log h
  obtain ⟨timers, made, htimer⟩ := createTimer_eq c c.opt.readTimeoutSeconds true
  unfold doRead at h
  simp only [htimer] at h
  split at h <;> cases h
  exact ⟨_, rfl, rfl, rfl, rfl, hlog⟩

/-- The only read is begun. -/
theorem doRead_arrived (h : c.doRead = .ok d) (hreads : c.reads = [])
    (hbytes : bytes = stream Message.bytes (received c.log) ++ c.readBuffer.buffer)
    (hheld : Unfinished Message.bytes IsFrame c.readBuffer.buffer) : Arrived d bytes := by
  obtain ⟨r, houtcome, hr, hbuffer, -, hlog⟩ := doRead_spec h
  rw [hreads, List.nil_append] at hr
  have hpending : d.pending = [] := by simp [pending, hr, houtcome]
  exact ⟨by simp [hr], by rw [hpending, List.append_nil, hlog, hbuffer, hbytes], hbuffer ▸ hheld⟩

theorem init_arrived (h : c.init = .ok d) (hreads : c.reads = []) (ha : Arrived c bytes) : Arrived d bytes := by
  have hpending : c.pending = [] := by simp [pending, hreads]
  have hbytes := ha.bytes
  rw [hpending, List.append_nil] at hbytes
  refine doRead_arrived h hreads ?_ ha.held
  rw [received_of_quiet (quiet_emit _ .init nofun)]
  exact hbytes

/-- A read ends with the next bytes, or with an error. -/
theorem readEnds_arrived {number : Nat} {ec : ErrorCode} {more : Bytes} (h : c.readEnds number ec more = .ok d)
    (ha : Arrived c bytes) : Arrived d (bytes ++ if ec = 0 then more else []) := by
  unfold readEnds at h
  split at h
  · cases h
  · rename_i r hfind
    split at h
    · rename_i hok
      cases h
      obtain ⟨hone, hbytes, hheld⟩ := ha
      obtain ⟨hr, -⟩ := Lists.eq_singleton_of_find? hone hfind
      have hnumber : r.number = number := by simpa using List.find?_some hfind
      refine ⟨by simpa using hone, ?_, hheld⟩
      have hpending : c.pending = [] := by simp [pending, hr, hok.1]
      rw [hpending, List.append_nil] at hbytes
      rw [hbytes]
      by_cases hec : ec = 0
      · subst hec
        simp [pending, hr, hnumber]
      · simp [pending, hr, hnumber, hec]
    · cases h

theorem decodeAll_of_splits {ms : List Message} {r b : Bytes} (h : Splits Message.bytes IsFrame ms r b) :
    decodeAll ⟨b⟩ = (ms, ⟨r⟩) := by
  have hlen := congrArg List.length h.eq
  have hms := length_le_stream h.valid
  rw [List.length_append] at hlen
  have hturns : decode (b.length + 1) ⟨b⟩ [] = .ok (ms, ⟨r⟩) := by
    refine Drain.drain_mono ((drains_of_splits h).drain []) ?_
    omega
  unfold decodeAll
  rw [show FlatBuffer.length ⟨b⟩ + 1 = b.length + 1 from rfl, hturns]

theorem tryDecode_spec (c : ChannelState) (decode : FlatBuffer → List Message × FlatBuffer) :
    (c.tryDecode decode).reads = c.reads ∧ (c.tryDecode decode).readBuffer = (decode c.readBuffer).2 ∧
      received (c.tryDecode decode).log = received c.log ++ (decode c.readBuffer).1 := by
  have hlog : received (c.tryDecode decode).log = received c.log ++ (decode c.readBuffer).1 := by
    rw [tryDecode_log, received, List.flatMap_append]
    split
    · rename_i hnil
      rw [hnil]
      rfl
    · exact congrArg _ (List.flatMap_singleton _ _)
  refine ⟨?_, ?_, hlog⟩ <;> unfold tryDecode <;> dsimp only <;> split <;> rfl

/-- What a read that has ended with success leaves before the next is begun. -/
theorem readHandler_spec {decode : FlatBuffer → List Message × FlatBuffer} {timer : Option Nat} {length : Nat}
    (h : c.readHandler decode timer 0 length = .ok d) : ∃ e : ChannelState, e.doRead = .ok d ∧ e.reads = c.reads ∧
      e.readBuffer = (decode ⟨c.readBuffer.buffer ++ c.readFixedBuffer.take length⟩).2 ∧
      received e.log = received c.log ++ (decode ⟨c.readBuffer.buffer ++ c.readFixedBuffer.take length⟩).1 := by
  unfold readHandler at h
  simp only [ne_eq, not_true_eq_false, if_false, FlatBuffer.append_some] at h
  obtain ⟨hreads, hbuffer, hreceived⟩ := tryDecode_spec _ decode
  refine ⟨_, h, hreads, hbuffer, hreceived.trans ?_⟩
  exact congrArg (· ++ _) (received_of_quiet (quiet_emit _ (.onRead 0 length) nofun))

/-- The handler of a read that has ended with success receives the messages that are now complete. -/
theorem runRead_arrived {number : Nat} (h : c.runRead decodeAll number = .ok d) (ha : Arrived c bytes)
    {ms : List Message} {rest : Bytes} (hsplits : Splits Message.bytes IsFrame ms rest (c.readBuffer.buffer ++ c.pending)) :
    Arrived d bytes ∧ (received d.log = received c.log ∨ received d.log = received c.log ++ ms) := by
  unfold runRead at h
  split at h
  · cases h
  · rename_i r hfind
    obtain ⟨hr, hnil⟩ := Lists.eq_singleton_of_find? ha.one hfind
    have hbytes := ha.bytes
    split at h
    · cases h
    · rename_i ec length houtcome
      by_cases hec : ec = 0
      · subst hec
        have hpending : c.pending = c.readFixedBuffer.take length := by simp [pending, hr, houtcome]
        have hdecode : decodeAll ⟨c.readBuffer.buffer ++ c.readFixedBuffer.take length⟩ = (ms, ⟨rest⟩) := by
          rw [← hpending]
          exact decodeAll_of_splits hsplits
        obtain ⟨e, hd, hreads, hbuffer, hreceived⟩ := readHandler_spec h
        simp only [hdecode] at hbuffer hreceived
        obtain ⟨-, -, -, -, -, hlog⟩ := doRead_spec hd
        refine ⟨doRead_arrived hd (hreads.trans hnil) ?_ (hbuffer ▸ hsplits.rest), Or.inr (hlog ▸ hreceived)⟩
        rw [hreceived, hbuffer, hbytes, hsplits.eq, stream_append, List.append_assoc]
      · have hquiet := readHandler_error hec h
        unfold readHandler at h
        simp only [ne_eq, hec, not_false_eq_true, if_true] at h
        have hsame := doClosed_reads h
        have hreceived : received d.log = received c.log := (received_of_quiet hquiet).trans rfl
        have hpending : c.pending = [] := by
          cases ec with
          | zero => exact absurd rfl hec
          | succ ec => simp [pending, hr, houtcome]
        have hnone : d.pending = [] := by simp [pending, hsame.1, hnil, timerCancel, emit]
        refine ⟨⟨by rw [hsame.1]; exact hnil ▸ Nat.zero_le _, ?_, ?_⟩, Or.inl hreceived⟩
        · rw [hreceived, hsame.2.1, hnone, hbytes, hpending]
          rfl
        · rw [hsame.2.1]
          exact ha.held

end Zylib.ZySoft.ChannelState

namespace Zylib.ZySoft.Link
open ChannelState Run Framing

/-! ### The invariant -/

structure LinkInv (l : Link) : Prop where
  sender : Inv l.sender
  receiver : Inv l.receiver
  frames : ∀ m ∈ l.sender.sent, IsFrame m
  taken : Taken l.sender l.progress l.wire
  le : l.arrived ≤ l.wire.length
  arrived : Arrived l.receiver (l.wire.take l.arrived)
  received : received l.receiver.log <+: l.sender.handed

section
variable {l l' : Link}

theorem LinkInv.of_sender (h : LinkInv l) {c : ChannelState} (hinv : Inv c) (hgrows : Grows l.sender c) {progress : Nat}
    (htaken : Taken c progress l.wire) : LinkInv { l with sender := c, progress } where
  sender := hinv
  receiver := h.receiver
  frames := hgrows.sent ▸ h.frames
  taken := htaken
  le := h.le
  arrived := h.arrived
  received := h.received.trans hgrows.handed

theorem LinkInv.of_sameWrites (h : LinkInv l) {c : ChannelState} (hinv : Inv c) (hsame : SameWrites l.sender c) :
    LinkInv { l with sender := c } :=
  h.of_sender hinv hsame.grows (h.taken.of_same hsame)

theorem LinkInv.of_receiver (h : LinkInv l) {c : ChannelState} (hinv : Inv c) {arrived : Nat} (hle : arrived ≤ l.wire.length)
    (harrived : Arrived c (l.wire.take arrived)) (hreceived : Link.received c.log <+: l.sender.handed) :
    LinkInv { l with receiver := c, arrived } where
  sender := h.sender
  receiver := hinv
  frames := h.frames
  taken := h.taken
  le := hle
  arrived := harrived
  received := hreceived

theorem LinkInv.of_sameReads (h : LinkInv l) {c : ChannelState} (hinv : Inv c) (hsame : SameReads l.receiver c)
    (hquiet : Quiet l.receiver c) : LinkInv { l with receiver := c } :=
  h.of_receiver hinv h.le (h.arrived.of_same hsame hquiet) (received_of_quiet hquiet ▸ h.received)

/-! ### The sender -/

theorem sendData_keeps (h : LinkInv l) {data : Bytes} (hlen : data.length ≤ maxBodyLength) :
    LinkInv { l with sender := l.sender.sendMsg (encode (some data) data.length .empty) } where
  sender := h.sender.sendMsg _
  receiver := h.receiver
  frames m hm := by
    unfold sendMsg at hm
    split at hm
    · exact h.frames m hm
    · rcases List.mem_append.mp hm with hm | hm
      · exact h.frames m hm
      · exact ⟨data, hlen, List.mem_singleton.mp hm⟩
  taken := by unfold sendMsg; split <;> exact h.taken.of_eq rfl rfl rfl
  le := h.le
  arrived := h.arrived
  received := by unfold sendMsg; split <;> exact h.received

theorem senderStep_keeps (h : LinkInv l) {a : ChannelState.Action} (hs : l.senderStep a = .ok l') : LinkInv l' := by
  cases a with
  | init =>
    simp only [senderStep] at hs
    split at hs
    · obtain ⟨c, hc, rfl⟩ := map_eq_ok_iff.mp hs
      exact h.of_sameWrites (h.sender.step hc) ((doRead_writes hc).of_eq rfl rfl rfl rfl)
    · cases hs
  | sendMsg msg => cases hs
  | shutdown =>
    obtain rfl : { l with sender := l.sender.shutdown } = l' := Except.ok.inj hs
    exact h.of_sameWrites h.sender.shutdown (shutdown_writes _)
  | runPosted =>
    obtain ⟨c, hc, rfl⟩ := map_eq_ok_iff.mp hs
    exact h.of_sender (h.sender.step hc) (runPosted_grows hc) (runPosted_taken h.sender h.taken hc)
  | writeEnds number ec length =>
    simp only [senderStep] at hs
    split at hs
    · rename_i hall
      obtain ⟨c, hc, rfl⟩ := map_eq_ok_iff.mp hs
      exact h.of_sender (h.sender.step hc) (writeEnds_grows hc) (writeEnds_taken h.taken hall hc)
    · cases hs
  | runWrite number =>
    obtain ⟨c, hc, rfl⟩ := map_eq_ok_iff.mp hs
    exact h.of_sender (h.sender.step hc) (runWrite_grows hc) (runWrite_taken h.sender h.taken hc)
  | readEnds number ec bytes =>
    obtain ⟨c, hc, rfl⟩ := map_eq_ok_iff.mp hs
    exact h.of_sameWrites (h.sender.step hc) (readEnds_writes hc)
  | runRead number =>
    obtain ⟨c, hc, rfl⟩ := map_eq_ok_iff.mp hs
    exact h.of_sameWrites (h.sender.step hc) (runRead_writes hc)
  | timerExpires number =>
    obtain ⟨c, hc, rfl⟩ := map_eq_ok_iff.mp hs
    exact h.of_sameWrites (h.sender.step hc) (timerExpires_writes hc)
  | runTimer number =>
    obtain ⟨c, hc, rfl⟩ := map_eq_ok_iff.mp hs
    exact h.of_sameWrites (h.sender.step hc) (runTimer_writes hc)

/-- What is taken of a write is next in the stream. -/
theorem takes_keeps (h : LinkInv l) {n : Nat} (hs : l.takes n = .ok l') : LinkInv l' := by
  unfold takes at hs
  split at hs
  · rename_i w hw
    split at hs
    · rename_i hopen
      cases hs
      obtain ⟨pre, hhanded, hwire, hle, -⟩ := h.taken.busy w (hw ▸ List.mem_singleton_self w)
      let more := (w.msg.bytes.drop l.progress).take n
      have hmore : w.msg.bytes.take l.progress ++ more = w.msg.bytes.take (l.progress + more.length) := by
        rw [List.take_add, List.length_take, List.length_drop]
        exact congrArg _ (by rw [← List.take_take, ← List.length_drop, List.take_length])
      have hlen : l.progress + more.length ≤ w.msg.length := by
        have hle' : l.progress ≤ w.msg.bytes.length := hle
        show l.progress + more.length ≤ w.msg.bytes.length
        rw [List.length_take, List.length_drop]
        omega
      have htake : (l.wire ++ more).take l.arrived = l.wire.take l.arrived := List.take_append_of_le_length h.le
      refine ⟨h.sender, h.receiver, h.frames, ⟨fun hnil => ?_, fun w' hw' => ?_⟩, ?_, ?_, h.received⟩
      · rw [hw] at hnil
        cases hnil
      · rw [hw] at hw'
        obtain rfl := List.mem_singleton.mp hw'
        refine ⟨pre, hhanded, ?_, hlen, fun length hlength => ?_⟩
        · rw [← hmore, hwire, List.append_assoc]
        · rw [hopen.1] at hlength
          cases hlength
      · exact Nat.le_trans h.le (by rw [List.length_append]; exact Nat.le_add_right _ _)
      · exact htake ▸ h.arrived
    · cases hs
  · cases hs

/-! ### The receiver -/

/-- The bytes that have arrived begin the stream of what has been handed over. -/
theorem LinkInv.wire_prefix (h : LinkInv l) : l.wire <+: stream Message.bytes l.sender.handed := by
  rcases h.sender.writing with hwrites | ⟨w, rest, hwrites, -⟩
  · rcases (h.taken.idle hwrites).2 with hwire | ⟨-, hwire⟩
    · exact hwire ▸ List.prefix_rfl
    · exact hwire
  · obtain ⟨pre, hhanded, hwire, -⟩ := h.taken.busy w (hwrites ▸ List.mem_singleton_self w)
    rw [hwire, hhanded, stream_append, stream_cons, stream_nil, List.append_nil]
    exact (List.prefix_append_right_inj _).mpr (List.take_prefix _ _)

theorem LinkInv.frames_handed (h : LinkInv l) : ∀ m ∈ l.sender.handed, IsFrame m := by
  intro m hm
  refine h.frames m ?_
  rw [h.sender.sent]
  exact List.mem_append_left _ hm

/-- What is held and what has just been read are complete frames of the stream and the beginning of the next. -/
theorem LinkInv.splits (h : LinkInv l) : ∃ ms rest,
    Splits Message.bytes IsFrame ms rest (l.receiver.readBuffer.buffer ++ l.receiver.pending) ∧
    Link.received l.receiver.log ++ ms <+: l.sender.handed := by
  obtain ⟨later, hlater⟩ := h.received
  have hprefix := (List.take_prefix l.arrived l.wire).trans h.wire_prefix
  rw [h.arrived.bytes, ← hlater, stream_append] at hprefix
  obtain ⟨t, ht⟩ := (List.prefix_append_right_inj _).mp hprefix
  have hframes : ∀ m ∈ later, IsFrame m := fun m hm => h.frames_handed m (hlater ▸ List.mem_append_right _ hm)
  obtain ⟨ms, ms', rest, rfl, hsplits, -⟩ := splits_of_prefix hframes ht
  refine ⟨ms, rest, hsplits, ?_⟩
  rw [← hlater, ← List.append_assoc]
  exact List.prefix_append _ _

theorem receiverStep_keeps (h : LinkInv l) {a : ChannelState.Action} (hs : l.receiverStep a = .ok l') : LinkInv l' := by
  cases a with
  | init =>
    simp only [receiverStep] at hs
    split at hs
    · rename_i hsocket
      obtain ⟨c, hc, rfl⟩ := map_eq_ok_iff.mp hs
      obtain ⟨-, -, -, hreads, -⟩ := h.receiver.started hsocket
      refine h.of_receiver (h.receiver.step hc) h.le (init_arrived hc hreads h.arrived) ?_
      exact received_of_quiet (init_quiet hc) ▸ h.received
    · cases hs
  | sendMsg msg =>
    obtain rfl : { l with receiver := l.receiver.sendMsg msg } = l' := Except.ok.inj hs
    exact h.of_sameReads (h.receiver.sendMsg msg) (sendMsg_reads _ msg).1 (sendMsg_reads _ msg).2
  | shutdown =>
    obtain rfl : { l with receiver := l.receiver.shutdown } = l' := Except.ok.inj hs
    exact h.of_sameReads h.receiver.shutdown (shutdown_reads _).1 (shutdown_reads _).2
  | runPosted =>
    obtain ⟨c, hc, rfl⟩ := map_eq_ok_iff.mp hs
    exact h.of_sameReads (h.receiver.step hc) (runPosted_reads hc) (runPosted_quiet hc)
  | writeEnds number ec length =>
    obtain ⟨c, hc, rfl⟩ := map_eq_ok_iff.mp hs
    exact h.of_sameReads (h.receiver.step hc) (writeEnds_reads hc) (Quiet.of_eq (ends_log.1 ec length hc))
  | runWrite number =>
    obtain ⟨c, hc, rfl⟩ := map_eq_ok_iff.mp hs
    exact h.of_sameReads (h.receiver.step hc) (runWrite_reads hc) (runWrite_quiet hc)
  | readEnds number ec bytes =>
    simp only [receiverStep] at hs
    by_cases hec : ec = 0
    · subst hec
      rw [if_pos rfl] at hs
      split at hs
      · rename_i hnext
        obtain ⟨-, -, t, ht⟩ := hnext
        obtain ⟨c, hc, rfl⟩ := map_eq_ok_iff.mp hs
        have hlen := congrArg List.length ht
        rw [List.length_append, List.length_drop] at hlen
        have hle := h.le
        have htake : l.wire.take (l.arrived + bytes.length) = l.wire.take l.arrived ++ bytes := by
          rw [List.take_add, ← ht, List.take_left]
        have harrived := readEnds_arrived hc h.arrived
        rw [if_pos rfl] at harrived
        refine h.of_receiver (h.receiver.step hc) (by omega) (htake ▸ harrived) ?_
        exact received_of_quiet (Quiet.of_eq (ends_log.2.1 0 bytes hc)) ▸ h.received
      · cases hs
    · rw [if_neg hec] at hs
      split at hs
      · obtain ⟨c, hc, rfl⟩ := map_eq_ok_iff.mp hs
        have harrived := readEnds_arrived hc h.arrived
        rw [if_neg hec, List.append_nil] at harrived
        refine h.of_receiver (h.receiver.step hc) h.le harrived ?_
        exact received_of_quiet (Quiet.of_eq (ends_log.2.1 ec bytes hc)) ▸ h.received
      · cases hs
  | runRead number =>
    obtain ⟨c, hc, rfl⟩ := map_eq_ok_iff.mp hs
    obtain ⟨ms, rest, hsplits, hprefix⟩ := h.splits
    obtain ⟨harrived, hreceived⟩ := runRead_arrived hc h.arrived hsplits
    refine h.of_receiver (h.receiver.step hc) h.le harrived ?_
    rcases hreceived with hreceived | hreceived
    · exact hreceived ▸ h.received
    · exact hreceived ▸ hprefix
  | timerExpires number =>
    obtain ⟨c, hc, rfl⟩ := map_eq_ok_iff.mp hs
    exact h.of_sameReads (h.receiver.step hc) (timerExpires_reads hc) (Quiet.of_eq (ends_log.2.2 hc))
  | runTimer number =>
    obtain ⟨c, hc, rfl⟩ := map_eq_ok_iff.mp hs
    exact h.of_sameReads (h.receiver.step hc) (runTimer_reads hc) (runTimer_quiet hc)

theorem step_keeps (h : LinkInv l) {a : Action} (ha : ∀ data, a = .sendData data → data.length ≤ maxBodyLength)
    (hs : step l a = .ok l') : LinkInv l' := by
  cases a with
  | sendData data =>
    cases hs
    exact sendData_keeps h (ha data rfl)
  | sender a => exact senderStep_keeps h hs
  | receiver a => exact receiverStep_keeps h hs
  | takes n => exact takes_keeps h hs

end

/-! ### Runs -/

theorem eq_disabled {c : ChannelState} (hinv : Inv c) {a : ChannelState.Action} {f : ChannelState → Link} {e : ChannelState.Fault}
    (h : (ChannelState.step decodeAll c a).map f = .error e) : e = .disabled := by
  rw [map_eq_error_iff] at h
  rcases ChannelState.step_keeps hinv decodeAll a with ⟨d, hd, -⟩ | hd
  · cases h.symm.trans hd
  · cases h.symm.trans hd
    rfl

theorem step_error {l : Link} (h : LinkInv l) {a : Action} {e : ChannelState.Fault} (hs : step l a = .error e) : e = .disabled := by
  cases a with
  | sendData data => cases hs
  | sender a =>
    simp only [step] at hs
    cases a with
    | sendMsg msg =>
      cases hs
      rfl
    | shutdown => cases hs
    | init =>
      simp only [senderStep] at hs
      split at hs
      · exact eq_disabled h.sender hs
      · cases hs
        rfl
    | writeEnds number ec length =>
      simp only [senderStep] at hs
      split at hs
      · exact eq_disabled h.sender hs
      · cases hs
        rfl
    | _ => exact eq_disabled h.sender hs
  | receiver a =>
    simp only [step] at hs
    cases a with
    | sendMsg msg => cases hs
    | shutdown => cases hs
    | init =>
      simp only [receiverStep] at hs
      split at hs
      · exact eq_disabled h.receiver hs
      · cases hs
        rfl
    | readEnds number ec bytes =>
      simp only [receiverStep] at hs
      split at hs <;> split at hs
      · exact eq_disabled h.receiver hs
      · cases hs
        rfl
      · exact eq_disabled h.receiver hs
      · cases hs
        rfl
    | _ => exact eq_disabled h.receiver hs
  | takes n =>
    simp only [step, takes] at hs
    split at hs
    · split at hs
      · cases hs
      · cases hs
        rfl
    · cases hs
      rfl

theorem linkInv_start (opt opt' : ChannelOption) : LinkInv { sender := { opt }, receiver := { opt := opt' } } where
  sender := inv_start opt
  receiver := inv_start opt'
  frames := nofun
  taken := ⟨fun _ => ⟨rfl, Or.inl rfl⟩, nofun⟩
  le := Nat.le_refl 0
  arrived := ⟨Nat.zero_le 1, rfl, Or.inl rfl⟩
  received := List.prefix_rfl

/-- Nothing is under way: the sender has handed over and written what it was given, and the receiver has read it. -/
structure Quiescent (l : Link) : Prop where
  posted : l.sender.posted = []
  buffer : l.sender.writeBuffer = []
  arrived : l.arrived = l.wire.length
  reads : ∀ r ∈ l.receiver.reads, r.outcome = none

theorem LinkInv.received_eq {l : Link} (h : LinkInv l) (hq : Quiescent l) : Link.received l.receiver.log = l.sender.sent := by
  have hwrites : l.sender.writes = [] := by
    rcases h.sender.writing with hwrites | ⟨w, rest, -, hbuffer⟩
    · exact hwrites
    · rw [hq.buffer] at hbuffer
      cases hbuffer
  have hwire := (h.taken.idle hwrites).2.resolve_right fun hne => hne.1 hq.buffer
  have hpending : l.receiver.pending = [] := by
    refine List.flatMap_eq_nil_iff.mpr fun r hr => ?_
    rw [hq.reads r hr]
  have hsent : l.sender.sent = l.sender.handed := by
    rw [h.sender.sent, hq.buffer, waiting, hq.posted]
    exact List.append_nil _
  obtain ⟨later, hlater⟩ := h.received
  have hbytes := h.arrived.bytes
  rw [hq.arrived, List.take_length, hwire, ← hlater, stream_append, hpending, List.append_nil] at hbytes
  have hheld := h.arrived.held
  rw [← List.append_cancel_left hbytes] at hheld
  have hnil := hheld.stream_eq_nil prefixCode_frames fun m hm => h.frames_handed m (hlater ▸ List.mem_append_right _ hm)
  rw [hsent, ← hlater, hnil, List.append_nil]

/-- A message of one byte that is taken in two parts, and read in two others. -/
def exchange : List Action :=
  [.sender .init, .receiver .init, .sendData [9], .sender .runPosted, .takes 5, .receiver (.readEnds 1 0 [1, 0]),
    .receiver (.runRead 1), .takes 100, .sender (.writeEnds 3 0 17),
    .receiver (.readEnds 2 0 [0, 0, 0, 0, 0, 0, 0, 0, 0, 0, 0, 0, 0, 0, 9]), .sender (.runWrite 3), .receiver (.runRead 2)]

end Zylib.ZySoft.Link
