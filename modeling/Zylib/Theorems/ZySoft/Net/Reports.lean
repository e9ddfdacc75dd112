import Zylib.ZySoft.Net.TcpServer

/-! What every step of a `TcpConnection` keeps, also after `ForceClose` and errors: a front is there whenever one is used,
    the server is told of an error at most once, and each `RemoveConnection` posts one `ConnectDestroy`. -/

namespace Zylib.ZySoft.Net.TcpConnection
open Run

/-- At most one write is under way, which is that of the front; `busy` says that the handler of a write is running, which
    has not taken the front off the list yet. -/
structure Fronted (busy : Bool) (c : TcpConnection) : Prop where
  oneWrite : c.writes.length ≤ 1
  front : c.writes ≠ [] → c.outputBuffer ≠ []
  busy : busy = true → c.writes = [] ∧ c.outputBuffer ≠ []

/-- What the application does not change. -/
structure Same (c t : TcpConnection) : Prop where
  errorHandled : t.errorHandled = c.errorHandled
  removals : t.removals = c.removals
  destroys : t.destroys = c.destroys

/-- What is posted to the server and what the server posts in a step. -/
structure Balance (c : TcpConnection) (a : Action) (t : TcpConnection) : Prop where
  handled : c.errorHandled.toNat ≤ t.errorHandled.toNat
  reports : t.removals + removing a + c.errorHandled.toNat = c.removals + t.errorHandled.toNat
  destroys : t.destroys + c.destroying a = c.destroys + removing a

/-- The computation ends in a state that has its fronts and differs as `R` says. -/
def Ends (busy : Bool) (R : TcpConnection → Prop) (r : Except Fault TcpConnection) : Prop :=
  ∃ t, r = .ok t ∧ Fronted busy t ∧ R t

variable {busy : Bool} {c t u : TcpConnection} {R : TcpConnection → Prop}

theorem Same.refl (c : TcpConnection) : Same c c := ⟨rfl, rfl, rfl⟩

theorem Same.trans (h : Same c t) (h' : Same t u) : Same c u :=
  ⟨h'.errorHandled.trans h.errorHandled, h'.removals.trans h.removals, h'.destroys.trans h.destroys⟩

theorem Fronted.ends (h : Fronted busy t) (hR : R t) : Ends busy R (.ok t) := ⟨t, rfl, h, hR⟩

theorem Ends.mono {R' : TcpConnection → Prop} {r : Except Fault TcpConnection} (h : Ends busy R r) (hR : ∀ t, R t → R' t) :
    Ends busy R' r := by
  obtain ⟨t, ht, hf, hr⟩ := h
  exact ⟨t, ht, hf, hR t hr⟩

theorem Fronted.idle (h : Fronted busy c) : Fronted false c := ⟨h.oneWrite, h.front, fun h => (by cases h)⟩

/-- The operations change only in their outcomes. -/
theorem Fronted.map (h : Fronted busy c) {t : TcpConnection} (f : WriteOp → WriteOp) (hw : t.writes = c.writes.map f)
    (hb : t.outputBuffer = c.outputBuffer) : Fronted busy t := by
  refine ⟨?_, ?_, ?_⟩
  · rw [hw, List.length_map]
    exact h.oneWrite
  · rw [hw, hb]
    exact fun hne => h.front fun hnil => hne (by rw [hnil, List.map_nil])
  · rw [hw, hb]
    exact fun hbusy => ⟨by rw [(h.busy hbusy).1, List.map_nil], (h.busy hbusy).2⟩

theorem Fronted.congr (h : Fronted busy c) {t : TcpConnection} (hw : t.writes = c.writes)
    (hb : t.outputBuffer = c.outputBuffer) : Fronted busy t :=
  h.map id (by rw [hw, List.map_id]) hb

theorem Fronted.abort (h : Fronted busy c) : Fronted busy c.abort := h.map _ rfl rfl

theorem destroys_runInLoop {f : Functor} (h : f ≠ .connectDestroy) : (c.runInLoop f).destroys = c.destroys := by
  rw [destroys, runInLoop, List.count_append, List.count_singleton, if_neg (by simpa using h)]
  rfl

/-! ### Calls of the application -/

theorem asyncWrite_ends (hw : c.writes = []) (hb : c.outputBuffer ≠ []) : Ends false (Same c) c.asyncWrite := by
  unfold asyncWrite
  split
  · rename_i hnil
    exact absurd hnil hb
  · refine Fronted.ends ⟨?_, fun _ => hb, fun h => (by cases h)⟩ ⟨rfl, rfl, rfl⟩
    show (c.writes ++ [_]).length ≤ 1
    rw [hw]
    exact Nat.le_refl 1

theorem sendInLoop_ends (h : Fronted busy c) (msg : Bytes) : Ends busy (Same c) (c.sendInLoop msg) := by
  unfold sendInLoop
  split
  · exact Fronted.ends (h.congr rfl rfl) ⟨rfl, rfl, rfl⟩
  · dsimp only
    by_cases hempty : c.outputBuffer = []
    · -- the list was empty, so no write is under way, and none of a handler either
      rw [if_pos (by simp [hempty])]
      have hw : c.writes = [] := by
        by_contra hne
        exact h.front hne hempty
      have hidle : busy = false := by
        cases busy with
        | false => rfl
        | true => exact absurd hempty (h.busy rfl).2
      subst hidle
      obtain ⟨t, ht, hf, hs⟩ := asyncWrite_ends
        (c := { c with outputBuffer := c.outputBuffer ++ [msg] }.emit (.sendInLoop msg true)) hw
        (List.append_ne_nil_of_right_ne_nil _ (List.cons_ne_nil _ _))
      exact ⟨t, ht, hf, hs.1, hs.2, hs.3⟩
    · rw [if_neg (by simp [hempty])]
      have hne : c.outputBuffer ++ [msg] ≠ [] := List.append_ne_nil_of_left_ne_nil hempty _
      exact Fronted.ends ⟨h.oneWrite, fun _ => hne, fun hbusy => ⟨(h.busy hbusy).1, hne⟩⟩ ⟨rfl, rfl, rfl⟩

theorem shutdown_same (c : TcpConnection) (callback : Bool) : Same c (c.shutdown callback) := by
  unfold shutdown
  split
  · exact .refl c
  · split
    · exact .refl c
    · refine ⟨?_, ?_, (destroys_runInLoop (fun h => (by cases h))).trans ?_⟩ <;> (split <;> rfl)

theorem shutdown_fronted (h : Fronted busy c) (callback : Bool) : Fronted busy (c.shutdown callback) := by
  unfold shutdown
  split
  · exact h
  · split
    · exact h
    · refine h.congr ?_ ?_ <;> (dsimp only [runInLoop]; split <;> rfl)

theorem forceClose_same (c : TcpConnection) : Same c c.forceClose := by
  unfold forceClose
  split
  · exact .refl c
  · exact ⟨rfl, rfl, destroys_runInLoop fun h => (by cases h)⟩

theorem forceClose_fronted (h : Fronted busy c) : Fronted busy c.forceClose := by
  unfold forceClose
  split
  · exact h
  · exact h.congr rfl rfl

theorem callInLoop_ends (h : Fronted busy c) (call : Call) : Ends busy (Same c) (c.callInLoop call) := by
  cases call with
  | send message => exact sendInLoop_ends h message
  | shutdown callback => exact Fronted.ends (shutdown_fronted h callback) (shutdown_same c callback)
  | forceClose => exact Fronted.ends (forceClose_fronted h) (forceClose_same c)

theorem calls_end (h : Fronted busy c) (calls : List Call) : Ends busy (Same c) (run callInLoop c calls) := by
  induction calls generalizing c with
  | nil => exact h.ends (.refl c)
  | cons call calls ih =>
    obtain ⟨t, ht, hf, hsame⟩ := callInLoop_ends h call
    rw [run_cons ht]
    exact (ih hf).mono fun u hu => hsame.trans hu

theorem connectEstablised_ends (h : Fronted false c) (calls : List Call) :
    Ends false (Same c) (c.connectEstablised calls) := by
  obtain ⟨t, ht, hf, hs⟩ := calls_end (c := { c with state := .established }.asyncRead.emit .connectionCallback)
    (h.congr rfl rfl) calls
  exact ⟨t, ht, hf, hs.1, hs.2, hs.3⟩

/-! ### Handlers -/

/-- `HandleError` posts `RemoveConnection` the first time. -/
structure Reports (c t : TcpConnection) : Prop where
  handled : c.errorHandled.toNat ≤ t.errorHandled.toNat
  reports : t.removals + c.errorHandled.toNat = c.removals + t.errorHandled.toNat
  destroys : t.destroys = c.destroys

theorem Same.reports (h : Same c t) : Reports c t :=
  ⟨h.errorHandled ▸ Nat.le_refl _, by rw [h.errorHandled, h.removals], h.destroys⟩

theorem Reports.of_same (h : Same c t) (h' : Reports t u) : Reports c u :=
  ⟨h.errorHandled ▸ h'.handled, h.errorHandled ▸ h.removals ▸ h'.reports, h'.destroys.trans h.destroys⟩

theorem handleError_ends (h : Fronted false c) (calls : List Call) (ec : ErrorCode) :
    Ends false (Reports c) (c.handleError calls ec) := by
  unfold handleError
  extract_lets c₁
  have hf : Fronted false c₁ := h.congr (by unfold c₁; split <;> rfl) (by unfold c₁; split <;> rfl)
  have hsame : Same c c₁ := by
    unfold c₁
    split <;> exact ⟨rfl, rfl, rfl⟩
  split
  · exact hf.ends hsame.reports
  · rename_i hnot
    obtain ⟨t, ht, hft, hst⟩ := calls_end
      (c := { c₁ with errorHandled := true }.emit (.frameworkCallback ec c₁.needMessageCallback)) (hf.congr rfl rfl)
      (if c₁.needMessageCallback then calls else [])
    rw [ht]
    have hfalse : c₁.errorHandled = false := Bool.eq_false_iff.mpr hnot
    have herror : t.errorHandled = true := hst.errorHandled
    have hremovals : t.removals = c₁.removals := hst.removals
    refine Fronted.ends (hft.congr rfl rfl) (.of_same hsame ⟨?_, ?_, hst.destroys⟩)
    · rw [hfalse]
      exact Nat.zero_le _
    · show t.removals + 1 + c₁.errorHandled.toNat = c₁.removals + t.errorHandled.toNat
      rw [hfalse, herror, hremovals]
      rfl

theorem handleRead_ends (h : Fronted false c) (calls : List Call) (consumed : Nat) (ec : ErrorCode) (len : Nat) :
    Ends false (Reports c) (c.handleRead calls consumed ec len) := by
  unfold handleRead
  split
  · exact handleError_ends h calls ec
  · dsimp only
    split
    · obtain ⟨t, ht, hf, hs⟩ := calls_end (c := { c with
        inputBuffer := c.inputBuffer ++ c.inputFixedBuffer.take len }.emit (.messageCallback _)) (h.congr rfl rfl) calls
      rw [ht]
      exact Fronted.ends (hf.congr rfl rfl) (Same.reports ⟨hs.1, hs.2, hs.3⟩)
    · exact Fronted.ends (h.congr rfl rfl) (Same.reports ⟨rfl, rfl, rfl⟩)

theorem writeNext_ends (hw : c.writes = []) : Ends false (Same c) c.writeNext := by
  have hf : Fronted false c := ⟨by rw [hw]; exact Nat.zero_le 1, fun h => absurd hw h, fun h => (by cases h)⟩
  unfold writeNext
  split
  · exact hf.ends (.refl c)
  · split
    · split
      · exact hf.ends (.refl c)
      · split
        · split
          · exact Fronted.ends (hf.abort.congr rfl rfl) ⟨rfl, rfl, rfl⟩
          · rename_i hne
            exact asyncWrite_ends hw hne
        · exact hf.ends (.refl c)
    · split
      · rename_i hne
        exact asyncWrite_ends hw hne
      · exact hf.ends (.refl c)

theorem handleWrite_ends (h : Fronted true c) (calls : List Call) (ec : ErrorCode) :
    Ends false (Reports c) (c.handleWrite calls ec) := by
  unfold handleWrite
  split
  · rename_i hnil
    exact absurd hnil (h.busy rfl).2
  · rename_i msg rest hfront
    have hf : Fronted true { c with outputBuffer := [] :: rest } :=
      ⟨h.oneWrite, fun _ => List.cons_ne_nil _ _, fun _ => ⟨(h.busy rfl).1, List.cons_ne_nil _ _⟩⟩
    dsimp only
    split
    · exact (handleError_ends hf.idle calls ec).mono fun t ht => ⟨ht.1, ht.2, ht.3⟩
    · obtain ⟨t, ht, hft, hs⟩ := calls_end (c := { c with outputBuffer := [] :: rest }.emit (.writeComplete msg))
        (hf.congr rfl rfl) calls
      rw [ht]
      dsimp only
      split
      · rename_i hnil
        exact absurd hnil (hft.busy rfl).2
      · rename_i front rest' hfront'
        have hnext := writeNext_ends (c := { t with outputBuffer := rest' }) (hft.busy rfl).1
        exact hnext.mono fun u hu => Same.reports ⟨hu.1.trans hs.1, hu.2.trans hs.2, hu.3.trans hs.3⟩

/-! ### Steps -/

theorem shutdownInLoop_fronted (h : Fronted busy c) : Fronted busy c.shutdownInLoop := by
  unfold shutdownInLoop
  dsimp only
  split
  · exact h.congr rfl rfl
  · split
    · exact h.map _ rfl rfl
    · exact h.congr rfl rfl

theorem shutdownInLoop_same (c : TcpConnection) : Same c c.shutdownInLoop := by
  unfold shutdownInLoop
  dsimp only
  split
  · exact ⟨rfl, rfl, rfl⟩
  · split <;> exact ⟨rfl, rfl, rfl⟩

theorem forceCloseInLoop_fronted (h : Fronted busy c) : Fronted busy c.forceCloseInLoop := by
  unfold forceCloseInLoop
  split
  · exact h
  · refine (Fronted.congr h ?_ ?_).abort.congr rfl rfl <;> (split <;> rfl)

theorem forceCloseInLoop_same (c : TcpConnection) : Same c c.forceCloseInLoop := by
  unfold forceCloseInLoop
  split
  · exact .refl c
  · refine ⟨?_, ?_, ?_⟩ <;> (dsimp only [cancel, emit, abort, destroys]; split <;> rfl)

theorem connectDestroy_fronted (h : Fronted busy c) : Fronted busy c.connectDestroy := by
  unfold connectDestroy
  split
  · exact h
  · exact h.map _ rfl rfl

theorem connectDestroy_same (c : TcpConnection) : Same c c.connectDestroy := by
  unfold connectDestroy
  split
  · exact .refl c
  · exact ⟨rfl, rfl, rfl⟩

theorem call_fronted (h : Fronted busy c) (call : Call) : Fronted busy (c.call call) := by
  cases call with
  | send message => exact h.congr rfl rfl
  | shutdown callback => exact shutdown_fronted h callback
  | forceClose => exact forceClose_fronted h

theorem call_same (c : TcpConnection) (call : Call) : Same c (c.call call) := by
  cases call with
  | send message => exact ⟨rfl, rfl, destroys_runInLoop fun h => (by cases h)⟩
  | shutdown callback => exact shutdown_same c callback
  | forceClose => exact forceClose_same c

/-- A step that neither removes nor destroys. -/
theorem Reports.balance {a : Action} (h : Reports c t) (hr : removing a = 0) (hd : c.destroying a = 0) : Balance c a t :=
  ⟨h.handled, by rw [hr]; exact h.reports, by rw [hr, hd]; exact h.destroys⟩

theorem runPosted_ends (h : Fronted false c) :
    c.runPosted = .error .disabled ∨ Ends false (Balance c .runPosted) c.runPosted := by
  unfold runPosted
  split
  · exact .inl rfl
  · rename_i f posted hposted
    right
    have hf : Fronted false { c with posted } := h.congr rfl rfl
    -- the function that runs is no longer posted
    have hbalance : ∀ t, Same { c with posted } t → Balance c .runPosted t := by
      intro t hs
      refine ⟨hs.errorHandled ▸ Nat.le_refl _, ?_, ?_⟩
      · rw [hs.errorHandled, hs.removals]
        rfl
      · rw [hs.destroys, destroys, destroys, hposted, List.count_cons, destroying, hposted]
        cases f <;> rfl
    dsimp only
    cases f with
    | sendInLoop msg => exact (sendInLoop_ends hf msg).mono hbalance
    | shutdownInLoop => exact Fronted.ends (shutdownInLoop_fronted hf) (hbalance _ (shutdownInLoop_same _))
    | forceCloseInLoop => exact Fronted.ends (forceCloseInLoop_fronted hf) (hbalance _ (forceCloseInLoop_same _))
    | connectDestroy => exact Fronted.ends (connectDestroy_fronted hf) (hbalance _ (connectDestroy_same _))

theorem removeConnection_ends (h : Fronted false c) :
    c.removeConnection = .error .disabled ∨ Ends false (Balance c .removeConnection) c.removeConnection := by
  unfold removeConnection
  split
  · exact .inl rfl
  · rename_i removals hremovals
    refine .inr (Fronted.ends (h.congr rfl rfl) ⟨Nat.le_refl _, ?_, ?_⟩)
    · rw [hremovals]
      rfl
    · exact (congrArg (· + 0) List.count_append).trans rfl

theorem writeEnds_ends (h : Fronted false c) (number : Nat) (ec : ErrorCode) :
    c.writeEnds number ec = .error .disabled ∨ Ends false (Same c) (c.writeEnds number ec) := by
  unfold writeEnds
  split
  · exact .inl rfl
  · split
    · exact .inr (Fronted.ends (h.map _ rfl rfl) ⟨rfl, rfl, rfl⟩)
    · exact .inl rfl

theorem readEnds_ends (h : Fronted false c) (number : Nat) (ec : ErrorCode) (bytes : Bytes) :
    c.readEnds number ec bytes = .error .disabled ∨ Ends false (Same c) (c.readEnds number ec bytes) := by
  unfold readEnds
  split
  · exact .inl rfl
  · split
    · exact .inr (Fronted.ends (h.congr rfl rfl) ⟨rfl, rfl, rfl⟩)
    · exact .inl rfl

theorem runWrite_ends (h : Fronted false c) (number : Nat) (calls : List Call) :
    c.runWrite calls number = .error .disabled ∨ Ends false (Reports c) (c.runWrite calls number) := by
  unfold runWrite
  split
  · exact .inl rfl
  · rename_i w hw
    split
    · exact .inl rfl
    · rename_i ec hec
      -- the write is the only one, and its front is still there
      have hmem : w ∈ c.writes := List.mem_of_find?_eq_some hw
      have hone : c.writes = [w] := by
        obtain ⟨v, hv⟩ := List.length_eq_one_iff.mp (Nat.le_antisymm h.oneWrite (List.length_pos_of_mem hmem))
        rw [hv] at hmem ⊢
        rw [List.mem_singleton.mp hmem]
      have hnone : c.writes.eraseP (·.number == number) = [] := by
        rw [hone, List.eraseP_cons_of_pos (by simpa using List.find?_some hw)]
      have hf : Fronted true { c with writes := c.writes.eraseP (·.number == number) } :=
        ⟨by simp [hnone], fun hne => absurd hnone hne, fun _ => ⟨hnone, h.front (List.ne_nil_of_mem hmem)⟩⟩
      exact .inr ((handleWrite_ends hf calls ec).mono fun t ht => ⟨ht.1, ht.2, ht.3⟩)

theorem runRead_ends (h : Fronted false c) (number consumed : Nat) (calls : List Call) :
    c.runRead calls consumed number = .error .disabled ∨ Ends false (Reports c) (c.runRead calls consumed number) := by
  unfold runRead
  split
  · exact .inl rfl
  · split
    · exact .inl rfl
    · rename_i ec len hout
      have hf : Fronted false { c with reads := c.reads.eraseP (·.number == number) } := h.congr rfl rfl
      exact .inr ((handleRead_ends hf calls consumed ec len).mono fun t ht => ⟨ht.1, ht.2, ht.3⟩)

theorem step_ends (h : Fronted false c) (a : Action) :
    c.step a = .error .disabled ∨ Ends false (Balance c a) (c.step a) := by
  cases a with
  | call call => exact .inr (Fronted.ends (call_fronted h call) ((call_same c call).reports.balance rfl rfl))
  | callInLoop call => exact .inr ((callInLoop_ends h call).mono fun t ht => ht.reports.balance rfl rfl)
  | runPosted => exact runPosted_ends h
  | removeConnection => exact removeConnection_ends h
  | writeEnds number ec => exact (writeEnds_ends h number ec).imp_right (·.mono fun t ht => ht.reports.balance rfl rfl)
  | runWrite number calls => exact (runWrite_ends h number calls).imp_right (·.mono fun t ht => ht.balance rfl rfl)
  | readEnds number ec bytes => exact (readEnds_ends h number ec bytes).imp_right (·.mono fun t ht => ht.reports.balance rfl rfl)
  | runRead number consumed calls =>
    exact (runRead_ends h number consumed calls).imp_right (·.mono fun t ht => ht.balance rfl rfl)

end Zylib.ZySoft.Net.TcpConnection
