import Zylib.Rediscpp.String

/-! `String` of `rediscpp` beside the map that redis keeps. A call returns what the map answers, but for the three commands
    whose documented reply has a type that the method takes for a wrong one. -/

namespace Zylib.Rediscpp

/-- The method takes the documented reply. -/
def Op.Agrees : Op → Prop
  | .getrange .. => False
  | .setex .. => False
  | .setrange .. => False
  | _ => True

instance : DecidablePred Op.Agrees
  | .getrange .. | .setex .. | .setrange .. => .isFalse id
  | .set .. | .get .. | .getset .. | .setnx .. | .strlen .. | .psetex .. | .incr .. | .incrby .. => .isTrue trivial

section
variable {σ : Type} {redisCommand : Server σ} {s s' : σ} {now : Nat} {op : Op} {reply : Reply} {answer : Answer} {m m' : Store}

/-- The answers to an increment are integers. -/
theorem Store.incrBy_answer {key : Bytes} {n : Int} (h : m.incrBy key n = some (answer, m')) : ∃ k, answer = .integer k := by
  unfold Store.incrBy at h
  obtain ⟨k, -, h⟩ := Option.bind_eq_some_iff.mp h
  split at h
  · cases h
    exact ⟨_, rfl⟩
  · cases h

theorem Store.setRange_answer (key value : Bytes) {n : Nat} : ∃ k, (m.setRange key n value).1 = .integer k := by
  unfold Store.setRange
  split
  · exact ⟨_, rfl⟩
  · exact ⟨_, rfl⟩

theorem call_snd (op : Op) : (call redisCommand s now op).2 = (redisCommand s now op.command op.args).2 := by
  cases op <;> rfl

/-- What a method makes of a reply. -/
def Op.result : Op → Option Reply → Except Exception Value
  | .set .., reply => (statusReply .SET reply).map fun _ => .unit
  | .get .., reply => (stringReply .GET reply).map .buffer
  | .getset .., reply => (stringReply .GETSET reply).map .buffer
  | .setex .., reply => (stringReply .SETEX reply).map .buffer
  | .psetex .., reply => (statusReply .PSETEX reply).map fun _ => .unit
  | .setnx .., reply => ((integerReply .SETNX reply).map fun n => decide (n = 1)).map .bool
  | .setrange .., reply => (nonNilStringReply .SETRANGE reply).map .buffer
  | .getrange .., reply => (statusReply .GETRANGE reply).map fun _ => .unit
  | .strlen .., reply => (integerReply .STRLEN reply).map .integer
  | .incr .., reply => (integerReply .INCR reply).map .integer
  | .incrby .., reply => (integerReply .INCRBY reply).map .integer

theorem call_fst (op : Op) : (call redisCommand s now op).1 = op.result (redisCommand s now op.command op.args).1 := by
  cases op <;> rfl

/-- A method returns what the answer is for, or throws because of the type of the reply. -/
theorem result_reply (happly : m.apply now op = some (answer, m')) :
    (op.Agrees → op.result (some answer.reply) = .ok (op.returned answer)) ∧
      (¬op.Agrees → ∃ msg, op.result (some answer.reply) = .error (.replyTypeException msg)) := by
  cases op with
  | set key value =>
    cases happly
    exact ⟨fun _ => rfl, fun h => absurd trivial h⟩
  | get key =>
    cases happly
    exact ⟨fun _ => by cases m.value? key <;> rfl, fun h => absurd trivial h⟩
  | getset key value =>
    cases happly
    exact ⟨fun _ => by cases m.value? key <;> rfl, fun h => absurd trivial h⟩
  | setex key timeout value =>
    cases happly
    exact ⟨False.elim, fun _ => ⟨_, rfl⟩⟩
  | psetex key timeout value =>
    cases happly
    exact ⟨fun _ => rfl, fun h => absurd trivial h⟩
  | setnx key value =>
    have happly := Option.some.inj happly
    split at happly <;> cases happly <;> exact ⟨fun _ => rfl, fun h => absurd trivial h⟩
  | setrange key offset value =>
    obtain ⟨k, hk⟩ := Store.setRange_answer (m := m) (n := offset.toInt.toNat) key value
    obtain rfl : answer = .integer k := by
      rw [← hk]
      exact (congrArg Prod.fst (Option.some.inj happly)).symm
    exact ⟨False.elim, fun _ => ⟨_, rfl⟩⟩
  | getrange key start stop =>
    cases happly
    exact ⟨False.elim, fun _ => ⟨_, rfl⟩⟩
  | strlen key =>
    cases happly
    exact ⟨fun _ => rfl, fun h => absurd trivial h⟩
  | incr key =>
    obtain ⟨k, rfl⟩ := Store.incrBy_answer happly
    exact ⟨fun _ => rfl, fun h => absurd trivial h⟩
  | incrby key increment =>
    obtain ⟨k, rfl⟩ := Store.incrBy_answer happly
    exact ⟨fun _ => rfl, fun h => absurd trivial h⟩

/-- A server that keeps to the documentation goes with the map. -/
theorem Documented.call {view : σ → Nat → Store} (hdoc : Documented redisCommand view) (hvalid : op.Valid) {elapsed : Nat}
    (hreply : (redisCommand s (now + elapsed) op.command op.args).1 = some reply) (hno : reply.isError = false) :
    ∃ answer, ((view s now).expire (now + elapsed)).apply (now + elapsed) op =
        some (answer, view (redisCommand s (now + elapsed) op.command op.args).2 (now + elapsed)) ∧
      reply = answer.reply := by
  rw [← hdoc.expire s (Nat.le_add_right now elapsed)]
  exact hdoc.answers hvalid (Prod.ext hreply rfl) hno

/-- The calls return what the map answers if and only if each is one of those whose reply the method takes. -/
theorem calls_iff {view : σ → Nat → Store} (hdoc : Documented redisCommand view) {ops : List (Nat × Op)}
    (hvalid : ∀ c ∈ ops, c.2.Valid) (hno : NoError redisCommand s now ops) :
    (∃ values, (view s now).calls now ops = some values ∧ calls redisCommand s now ops = values.map .ok) ↔
      ∀ c ∈ ops, c.2.Agrees := by
  induction ops generalizing s now with
  | nil => exact ⟨fun _ _ h => (List.not_mem_nil h).elim, fun _ => ⟨[], rfl, rfl⟩⟩
  | cons c ops ih =>
    obtain ⟨elapsed, op⟩ := c
    obtain ⟨hreply, hno⟩ := hno
    obtain ⟨reply, hreply, herror⟩ := Option.map_eq_some_iff.mp hreply
    have hop : op.Valid := hvalid _ List.mem_cons_self
    obtain ⟨answer, happly, rfl⟩ := hdoc.call hop hreply herror
    have ih := ih (fun c hc => hvalid c (List.mem_cons_of_mem _ hc)) hno
    obtain ⟨hagrees, hdiffers⟩ := result_reply happly
    have hcalls : calls redisCommand s now ((elapsed, op) :: ops) = op.result (some answer.reply) ::
        calls redisCommand (redisCommand s (now + elapsed) op.command op.args).2 (now + elapsed) ops := by
      rw [← hreply, ← call_fst, ← call_snd, calls]
    rw [hcalls, Store.calls, happly, List.forall_mem_cons, ← ih]
    by_cases hop : op.Agrees
    · rw [hagrees hop]
      constructor
      · rintro ⟨values, hvalues, heq⟩
        obtain ⟨rest, hrest, rfl⟩ := Option.map_eq_some_iff.mp hvalues
        exact ⟨hop, rest, hrest, (List.cons.inj heq).2⟩
      · rintro ⟨-, rest, hrest, heq⟩
        exact ⟨op.returned answer :: rest, Option.map_eq_some_iff.mpr ⟨rest, hrest, rfl⟩, heq ▸ rfl⟩
    · obtain ⟨msg, hmsg⟩ := hdiffers hop
      rw [hmsg]
      refine ⟨?_, fun h => absurd h.1 hop⟩
      rintro ⟨values, hvalues, heq⟩
      obtain ⟨rest, hrest, rfl⟩ := Option.map_eq_some_iff.mp hvalues
      cases (List.cons.inj heq).1

end

/-! ### A server that keeps nothing but the map -/

theorem signedValue_printfD (n : Int) : signedValue (printfD 0 n) = n := by
  rcases Int.lt_or_le n 0 with hneg | hnonneg
  · obtain ⟨digits, hdigits, -, -, hv⟩ := printfD_of_neg 0 hneg
    rw [hdigits, signedValue]
    omega
  · obtain ⟨-, hdigit, hv⟩ := printfD_spec 0 hnonneg
    unfold signedValue
    split
    · rename_i digits heq
      exact absurd (hdigit 45 (heq ▸ List.mem_cons_self)) (by decide)
    · omega

theorem toInteger?_printfD {n : Int} (hmin : -2 ^ 63 ≤ n) (hmax : n < 2 ^ 63) : toInteger? (printfD 0 n) = some n := by
  unfold toInteger?
  simp only [signedValue_printfD]
  exact if_pos ⟨trivial, hmin, hmax⟩

theorem decode_lld (n : Int64) : toInteger? (lld n) = some n.toInt :=
  toInteger?_printfD (Int64.le_toInt n) (Int64.toInt_lt n)

theorem Op.decode_args (op : Op) : Op.decode op.command op.args = some op := by
  cases op <;> simp [Op.command, Op.args, Op.decode, decode_lld]

namespace Store

variable {m m' : Store} {now : Nat} {op : Op} {answer : Answer}

/-- No entry has expired. -/
def Live (m : Store) (now : Nat) : Prop := ∀ key value deadline, m key = some (value, some deadline) → now ≤ deadline

theorem expire_of_live (h : m.Live now) : m.expire now = m := by
  funext key
  unfold expire
  split
  · rename_i value deadline hentry
    rw [if_neg (Nat.not_lt.mpr (h key value deadline hentry)), hentry]
  · rfl

theorem expire_eq_some {key value : Bytes} {deadline : Nat} (h : m.expire now key = some (value, some deadline)) :
    m key = some (value, some deadline) ∧ now ≤ deadline := by
  unfold expire at h
  split at h
  · rename_i hentry
    split at h
    · cases h
    · rename_i hle
      cases h
      exact ⟨hentry, Nat.not_lt.mp hle⟩
  · rename_i hno
    exact absurd h (hno value deadline)

theorem live_expire (m : Store) (now : Nat) : (m.expire now).Live now := fun _ _ _ h => (expire_eq_some h).2

theorem expire_expire {later : Nat} (h : now ≤ later) : (m.expire now).expire later = m.expire later := by
  funext key
  cases hentry : m key with
  | none => simp [expire, hentry]
  | some entry =>
    obtain ⟨value, deadline⟩ := entry
    cases deadline with
    | none => simp [expire, hentry]
    | some deadline =>
      by_cases hnow : deadline < now
      · simp [expire, hentry, hnow, Nat.lt_of_lt_of_le hnow h]
      · simp [expire, hentry, hnow]

theorem live_put (h : m.Live now) {deadline : Option Nat} (hd : ∀ d, deadline = some d → now ≤ d) (key value : Bytes) :
    (m.put key value deadline).Live now := by
  intro k v d hentry
  unfold put at hentry
  split at hentry
  · cases hentry
    exact hd d rfl
  · exact h k v d hentry

/-- An update of a value leaves its deadline. -/
theorem live_put_deadline? (h : m.Live now) (key value : Bytes) : (m.put key value (m.deadline? key)).Live now := by
  refine live_put h (fun d hd => ?_) key value
  obtain ⟨⟨old, deadline⟩, hentry, rfl⟩ := Option.bind_eq_some_iff.mp hd
  exact h key old d hentry

theorem live_incrBy (h : m.Live now) {key : Bytes} {n : Int} (happly : m.incrBy key n = some (answer, m')) : m'.Live now := by
  unfold incrBy at happly
  obtain ⟨k, -, happly⟩ := Option.bind_eq_some_iff.mp happly
  split at happly
  · cases happly
    exact live_put_deadline? h key _
  · cases happly

theorem live_setRange (h : m.Live now) (key : Bytes) (offset : Nat) (value : Bytes) :
    (m.setRange key offset value).2.Live now := by
  unfold setRange
  split
  · exact h
  · exact live_put_deadline? h key _

theorem live_apply (h : m.Live now) (happly : m.apply now op = some (answer, m')) : m'.Live now := by
  have hnone : ∀ key value, (m.put key value none).Live now := live_put h fun d hd => by cases hd
  cases op with
  | set key value =>
    cases happly
    exact hnone key value
  | get key =>
    cases happly
    exact h
  | getset key value =>
    cases happly
    exact hnone key value
  | setex key timeout value =>
    cases happly
    refine live_put h (fun d hd => ?_) key value
    cases hd
    exact Nat.le_add_right _ _
  | psetex key timeout value =>
    cases happly
    refine live_put h (fun d hd => ?_) key value
    cases hd
    exact Nat.le_add_right _ _
  | setnx key value =>
    have happly := Option.some.inj happly
    split at happly <;> cases happly
    · exact h
    · exact hnone key value
  | setrange key offset value =>
    have hstore : (m.setRange key offset.toInt.toNat value).2 = m' := congrArg Prod.snd (Option.some.inj happly)
    exact hstore ▸ live_setRange h key offset.toInt.toNat value
  | getrange key start stop =>
    cases happly
    exact h
  | strlen key =>
    cases happly
    exact h
  | incr key => exact live_incrBy h happly
  | incrby key increment => exact live_incrBy h happly

theorem documented_server : Documented Store.server fun m now => m.expire now where
  expire m now later h := (expire_expire h).symm
  answers {m m' now op reply} _ hreply herror := by
    unfold server at hreply
    rw [Op.decode_args, Option.bind_some] at hreply
    split at hreply
    · cases hreply
      cases herror
    · rename_i answer m₁ happly
      cases hreply
      exact ⟨answer, by rw [happly, expire_of_live (live_apply (live_expire m now) happly)], rfl⟩

end Store

/-- A value is set, added to and expires; another one is exchanged. -/
theorem calls_iff_expired :
    let ops : List (Nat × Op) := [(0, .set [97] [49, 50]), (1, .incrby [97] (-5)), (0, .psetex [98] 10 [0, 1]),
      (10, .strlen [98]), (1, .get [98]), (0, .getset [97] []), (2, .setnx [97] [49])]
    (∃ values : List Value, (Store.empty.expire 0).calls 0 ops = some values ∧
      calls Store.server Store.empty 0 ops = values.map .ok) ↔ ∀ c ∈ ops, c.2.Agrees := by
  intro ops
  exact calls_iff Store.documented_server (by decide) (by decide)

/-- `SETEX` sets the value, is answered "OK" and throws. -/
theorem setex_throws : ¬∀ (σ : Type) (redisCommand : Server σ) (view : σ → Nat → Store), Documented redisCommand view →
    ∀ s now (ops : List (Nat × Op)), (∀ c ∈ ops, c.2.Valid) → NoError redisCommand s now ops →
      ∃ values, (view s now).calls now ops = some values ∧ calls redisCommand s now ops = values.map .ok := by
  intro h
  obtain ⟨values, -, heq⟩ := h Store Store.server _ Store.documented_server Store.empty 0 [(0, .setex [97] 10 [120])]
    (by decide) (by decide)
  cases values with
  | nil => cases heq
  | cons value values => cases (List.cons.inj heq).1

end Zylib.Rediscpp
