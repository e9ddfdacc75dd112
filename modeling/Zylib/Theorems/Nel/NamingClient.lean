import Zylib.Nel.NamingClient

/-! The state of a `NamingClient` while it connects. No completion ever changes it, so it is right for as long as no attempt
    completes; and `isConnected` compares it with the wrong value, so it is right just while the client connects. -/

namespace Zylib.Nel.NamingClient
open Run

variable {τ : Type} {wheel : TimingWheel τ} {fromString : Bytes → Bool} {c t : NamingClient τ}

/-- What every run keeps: the client connects or is taken to be disconnected, and while it is so taken beside an attempt
    its address is none. -/
structure Inv (fromString : Bytes → Bool) (c : NamingClient τ) : Prop where
  state : c.state = .CONNECTING ∨ c.state = .DISCONNECT
  addr : c.state = .DISCONNECT → 0 < c.attempts → fromString c.addr.ip = false
  single : c.overlapped = false

theorem inv_start (wheel : TimingWheel τ) (fromString : Bytes → Bool) : Inv fromString (start wheel) where
  state := .inr rfl
  addr _ h := absurd h (Nat.lt_irrefl 0)
  single := rfl

/-! ### Steps -/

/-- What an attempt does with the state. -/
theorem asyncConnect_cases (fromString : Bytes → Bool) (c : NamingClient τ) (addr : CInetAddress) :
    (fromString addr.ip = true ∧ (asyncConnect fromString c addr).2 = { c with state := .CONNECTING, attempts := c.attempts + 1 }) ∨
      (fromString addr.ip = false ∧ (asyncConnect fromString c addr).2 = { c with state := .DISCONNECT }) := by
  unfold asyncConnect
  cases h : fromString addr.ip
  · exact .inr ⟨rfl, rfl⟩
  · exact .inl ⟨rfl, rfl⟩

/-- An `update` changes the timer, or tries the address again, from the state of a client that is disconnected. -/
theorem update_cases (wheel : TimingWheel τ) (fromString : Bytes → Bool) (c : NamingClient τ) (diffTime : Int) :
    (∃ timer, update wheel fromString c diffTime = { c with timer }) ∨
      (c.state = .DISCONNECT ∧ fromString c.addr.ip = true ∧ ∃ timer, update wheel fromString c diffTime =
        { c with timer, state := .CONNECTING, attempts := c.attempts + 1 }) := by
  unfold update
  split
  next hstate => exact .inl ⟨c.timer, rfl⟩
  next hstate => exact .inl ⟨c.timer, rfl⟩
  next hstate =>
    split
    · dsimp only
      split
      · rcases asyncConnect_cases fromString { c with timer := wheel.empty } c.addr with ⟨haddr, heq⟩ | ⟨-, heq⟩
        · exact .inr ⟨hstate, haddr, _, heq⟩
        · exact .inl ⟨_, heq.trans (by rw [← hstate])⟩
      · exact .inl ⟨_, rfl⟩
    · exact .inl ⟨_, rfl⟩
  next hstate => exact .inl ⟨c.timer, rfl⟩

theorem step_connect (wheel : TimingWheel τ) (fromString : Bytes → Bool) (c : NamingClient τ) (addr : CInetAddress) :
    (fromString addr.ip = true ∧ step wheel fromString c (.connect addr) =
        .ok { c with addr, state := .CONNECTING, attempts := c.attempts + 1, completed := none }) ∨
      (fromString addr.ip = false ∧ step wheel fromString c (.connect addr) =
        .ok { c with addr, state := .DISCONNECT, completed := none }) := by
  rcases asyncConnect_cases fromString { c with addr } addr with ⟨haddr, heq⟩ | ⟨haddr, heq⟩
  · refine .inl ⟨haddr, ?_⟩
    rw [step, connect, heq]
  · refine .inr ⟨haddr, ?_⟩
    rw [step, connect, heq]

/-- A completion is nothing to the state. -/
theorem step_complete (wheel : TimingWheel τ) (success : Bool) (h : c.attempts ≠ 0) :
    step wheel fromString c (.complete success) = .ok { c with attempts := c.attempts - 1, completed := some success } := by
  rw [step, if_neg h]
  cases success <;> rfl

theorem step_update (wheel : TimingWheel τ) (fromString : Bytes → Bool) (c : NamingClient τ) (diffTime : Int) :
    (∃ timer, step wheel fromString c (.update diffTime) = .ok { c with timer, completed := none }) ∨
      (c.state = .DISCONNECT ∧ fromString c.addr.ip = true ∧ ∃ timer, step wheel fromString c (.update diffTime) =
        .ok { c with
          timer, state := .CONNECTING, attempts := c.attempts + 1, completed := none
          overlapped := c.overlapped || decide (0 < c.attempts) }) := by
  rcases update_cases wheel fromString c diffTime with ⟨timer, heq⟩ | ⟨hstate, haddr, timer, heq⟩
  · refine .inl ⟨timer, ?_⟩
    rw [step, heq]
    simp
  · refine .inr ⟨hstate, haddr, timer, ?_⟩
    rw [step, heq]
    simp

/-- An attempt that `update` starts is the only one: beside another its address would be none. -/
theorem Inv.attempts_eq_zero (hI : Inv fromString c) (hstate : c.state = .DISCONNECT) (haddr : fromString c.addr.ip = true) :
    c.attempts = 0 := by
  by_contra hattempts
  exact absurd haddr (Bool.eq_false_iff.mp (hI.addr hstate (Nat.pos_of_ne_zero hattempts)))

/-- No step leaves the invariant, whatever the input. -/
theorem inv_step {input : Input} (hI : Inv fromString c) (h : step wheel fromString c input = .ok t) : Inv fromString t := by
  cases input with
  | connect addr =>
    rcases step_connect wheel fromString c addr with ⟨-, heq⟩ | ⟨haddr, heq⟩
    · cases heq.symm.trans h
      exact ⟨.inl rfl, nofun, hI.single⟩
    · cases heq.symm.trans h
      exact ⟨.inr rfl, fun _ _ => haddr, hI.single⟩
  | complete success =>
    by_cases hattempts : c.attempts = 0
    · rw [step, if_pos hattempts] at h
      cases h
    · cases (step_complete wheel success hattempts).symm.trans h
      exact ⟨hI.state, fun hstate _ => hI.addr hstate (Nat.pos_of_ne_zero hattempts), hI.single⟩
  | update diffTime =>
    rcases step_update wheel fromString c diffTime with ⟨timer, heq⟩ | ⟨hstate, haddr, timer, heq⟩
    · cases heq.symm.trans h
      exact ⟨hI.state, hI.addr, hI.single⟩
    · cases heq.symm.trans h
      refine ⟨.inl rfl, nofun, ?_⟩
      rw [hI.single, hI.attempts_eq_zero hstate haddr]
      rfl

theorem inv_run {inputs : List Input} (h : run (step wheel fromString) (start wheel) inputs = .ok t) : Inv fromString t :=
  run_invariant (P := fun _ _ => True) (fun hI _ => inv_step hI) (inv_start wheel fromString) (along_true _ inputs) h

theorem corresponds_start (wheel : TimingWheel τ) : Corresponds (start wheel) where
  connecting := ⟨nofun, fun h => absurd h (Nat.lt_irrefl 0)⟩
  success := nofun
  failure := nofun
  single := rfl

/-- Where the state tells of the attempts, it does so after the inputs that leave it, and after no other. -/
theorem corresponds_step (wheel : TimingWheel τ) {input : Input} (hI : Inv fromString c) (hc : Corresponds c) :
    (∃ t, step wheel fromString c input = .ok t ∧ Corresponds t) ↔ input.Leaves fromString c := by
  cases input with
  | connect addr =>
    rcases step_connect wheel fromString c addr with ⟨haddr, heq⟩ | ⟨haddr, heq⟩
    · rw [heq]
      exact iff_of_true ⟨_, rfl, ⟨fun _ => Nat.succ_pos _, fun _ => rfl⟩, nofun, nofun, hc.single⟩ (.inl haddr)
    · rw [heq]
      constructor
      · rintro ⟨t, ht, h⟩
        cases ht
        exact .inr (Nat.eq_zero_of_not_pos fun hpos => nomatch h.connecting.mpr hpos)
      · rintro (h | hnone)
        · exact absurd h (Bool.eq_false_iff.mp haddr)
        · exact ⟨_, rfl, ⟨nofun, fun hpos => absurd hpos (hnone ▸ Nat.lt_irrefl 0)⟩, nofun, nofun, hc.single⟩
  | complete success =>
    refine iff_of_false ?_ id
    rintro ⟨t, ht, h⟩
    by_cases hattempts : c.attempts = 0
    · rw [step, if_pos hattempts] at ht
      cases ht
    · cases (step_complete wheel success hattempts).symm.trans ht
      -- An attempt had not completed, so the client connects, and it goes on doing so.
      have hstate : c.state = .CONNECTING := hc.connecting.mpr (Nat.pos_of_ne_zero hattempts)
      cases success
      · exact absurd (hstate.symm.trans (h.failure rfl)) (by decide)
      · exact absurd (hstate.symm.trans (h.success rfl)) (by decide)
  | update diffTime =>
    refine iff_of_true ?_ trivial
    rcases step_update wheel fromString c diffTime with ⟨timer, heq⟩ | ⟨hstate, haddr, timer, heq⟩
    · exact ⟨_, heq, hc.connecting, nofun, nofun, hc.single⟩
    · refine ⟨_, heq, ⟨fun _ => Nat.succ_pos _, fun _ => rfl⟩, nofun, nofun, ?_⟩
      rw [hc.single, hI.attempts_eq_zero hstate haddr]
      rfl

/-! ### Runs -/

theorem always_corresponds_iff (wheel : TimingWheel τ) (fromString : Bytes → Bool) (inputs : List Input) :
    Always (step wheel fromString) Corresponds (start wheel) inputs ↔
      Along (step wheel fromString) (fun c input => input.Leaves fromString c) (start wheel) inputs := by
  refine always_iff_along_of (A := fun _ _ => True) (J := fun c => Inv fromString c ∧ Corresponds c) And.right ?_ ?_
    ⟨inv_start wheel fromString, corresponds_start wheel⟩ (along_true _ inputs)
  · intro c input hJ _ hleaves
    obtain ⟨t, ht, hc⟩ := (corresponds_step wheel hJ.1 hJ.2).mpr hleaves
    exact ⟨t, ht, inv_step hJ.1 ht, hc⟩
  · exact fun hJ _ ht hc => (corresponds_step wheel hJ.1 hJ.2).mp ⟨_, ht, hc⟩

/-- `isConnected` is asked of the state `DISCONNECT`. -/
theorem reports_iff (hI : Inv fromString c) : Reports c ↔ c.state = .CONNECTING := by
  unfold Reports isConnected getState
  rcases hI.state with h | h
  · rw [h]
    decide
  · rw [h]
    decide

/-- No run meets the claim, since it begins in a state that `isConnected` tells wrong. The state itself is right in a run
    just as long as no attempt completes and no `connect` fails beside one. -/
theorem not_always_reports (wheel : TimingWheel τ) (fromString : Bytes → Bool) (inputs : List Input) :
    ¬Always (step wheel fromString) (fun c => Corresponds c ∧ Reports c) (start wheel) inputs ∧
      (Always (step wheel fromString) Corresponds (start wheel) inputs ↔
        Along (step wheel fromString) (fun c input => input.Leaves fromString c) (start wheel) inputs) ∧
      ∀ t, run (step wheel fromString) (start wheel) inputs = .ok t →
        t.overlapped = false ∧ (Reports t ↔ t.state = .CONNECTING) := by
  refine ⟨fun h => ?_, always_corresponds_iff wheel fromString inputs, fun t ht => ?_⟩
  · have hstart : Corresponds (start wheel) ∧ Reports (start wheel) := by
      cases inputs with
      | nil => exact h
      | cons => exact h.1
    exact absurd ((reports_iff (inv_start wheel fromString)).mp hstart.2) nofun
  · exact ⟨(inv_run ht).single, reports_iff (inv_run ht)⟩

/-- A timer that adds up the differences, and is not valid before it has been set. -/
def countingWheel : TimingWheel (Option (Int × Int)) where
  empty := none
  ofSeconds d := some (0, d)
  valid := Option.isSome
  update t diffTime := t.map fun (elapsed, expire) => (elapsed + diffTime, expire)
  passed t := t.any fun (elapsed, expire) => expire ≤ elapsed

def localhost : CInetAddress := { ip := [49, 50, 55, 46, 48, 46, 48, 46, 49], port := 5000 }

/-- After an attempt that has succeeded the client still connects. -/
theorem not_always_correct : ¬ ∀ (τ : Type) (wheel : TimingWheel τ) (fromString : Bytes → Bool) (inputs : List Input),
    Always (step wheel fromString) (fun c => Corresponds c ∧ Reports c) (start wheel) inputs := by
  intro h
  obtain ⟨t, ht, hcorresponds, -⟩ :=
    (h _ countingWheel (· == localhost.ip) [.connect localhost, .complete true]).run
  cases ht
  exact absurd (hcorresponds.success rfl) (by decide)

end Zylib.Nel.NamingClient
