import Mathlib.Data.List.Basic

/-! The loop `while (true) { if (!once(s, &m)) break; out.push_back(m); }`.

    `drain once n s out` is what at most `n` turns of the loop give; `Drains` is the relation of a
    loop that ends without an error. -/

namespace Drain

/-- Why a loop gives no result: it is still running, or a turn raised an error. -/
inductive Stop (ε : Type*) where
  | running
  | threw (e : ε)
deriving DecidableEq

variable {σ β ε : Type*} {once : σ → Except ε (Option (β × σ))}

/-- At most `n` turns from the state `s`, the messages taken so far being `out`. -/
def drain (once : σ → Except ε (Option (β × σ))) : Nat → σ → List β → Except (Stop ε) (List β × σ)
  | 0, _, _ => .error .running
  | n + 1, s, out =>
    match once s with
    | .error e => .error (.threw e)
    | .ok none => .ok (out, s)
    | .ok (some (m, t)) => drain once n t (out ++ [m])

/-- The loop from `s` takes the messages `ms` and breaks at the state `t`. -/
inductive Drains (once : σ → Except ε (Option (β × σ))) : σ → List β → σ → Prop where
  | done {s : σ} : once s = .ok none → Drains once s [] s
  | more {s t u : σ} {m : β} {ms : List β} : once s = .ok (some (m, t)) → Drains once t ms u →
      Drains once s (m :: ms) u

theorem drain_mono {n k : Nat} {s : σ} {out : List β} {r : List β × σ} (h : drain once n s out = .ok r)
    (hk : n ≤ k) : drain once k s out = .ok r := by
  induction n generalizing k s out with
  | zero => cases h
  | succ n ih =>
    obtain ⟨k, rfl⟩ : ∃ j, k = j + 1 := ⟨k - 1, by omega⟩
    simp only [drain] at h ⊢
    split at h
    · cases h
    · exact h
    · exact ih h (by omega)

/-- A loop that ends needs one turn for each message and one for the break. -/
theorem Drains.drain {s t : σ} {ms : List β} (h : Drains once s ms t) (out : List β) :
    drain once (ms.length + 1) s out = .ok (out ++ ms, t) := by
  induction h generalizing out with
  | done h0 => simp [Drain.drain, h0]
  | @more s t u m ms h0 _ ih =>
    rw [List.length_cons, Drain.drain, h0]
    simpa using ih (out ++ [m])

theorem drains_of_drain {n : Nat} {s t : σ} {out out' : List β} (h : drain once n s out = .ok (out', t)) :
    ∃ ms, out' = out ++ ms ∧ Drains once s ms t := by
  induction n generalizing s out with
  | zero => cases h
  | succ n ih =>
    simp only [drain] at h
    split at h
    · cases h
    · rename_i h0
      cases h
      exact ⟨[], (List.append_nil _).symm, .done h0⟩
    · rename_i m t' h0
      obtain ⟨ms, rfl, hd⟩ := ih h
      exact ⟨m :: ms, by simp, .more h0 hd⟩

theorem exists_drain_iff {s t : σ} {ms : List β} :
    (∃ n, drain once n s [] = .ok (ms, t)) ↔ Drains once s ms t := by
  constructor
  · rintro ⟨n, h⟩
    obtain ⟨ms', rfl, hd⟩ := drains_of_drain h
    exact hd
  · intro h
    exact ⟨ms.length + 1, h.drain []⟩

theorem drain_of_fixed {s : σ} {m : β} (h : once s = .ok (some (m, s))) (n : Nat) (out : List β) :
    drain once n s out = .error .running := by
  induction n generalizing out with
  | zero => rfl
  | succ n ih =>
    rw [drain, h]
    exact ih _

end Drain
