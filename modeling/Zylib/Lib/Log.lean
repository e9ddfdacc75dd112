import Mathlib.Data.List.Induction

/-! Logs of events that each depend on those before them. -/

namespace Log

variable {α : Type*} {ok : List α → α → Prop} {log es : List α} {e : α}

/-- Each event of the log is allowed after the events before it. -/
def Respects (ok : List α → α → Prop) (log : List α) : Prop := ∀ pre e, pre ++ [e] <+: log → ok pre e

theorem respects_nil : Respects ok [] := fun pre e h => by simp at h

theorem Respects.initial (h : Respects ok log) (hes : es <+: log) : Respects ok es :=
  fun pre e hpre => h pre e (hpre.trans hes)

theorem respects_concat : Respects ok (log ++ [e]) ↔ Respects ok log ∧ ok log e := by
  constructor
  · exact fun h => ⟨h.initial (List.prefix_append _ _), h log e List.prefix_rfl⟩
  · rintro ⟨h, he⟩ pre x hpre
    rcases List.prefix_concat_iff.mp hpre with heq | hpre
    · obtain ⟨hlog, hx⟩ := List.append_inj' heq rfl
      cases hlog
      cases hx
      exact he
    · exact h pre x hpre

theorem respects_append :
    Respects ok (log ++ es) ↔ Respects ok log ∧ ∀ pre e, pre ++ [e] <+: es → ok (log ++ pre) e := by
  constructor
  · intro h
    refine ⟨h.initial (List.prefix_append _ _), fun pre e hpre => h (log ++ pre) e ?_⟩
    rw [List.append_assoc]
    exact (List.prefix_append_right_inj log).mpr hpre
  · rintro ⟨h, hes⟩
    induction es using List.reverseRecOn with
    | nil => simpa using h
    | append_singleton es x ih =>
      rw [← List.append_assoc, respects_concat]
      refine ⟨ih fun pre e hpre => hes pre e (hpre.trans (List.prefix_append _ _)), ?_⟩
      exact hes es x List.prefix_rfl

/-- Events that are allowed anywhere. -/
theorem respects_append_free (hes : ∀ e ∈ es, ∀ pre, ok pre e) : Respects ok (log ++ es) ↔ Respects ok log := by
  rw [respects_append]
  exact and_iff_left fun pre e hpre => hes e (hpre.subset (List.mem_append_right _ List.mem_cons_self)) _

/-- Events that do not depend on each other. -/
theorem respects_append_iff (hes : ∀ pre e, pre ++ [e] <+: es → (ok (log ++ pre) e ↔ ok log e)) :
    Respects ok (log ++ es) ↔ Respects ok log ∧ ∀ e ∈ es, ok log e := by
  rw [respects_append]
  refine and_congr_right fun _ => ⟨fun h e he => ?_, fun h pre e hpre => ?_⟩
  · obtain ⟨pre, post, rfl⟩ := List.append_of_mem he
    have hpre : pre ++ [e] <+: pre ++ e :: post := ⟨post, by simp⟩
    exact (hes pre e hpre).mp (h pre e hpre)
  · exact (hes pre e hpre).mpr (h e (hpre.subset (List.mem_append_right _ List.mem_cons_self)))

end Log
