/-
Two systems that take labelled steps, and a relation between their states. When every step of the one
is matched by a run of the other that restores the relation, every run of the one is matched by a run
of the other (`Simulates.run`). Besides it: how runs compose, and a rule that a goal can be reached,
by a rank that some step lowers until it is (`reach`).
-/
import Ocdm.Lib.Trace

namespace Trace

variable {σ α : Type} {step : σ → α → Option σ} {ok : σ → α → Prop}

theorem Run.append {s s' s'' : σ} {as as' : List α} (h : Run step ok s as s') (h' : Run step ok s' as' s'') :
    Run step ok s (as ++ as') s'' := by
  induction h with
  | nil => exact h'
  | cons hok ha _ ih => exact .cons hok ha (ih h')

theorem Run.single {s s' : σ} {a : α} (hok : ok s a) (ha : step s a = some s') : Run step ok s [a] s' :=
  .cons hok ha (.nil s')

/-- The goal can be reached from every state of the invariant when some step keeps the invariant and
lowers the rank as long as the goal is not met. -/
theorem reach (I goal : σ → Prop) (rank : σ → Nat)
    (hstep : ∀ s, I s → goal s ∨ ∃ a s', ok s a ∧ step s a = some s' ∧ I s' ∧ rank s' < rank s) {s : σ} (hs : I s) :
    ∃ as s', Run step ok s as s' ∧ I s' ∧ goal s' := by
  induction hn : rank s using Nat.strongRecOn generalizing s with
  | ind n ih =>
    rcases hstep s hs with hgoal | ⟨a, s', hok, ha, hs', hlt⟩
    · exact ⟨[], s, .nil s, hs, hgoal⟩
    · obtain ⟨as, s'', hrun, hs'', hgoal⟩ := ih (rank s') (hn ▸ hlt) hs' rfl
      exact ⟨a :: as, s'', .cons hok ha hrun, hs'', hgoal⟩

end Trace

namespace Refine

open Trace

variable {σ α τ β : Type} {step : σ → α → Option σ} {ok : σ → α → Prop} {step' : τ → β → Option τ}
  {ok' : τ → β → Prop}

/-- Every step of the first system is matched by a run of the second that restores the relation. -/
def Simulates (step : σ → α → Option σ) (ok : σ → α → Prop) (step' : τ → β → Option τ) (ok' : τ → β → Prop)
    (R : σ → τ → Prop) : Prop :=
  ∀ s t a s', R s t → ok s a → step s a = some s' → ∃ bs t', Run step' ok' t bs t' ∧ R s' t'

/-- Every step of the first system is none of the second, or one. -/
theorem simulates_of_steps {R : σ → τ → Prop}
    (h : ∀ s t a s', R s t → ok s a → step s a = some s' →
      R s' t ∨ ∃ b t', ok' t b ∧ step' t b = some t' ∧ R s' t') : Simulates step ok step' ok' R := by
  intro s t a s' hR hok ha
  rcases h s t a s' hR hok ha with hR' | ⟨b, t', hok', hb, hR'⟩
  · exact ⟨[], t, .nil t, hR'⟩
  · exact ⟨[b], t', .single hok' hb, hR'⟩

theorem Simulates.run {R : σ → τ → Prop} (h : Simulates step ok step' ok' R) {s s' : σ} {t : τ} {as : List α}
    (hrun : Run step ok s as s') (hR : R s t) : ∃ bs t', Run step' ok' t bs t' ∧ R s' t' := by
  induction hrun generalizing t with
  | nil => exact ⟨[], t, .nil t, hR⟩
  | cons hok ha _ ih =>
    obtain ⟨bs, t', hbs, hR'⟩ := h _ _ _ _ hR hok ha
    obtain ⟨bs', t'', hbs', hR''⟩ := ih hR'
    exact ⟨bs ++ bs', t'', hbs.append hbs', hR''⟩

end Refine
