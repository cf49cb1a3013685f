/-
Runs of a system that takes labelled steps. `step s a` is the state after the action `a`, or nothing
when the action is not enabled in `s`; `Run step ok s as s'` is a run through the actions `as` in
which every step meets the condition `ok`. The rules: the invariant rule, runs under a weaker
condition or one the invariant gives, composition, and the runs of the executable `exec`.
-/
import Mathlib.Tactic.Common

namespace Trace

variable {σ α : Type} {step : σ → α → Option σ} {ok ok' : σ → α → Prop}

/-- A run from one state to another in which every step meets `ok`. -/
inductive Run (step : σ → α → Option σ) (ok : σ → α → Prop) : σ → List α → σ → Prop where
  | nil (s : σ) : Run step ok s [] s
  | cons {s s' s'' : σ} {a : α} {as : List α} :
      ok s a → step s a = some s' → Run step ok s' as s'' → Run step ok s (a :: as) s''

/-- The invariant rule: what holds at the start, and is kept by every step that meets the condition,
holds at the end. -/
theorem Run.invariant (I : σ → Prop) (hstep : ∀ s a s', I s → ok s a → step s a = some s' → I s')
    {s s' : σ} {as : List α} (h : Run step ok s as s') (hs : I s) : I s' := by
  induction h with
  | nil => exact hs
  | cons hok ha _ ih => exact ih (hstep _ _ _ hs hok ha)

theorem Run.mono (hmono : ∀ s a, ok s a → ok' s a) {s s' : σ} {as : List α} (h : Run step ok s as s') :
    Run step ok' s as s' := by
  induction h with
  | nil s => exact .nil s
  | cons hok ha _ ih => exact .cons (hmono _ _ hok) ha ih

/-- Steps that meet another condition wherever the invariant holds. -/
theorem Run.strengthen (I : σ → Prop) (hstep : ∀ s a s', I s → ok s a → step s a = some s' → ok' s a ∧ I s')
    {s s' : σ} {as : List α} (h : Run step ok s as s') (hs : I s) : Run step ok' s as s' := by
  induction h with
  | nil s => exact .nil s
  | cons hok ha _ ih =>
    obtain ⟨hok', hs'⟩ := hstep _ _ _ hs hok ha
    exact .cons hok' ha (ih hs')

/-- Steps that meet two conditions. -/
theorem Run.and {s s' : σ} {as : List α} (h : Run step ok s as s') (h' : Run step ok' s as s') :
    Run step (fun s a => ok s a ∧ ok' s a) s as s' := by
  induction h with
  | nil s => exact .nil s
  | cons hok ha _ ih =>
    obtain _ | ⟨hok', ha', h'⟩ := h'
    rw [ha] at ha'
    cases ha'
    exact .cons ⟨hok, hok'⟩ ha (ih h')

/-- The state after a list of actions, if each is enabled in turn and meets the condition. -/
def exec (step : σ → α → Option σ) (ok : σ → α → Prop) [∀ s a, Decidable (ok s a)] : σ → List α → Option σ
  | s, [] => some s
  | s, a :: as => if ok s a then (step s a).bind fun s' => exec step ok s' as else none

theorem exec_run [∀ s a, Decidable (ok s a)] {s s' : σ} {as : List α} (h : exec step ok s as = some s') :
    Run step ok s as s' := by
  induction as generalizing s with
  | nil => cases h; exact .nil _
  | cons a as ih =>
    rw [exec] at h
    split at h
    · rename_i hok
      obtain ⟨s1, ha, h⟩ := Option.bind_eq_some_iff.1 h
      exact .cons hok ha (ih h)
    · cases h

end Trace
