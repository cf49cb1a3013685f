/-
Machines that answer each input with effects. `step s a` is the state after the input `a` and what it brings about,
`run step s as` what all inputs bring about, one after the other. The rules: composition, and where an effect of a
run comes from.
-/
import Mathlib.Tactic.Common

namespace Effects

variable {σ α ε ε' : Type} (step : σ → α → σ × List ε)

/-- The state after the inputs, and all their effects. -/
def run : σ → List α → σ × List ε
  | s, [] => (s, [])
  | s, a :: as => ((run (step s a).1 as).1, (step s a).2 ++ (run (step s a).1 as).2)

@[simp] theorem run_nil (s : σ) : run step s [] = (s, []) := rfl

theorem run_cons (s : σ) (a : α) (as : List α) :
    run step s (a :: as) = ((run step (step s a).1 as).1, (step s a).2 ++ (run step (step s a).1 as).2) := rfl

theorem run_append (s : σ) (as as' : List α) : run step s (as ++ as') =
    ((run step (run step s as).1 as').1, (run step s as).2 ++ (run step (run step s as).1 as').2) := by
  induction as generalizing s with
  | nil => simp
  | cons a as ih => rw [List.cons_append, run_cons, ih, run_cons, List.append_assoc]

theorem run_concat (s : σ) (as : List α) (a : α) : run step s (as ++ [a]) =
    ((step (run step s as).1 a).1, (run step s as).2 ++ (step (run step s as).1 a).2) := by
  rw [run_append, run_cons]
  simp

/-- The states of a run do not depend on the effects. -/
theorem run_state (step' : σ → α → σ × List ε') (h : ∀ s a, (step s a).1 = (step' s a).1) (s : σ)
    (as : List α) : (run step s as).1 = (run step' s as).1 := by
  induction as generalizing s with
  | nil => rfl
  | cons a as ih => exact (ih _).trans (congrArg (fun t => (run step' t as).1) (h s a))

/-- What every step leaves as it is when its effects are carried out, a run does. -/
theorem foldlM_run {κ : Type} {f : κ → ε → Option κ} {x : κ} (h : ∀ s a, (step s a).2.foldlM f x = some x) (s : σ)
    (as : List α) : (run step s as).2.foldlM f x = some x := by
  induction as generalizing s with
  | nil => rfl
  | cons a as ih =>
    rw [run_cons, List.foldlM_append, h s a]
    exact ih _

/-- An effect of a run is one of some input, in the state the inputs before it leave. -/
theorem mem_run {s : σ} {as : List α} {e : ε} : e ∈ (run step s as).2 ↔
    ∃ before a after, as = before ++ a :: after ∧ e ∈ (step (run step s before).1 a).2 := by
  constructor
  · intro h
    induction as generalizing s with
    | nil => cases h
    | cons a as ih =>
      rcases List.mem_append.1 h with h | h
      · exact ⟨[], a, as, rfl, h⟩
      · obtain ⟨before, b, after, rfl, hb⟩ := ih h
        exact ⟨a :: before, b, after, rfl, hb⟩
  · rintro ⟨before, a, after, rfl, h⟩
    rw [run_append, run_cons]
    exact List.mem_append_right _ (List.mem_append_left _ h)

/-- An element of two lists one behind the other stands in the first, or in the second. -/
theorem append_split {xs ys pre post : List ε} {e : ε} (h : xs ++ ys = pre ++ e :: post) :
    (∃ post', xs = pre ++ e :: post') ∨ ∃ pre', pre = xs ++ pre' ∧ ys = pre' ++ e :: post := by
  rcases List.append_eq_append_iff.1 h with ⟨pre', rfl, htail⟩ | ⟨post', hxs, hpost⟩
  · exact .inr ⟨pre', rfl, htail⟩
  · cases post' with
    | nil => exact .inr ⟨[], by rw [hxs, List.append_nil, List.append_nil], hpost.symm⟩
    | cons e' post' =>
      obtain ⟨rfl, -⟩ := List.cons.inj hpost
      exact .inl ⟨post', hxs⟩

end Effects
