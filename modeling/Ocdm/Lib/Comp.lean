/-
Computations that may run for ever, for programs whose loops are not known to end: a computation
is run with a budget of passes and has a result or not yet, and a result found with some budget is
found with every larger one. `loop` is the `while` loop whose body is itself such a computation.
The rules: what `pure`, `bind` and `loop` return, the invariant rule, the variant rule and the
divergence rule for `loop`.
-/
import Mathlib.Logic.Relation
import Mathlib.Tactic.Common

/-- A computation of an `α` that need not end: `run n` is its result when `n` passes of every loop
in it are enough. -/
structure Comp (α : Type) where
  run : Nat → Option α
  mono : ∀ n a, run n = some a → run (n + 1) = some a

namespace Comp

variable {α β σ τ : Type}

theorem run_le (c : Comp α) {n m : Nat} {a : α} (hnm : n ≤ m) (h : c.run n = some a) : c.run m = some a := by
  induction hnm with
  | refl => exact h
  | step _ ih => exact c.mono _ a ih

/-- The computation ends with the result `a`. -/
def Returns (c : Comp α) (a : α) : Prop := ∃ n, c.run n = some a

/-- The computation ends. -/
def Terminates (c : Comp α) : Prop := ∃ a, c.Returns a

theorem Returns.unique {c : Comp α} {a b : α} (ha : c.Returns a) (hb : c.Returns b) : a = b := by
  obtain ⟨n, hn⟩ := ha
  obtain ⟨m, hm⟩ := hb
  have h1 := c.run_le (Nat.le_max_left n m) hn
  have h2 := c.run_le (Nat.le_max_right n m) hm
  rw [h1] at h2
  exact Option.some.inj h2

theorem Returns.terminates {c : Comp α} {a : α} (h : c.Returns a) : c.Terminates := ⟨a, h⟩

/-! ## Sequencing -/

protected def pure (a : α) : Comp α := ⟨fun _ => some a, fun _ _ h => h⟩

protected def bind (c : Comp α) (f : α → Comp β) : Comp β where
  run n := (c.run n).bind fun a => (f a).run n
  mono n b h := by
    obtain ⟨a, ha, hb⟩ := Option.bind_eq_some_iff.1 h
    exact Option.bind_eq_some_iff.2 ⟨a, c.mono n a ha, (f a).mono n b hb⟩

instance : Monad Comp where
  pure := Comp.pure
  bind := Comp.bind

@[simp] theorem returns_pure {a b : α} : (pure a : Comp α).Returns b ↔ a = b :=
  ⟨fun ⟨_, h⟩ => Option.some.inj h, fun h => ⟨0, congrArg some h⟩⟩

@[simp] theorem returns_bind {c : Comp α} {f : α → Comp β} {b : β} :
    (c >>= f).Returns b ↔ ∃ a, c.Returns a ∧ (f a).Returns b := by
  constructor
  · rintro ⟨n, h⟩
    obtain ⟨a, ha, hb⟩ := Option.bind_eq_some_iff.1 h
    exact ⟨a, ⟨n, ha⟩, ⟨n, hb⟩⟩
  · rintro ⟨a, ⟨n, ha⟩, ⟨m, hb⟩⟩
    have h1 := c.run_le (Nat.le_max_left n m) ha
    have h2 := (f a).run_le (Nat.le_max_right n m) hb
    exact ⟨max n m, Option.bind_eq_some_iff.2 ⟨a, h1, h2⟩⟩

/-- A call whose result is known can be replaced by the result. -/
theorem Returns.bind_iff {c : Comp α} {a : α} (h : c.Returns a) {f : α → Comp β} {b : β} :
    (c >>= f).Returns b ↔ (f a).Returns b := by
  rw [returns_bind]
  constructor
  · rintro ⟨a', ha', hb⟩
    rw [h.unique ha']; exact hb
  · intro hb
    exact ⟨a, h, hb⟩

theorem Returns.bind {c : Comp α} {a : α} (h : c.Returns a) {f : α → Comp β} {b : β} (hf : (f a).Returns b) :
    (c >>= f).Returns b :=
  h.bind_iff.2 hf

/-- A computation followed by others that end. -/
theorem terminates_bind {c : Comp α} {f : α → Comp β} (hf : ∀ a, (f a).Terminates) :
    (c >>= f).Terminates ↔ c.Terminates := by
  constructor
  · rintro ⟨b, hb⟩
    obtain ⟨a, ha, -⟩ := returns_bind.1 hb
    exact ⟨a, ha⟩
  · rintro ⟨a, ha⟩
    obtain ⟨b, hb⟩ := hf a
    exact ⟨b, ha.bind hb⟩

theorem terminates_pure (a : α) : (pure a : Comp α).Terminates := ⟨a, returns_pure.2 rfl⟩

theorem terminates_map {c : Comp α} {f : α → β} : (c >>= fun a => pure (f a)).Terminates ↔ c.Terminates :=
  terminates_bind fun a => terminates_pure (f a)

/-! ## Loops -/

/-- How one pass through a loop ends: with a state to go on with, or out of the loop. -/
inductive Pass (σ β : Type) where
  | again (s : σ)
  | done (b : β)
deriving DecidableEq, Repr

def loopRun (body : σ → Comp (Pass σ β)) : Nat → σ → Option β
  | 0, _ => none
  | n + 1, s =>
    match (body s).run n with
    | some (.again s') => loopRun body n s'
    | some (.done b) => some b
    | none => none

theorem loopRun_mono (body : σ → Comp (Pass σ β)) :
    ∀ (n : Nat) (s : σ) (b : β), loopRun body n s = some b → loopRun body (n + 1) s = some b
  | 0, _, _, h => by cases h
  | n + 1, s, b, h => by
    rw [loopRun] at h ⊢
    cases hp : (body s).run n with
    | none => rw [hp] at h; cases h
    | some p =>
      rw [hp] at h
      rw [(body s).mono n p hp]
      cases p with
      | again s' => exact loopRun_mono body n s' b h
      | done b' => exact h

/-- The `while` loop: passes through `body` until one leaves the loop. -/
def loop (body : σ → Comp (Pass σ β)) (s : σ) : Comp β := ⟨fun n => loopRun body n s, fun n => loopRun_mono body n s⟩

theorem loop_done {body : σ → Comp (Pass σ β)} {s : σ} {b : β} (h : (body s).Returns (.done b)) :
    (loop body s).Returns b := by
  obtain ⟨n, hn⟩ := h
  exact ⟨n + 1, by show loopRun body (n + 1) s = some b; rw [loopRun, hn]⟩

theorem loop_again {body : σ → Comp (Pass σ β)} {s s' : σ} {b : β} (h : (body s).Returns (.again s'))
    (hb : (loop body s').Returns b) : (loop body s).Returns b := by
  obtain ⟨n, hn⟩ := h
  obtain ⟨m, hm⟩ := hb
  have h1 := (body s).run_le (Nat.le_max_left n m) hn
  have h2 := (loop body s').run_le (Nat.le_max_right n m) hm
  exact ⟨max n m + 1, by show loopRun body (max n m + 1) s = some b; rw [loopRun, h1]; exact h2⟩

/-- A loop that returns does so from its first pass, or from the state its first pass leaves. -/
theorem returns_loop {body : σ → Comp (Pass σ β)} {s : σ} {b : β} :
    (loop body s).Returns b ↔
      (body s).Returns (.done b) ∨ ∃ s', (body s).Returns (.again s') ∧ (loop body s').Returns b := by
  constructor
  · rintro ⟨n, h⟩
    change loopRun body n s = some b at h
    cases n with
    | zero => cases h
    | succ n =>
      rw [loopRun] at h
      cases hp : (body s).run n with
      | none => rw [hp] at h; cases h
      | some p =>
        rw [hp] at h
        cases p with
        | again s' => exact .inr ⟨s', ⟨n, hp⟩, ⟨n, h⟩⟩
        | done b' => cases h; exact .inl ⟨n, hp⟩
  · rintro (h | ⟨s', h, hb⟩)
    · exact loop_done h
    · exact loop_again h hb

/-- One pass of a loop that goes on. -/
def Goes (body : σ → Comp (Pass σ β)) (s s' : σ) : Prop := (body s).Returns (.again s')

/-- The states a loop passes through from `s`, `s` included. -/
def Passes (body : σ → Comp (Pass σ β)) : σ → σ → Prop := Relation.ReflTransGen (Goes body)

theorem Passes.returns_iff {body : σ → Comp (Pass σ β)} {s s' : σ} (h : Passes body s s') {b : β} :
    (loop body s).Returns b ↔ (loop body s').Returns b := by
  induction h with
  | refl => exact Iff.rfl
  | tail _ hg ih =>
    rw [ih, returns_loop]
    constructor
    · rintro (hd | ⟨s2, h2, hb⟩)
      · cases hg.unique hd
      · cases hg.unique h2; exact hb
    · intro hb
      exact .inr ⟨_, hg, hb⟩

/-- A loop that leaves at once passes through nothing else. -/
theorem Passes.of_done {body : σ → Comp (Pass σ β)} {s s' : σ} {b : β} (hdone : (body s).Returns (.done b))
    (h : Passes body s s') : s' = s := by
  rcases h.cases_head with heq | ⟨s₁, hgoes, -⟩
  · exact heq.symm
  · cases hgoes.unique hdone

/-- The invariant rule: what every going pass keeps, and what every leaving pass turns into `Q`,
holds of the result. -/
theorem loop_post {body : σ → Comp (Pass σ β)} (I : σ → Prop) (Q : β → Prop)
    (hgo : ∀ s s', I s → (body s).Returns (.again s') → I s')
    (hout : ∀ s b, I s → (body s).Returns (.done b) → Q b) :
    ∀ {s : σ} {b : β}, I s → (loop body s).Returns b → Q b := by
  intro s b hi ⟨n, h⟩
  change loopRun body n s = some b at h
  induction n generalizing s with
  | zero => cases h
  | succ n ih =>
    rw [loopRun] at h
    cases hp : (body s).run n with
    | none => rw [hp] at h; cases h
    | some p =>
      rw [hp] at h
      cases p with
      | again s' => exact ih (hgo s s' hi ⟨n, hp⟩) h
      | done b' => cases h; exact hout s b hi ⟨n, hp⟩

/-- The relational rule: a loop whose passes are followed by those of another, from related states, to related results
is followed to a related result. -/
theorem loop_relates {γ : Type} {body : σ → Comp (Pass σ β)} {body' : τ → Comp (Pass τ γ)} (R : σ → τ → Prop)
    (Q : β → γ → Prop)
    (hgo : ∀ s t s', R s t → (body s).Returns (.again s') → ∃ t', (body' t).Returns (.again t') ∧ R s' t')
    (hout : ∀ s t b, R s t → (body s).Returns (.done b) → ∃ b', (body' t).Returns (.done b') ∧ Q b b') {s : σ} {t : τ}
    {b : β} (hst : R s t) (h : (loop body s).Returns b) : ∃ b', (loop body' t).Returns b' ∧ Q b b' := by
  -- the invariant: the other loop has come to a related state
  refine loop_post (fun s => ∃ t', Passes body' t t' ∧ R s t') (fun b => ∃ b', (loop body' t).Returns b' ∧ Q b b') ?_ ?_
    ⟨t, .refl, hst⟩ h
  · rintro s s' ⟨t', hpasses, hR⟩ hs
    obtain ⟨t'', ht, hR'⟩ := hgo s t' s' hR hs
    exact ⟨t'', hpasses.tail ht, hR'⟩
  · rintro s b ⟨t', hpasses, hR⟩ hb
    obtain ⟨b', hb', hQ⟩ := hout s t' b hR hb
    exact ⟨b', hpasses.returns_iff.2 (loop_done hb'), hQ⟩

/-- The simulation rule: followed to the same results, the loop is followed to its result. -/
theorem loop_simulation {body : σ → Comp (Pass σ β)} {body' : τ → Comp (Pass τ β)} (R : σ → τ → Prop)
    (hgo : ∀ s t s', R s t → (body s).Returns (.again s') → ∃ t', (body' t).Returns (.again t') ∧ R s' t')
    (hout : ∀ s t b, R s t → (body s).Returns (.done b) → (body' t).Returns (.done b)) {s : σ} {t : τ} {b : β}
    (hst : R s t) (h : (loop body s).Returns b) : (loop body' t).Returns b := by
  obtain ⟨b', hb', rfl⟩ := loop_relates R (fun b b' => b = b') hgo
    (fun s t b hR hb => ⟨b, hout s t b hR hb, rfl⟩) hst h
  exact hb'

/-- Sequencing keeps results related. -/
theorem bind_relates {γ : Type} {c : Comp α} {f : α → Comp β} {f' : α → Comp γ} (Q : β → γ → Prop) {b : β}
    (h : (c >>= f).Returns b) (hf : ∀ a b, (f a).Returns b → ∃ b', (f' a).Returns b' ∧ Q b b') :
    ∃ b', (c >>= f').Returns b' ∧ Q b b' := by
  obtain ⟨a, ha, hb⟩ := returns_bind.1 h
  obtain ⟨b', hb', hQ⟩ := hf a b hb
  exact ⟨b', ha.bind hb', hQ⟩

/-- The variant rule: when every pass from an invariant state ends, and one that goes on keeps the
invariant and lowers `μ`, the loop ends, in a state the leaving passes satisfy. -/
theorem loop_variant {body : σ → Comp (Pass σ β)} (I : σ → Prop) (Q : β → Prop) (μ : σ → Nat)
    (hbody : ∀ s, I s → (∃ s', (body s).Returns (.again s') ∧ I s' ∧ μ s' < μ s) ∨
      ∃ b, (body s).Returns (.done b) ∧ Q b) :
    ∀ {s : σ}, I s → ∃ b, (loop body s).Returns b ∧ Q b := by
  intro s hi
  induction hm : μ s using Nat.strongRecOn generalizing s with
  | ind m ih =>
    rcases hbody s hi with ⟨s', hs, hi', hlt⟩ | ⟨b, hb, hq⟩
    · obtain ⟨b, hb, hq⟩ := ih (μ s') (by omega) hi' rfl
      exact ⟨b, loop_again hs hb, hq⟩
    · exact ⟨b, loop_done hb, hq⟩

/-- The divergence rule: a loop never ends from a set of states that no pass can leave. -/
theorem loop_diverges {body : σ → Comp (Pass σ β)} (D : σ → Prop)
    (hstay : ∀ s p, D s → (body s).Returns p → ∃ s', p = .again s' ∧ D s') {s : σ} (hs : D s) :
    ¬ (loop body s).Terminates := by
  rintro ⟨b, hb⟩
  refine loop_post D (fun _ => False) ?_ ?_ hs hb
  · intro s s' hd h
    obtain ⟨s2, he, hd2⟩ := hstay s _ hd h
    cases he; exact hd2
  · intro s b hd h
    obtain ⟨s2, he, -⟩ := hstay s _ hd h
    cases he

end Comp
