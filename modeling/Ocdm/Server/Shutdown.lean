/-
`Deinitialize` of the server (FrameworkRPC.cpp) among the requests that still arrive and the sessions that still
go: it deinitializes each factory of the designator map once and only then closes the endpoint, and neither step
takes a designator out of the map. A factory is left alone once deinitialized as long as nothing that uses it is
under way then and nothing more comes in for it (`shutdown_safe`).
-/
import Ocdm.Lib.Trace
import Ocdm.Server.TypeSupport

namespace Ocdm.Server

namespace Shutdown

open Assoc (lookup)

/-! ## The parties -/

/-- Where `Deinitialize` is: not called yet, in its loop with the entries left, at the deletion of the endpoint, at the
release of the accessor, at the unloading of the libraries, or done. -/
inductive Phase where
  | running
  | walking (rest : List (Text × SystemFactory))
  | closing
  | releasing
  | unloading
  | done
deriving DecidableEq, Repr

/-- What a factory sees. -/
inductive FactoryEvent where
  | deinitializeFactory (factory : Nat)
  | instanceOf (factory : Nat)
  | method (factory : Nat)
  | destroyMediaKeySession (factory : Nat)
deriving DecidableEq, Repr

/-- The factory a call goes through. -/
def FactoryEvent.through : FactoryEvent → Option Nat
  | .deinitializeFactory _ => none
  | .instanceOf factory => some factory
  | .method factory => some factory
  | .destroyMediaKeySession factory => some factory

/-- A request to create a session, any other one for a key system, or the `Remove` of a session. -/
inductive TaskKind where
  | createSession
  | other
  | remove
deriving DecidableEq, Repr

/-- Before `KeySystem`, with what the factory's `Instance` returned, or without anything left to do. -/
inductive TaskPhase where
  | arrived
  | holding (factory : Nat)
  | finished
deriving DecidableEq, Repr

structure Task where
  kind : TaskKind
  keySystem : Text
  phase : TaskPhase
deriving DecidableEq, Repr

/-- The server: its designators, `Deinitialize` and the factories it has deinitialized, the endpoint, the key systems of
the live sessions, what is under way, and the calls so far. -/
structure Sys where
  systemToFactory : List (Text × SystemFactory)
  phase : Phase
  deinitialized : List Nat
  listening : Bool
  sessions : List Text
  tasks : List Task
  log : List FactoryEvent
deriving DecidableEq, Repr

inductive Act where
  | deinitializeServer
  /-- the next step of `Deinitialize` -/
  | next
  /-- a request comes in over the endpoint -/
  | arrive (create : Bool) (keySystem : Text)
  /-- the last reference to a session goes -/
  | release (keySystem : Text)
  /-- `KeySystem` of a task; the factory may have no instance -/
  | keySystem (task : Nat) (found : Bool)
  /-- the call of a task; a session may not come out of it, and an extension may be missing -/
  | call (task : Nat) (outcome : Bool)
deriving DecidableEq, Repr

/-- The factory that `KeySystem` asks for its instance. -/
def Sys.factoryOf (s : Sys) (keySystem : Text) : Option Nat :=
  if keySystem = [] then none else (lookup keySystem s.systemToFactory).map SystemFactory.factory

def Sys.setTask (s : Sys) (i : Nat) (t : Task) (phase : TaskPhase) : Sys :=
  { s with tasks := s.tasks.set i { t with phase := phase } }

/-- `Deinitialize` -/
def deinitializeStep (s : Sys) : Option Sys :=
  match s.phase with
  | .running => none
  | .walking [] => some { s with phase := .closing }
  | .walking (index :: rest) =>
    -- a factory with several designators is deinitialized at the first of them
    if index.2.factory ∈ s.deinitialized then some { s with phase := .walking rest }
    else some { s with
      phase := .walking rest
      deinitialized := s.deinitialized ++ [index.2.factory]
      log := s.log ++ [.deinitializeFactory index.2.factory] }
  -- the endpoint goes only after the loop, and the designators never
  | .closing => some { s with phase := .releasing, listening := false }
  | .releasing => some { s with phase := .unloading }
  | .unloading => some { s with phase := .done }
  | .done => none

/-- The call a task makes through the instance it holds, and the session it may leave. -/
def callStep (s : Sys) (i : Nat) (t : Task) (factory : Nat) (outcome : Bool) : Sys :=
  let s := s.setTask i t .finished
  match t.kind with
  | .createSession =>
    { s with
      log := s.log ++ [.method factory]
      sessions := if outcome then t.keySystem :: s.sessions else s.sessions }
  | .other => { s with log := if outcome then s.log ++ [.method factory] else s.log }
  | .remove => { s with log := s.log ++ [.destroyMediaKeySession factory] }

def step (s : Sys) : Act → Option Sys
  | .deinitializeServer => if s.phase = .running then some { s with phase := .walking s.systemToFactory } else none
  | .next => deinitializeStep s
  | .arrive create keySystem =>
    if s.listening then
      some { s with tasks := s.tasks ++ [⟨if create then .createSession else .other, keySystem, .arrived⟩] }
    else none
  | .release keySystem =>
    if keySystem ∈ s.sessions then
      some { s with sessions := s.sessions.erase keySystem, tasks := s.tasks ++ [⟨.remove, keySystem, .arrived⟩] }
    else none
  | .keySystem i found =>
    match s.tasks[i]? with
    | some ⟨kind, keySystem, .arrived⟩ =>
      match s.factoryOf keySystem with
      -- no factory is asked for a key system that is not registered
      | none => some (s.setTask i ⟨kind, keySystem, .arrived⟩ .finished)
      | some factory =>
        some { s.setTask i ⟨kind, keySystem, .arrived⟩ (if found then .holding factory else .finished) with
          log := s.log ++ [.instanceOf factory] }
    | _ => none
  | .call i outcome =>
    match s.tasks[i]? with
    | some ⟨kind, keySystem, .holding factory⟩ =>
      some (callStep s i ⟨kind, keySystem, .holding factory⟩ factory outcome)
    | _ => none

/-- A server that has been initialized. -/
def start (systemToFactory : List (Text × SystemFactory)) (listening : Bool) : Sys :=
  ⟨systemToFactory, .running, [], listening, [], [], []⟩

/-! ## Calls after the end -/

/-- No call goes through a factory that was deinitialized before. -/
def SafeLog (log : List FactoryEvent) : Prop :=
  log.Pairwise fun e e' => ∀ factory, e = .deinitializeFactory factory → e'.through ≠ some factory

/-- A task that will call through a factory, or may. -/
def Uses (s : Sys) (factory : Nat) (t : Task) : Prop :=
  (t.phase = .arrived ∧ s.factoryOf t.keySystem = some factory) ∨ t.phase = .holding factory

/-- The factory that the next step of `Deinitialize` deinitializes. -/
def Sys.deinitializing (s : Sys) : Option Nat :=
  match s.phase with
  | .walking (index :: _) => if index.2.factory ∈ s.deinitialized then none else some index.2.factory
  | _ => none

/-- A factory is deinitialized when nothing under way uses it, and nothing comes in that does afterwards. -/
def StepOK (s : Sys) : Act → Prop
  | .next => ∀ factory ∈ s.deinitializing, ∀ t ∈ s.tasks, ¬ Uses s factory t
  | .arrive _ keySystem => ∀ factory ∈ s.factoryOf keySystem, factory ∉ s.deinitialized
  | .release keySystem => ∀ factory ∈ s.factoryOf keySystem, factory ∉ s.deinitialized
  | _ => True

instance (s : Sys) (factory : Nat) (t : Task) : Decidable (Uses s factory t) := inferInstanceAs (Decidable (_ ∨ _))

instance (s : Sys) : (a : Act) → Decidable (StepOK s a)
  | .deinitializeServer => .isTrue trivial
  | .next => inferInstanceAs (Decidable (∀ factory ∈ s.deinitializing, ∀ t ∈ s.tasks, ¬ Uses s factory t))
  | .arrive _ keySystem => inferInstanceAs (Decidable (∀ factory ∈ s.factoryOf keySystem, factory ∉ s.deinitialized))
  | .release keySystem => inferInstanceAs (Decidable (∀ factory ∈ s.factoryOf keySystem, factory ∉ s.deinitialized))
  | .keySystem _ _ => .isTrue trivial
  | .call _ _ => .isTrue trivial

theorem safeLog_concat {log : List FactoryEvent} (h : SafeLog log) {e : FactoryEvent}
    (he : ∀ factory, e.through = some factory → .deinitializeFactory factory ∉ log) : SafeLog (log ++ [e]) := by
  refine List.pairwise_append.2 ⟨h, List.pairwise_singleton _ _, fun e₁ he₁ e₂ he₂ factory heq hthrough => ?_⟩
  subst heq
  rw [List.mem_singleton.1 he₂] at hthrough
  exact he factory hthrough he₁

/-- The key system a step brings something in for. -/
def Brings : Act → Text → Prop
  | .arrive _ keySystem, k => keySystem = k
  | .release keySystem, k => keySystem = k
  | _, _ => False

/-- A step that deinitializes a factory. -/
structure Deinitializes (s : Sys) (a : Act) (s' : Sys) (factory : Nat) : Prop where
  next : a = .next ∧ s.deinitializing = some factory
  log : s'.log = s.log ++ [.deinitializeFactory factory]
  deinitialized : s'.deinitialized = s.deinitialized ++ [factory]
  tasks : s'.tasks = s.tasks

/-- Any other step: it may call through a factory that something uses, and what uses a factory afterwards did so before
or was just brought in. -/
structure GoesOn (s : Sys) (a : Act) (s' : Sys) : Prop where
  deinitialized : s'.deinitialized = s.deinitialized
  log : s'.log = s.log ∨
    ∃ e factory, e.through = some factory ∧ (∃ t ∈ s.tasks, Uses s factory t) ∧ s'.log = s.log ++ [e]
  tasks : ∀ t ∈ s'.tasks, ∀ factory, Uses s factory t →
    (∃ t' ∈ s.tasks, Uses s factory t') ∨ (∃ keySystem, Brings a keySystem ∧ s.factoryOf keySystem = some factory)

theorem uses_brought {s : Sys} {a : Act} {kind : TaskKind} {keySystem : Text} (h : Brings a keySystem) :
    ∀ t ∈ s.tasks ++ [⟨kind, keySystem, .arrived⟩], ∀ factory, Uses s factory t →
      (∃ t' ∈ s.tasks, Uses s factory t') ∨
        (∃ keySystem, Brings a keySystem ∧ s.factoryOf keySystem = some factory) := by
  intro t ht factory huses
  rcases List.mem_append.1 ht with ht | ht
  · exact .inl ⟨t, ht, huses⟩
  · rw [List.mem_singleton.1 ht] at huses
    obtain ⟨-, hfactory⟩ | hholding := huses
    · exact .inr ⟨keySystem, h, hfactory⟩
    · cases hholding

/-- A task that goes on to a phase uses nothing new. -/
theorem uses_setTask {s : Sys} {a : Act} {i : Nat} {t : Task} {phase : TaskPhase} (ht : t ∈ s.tasks)
    (hphase : phase = .finished ∨ ∃ factory, phase = .holding factory ∧ Uses s factory t) :
    ∀ t' ∈ s.tasks.set i { t with phase := phase }, ∀ factory, Uses s factory t' →
      (∃ t' ∈ s.tasks, Uses s factory t') ∨
        (∃ keySystem, Brings a keySystem ∧ s.factoryOf keySystem = some factory) := by
  intro t' ht' factory huses
  rcases List.mem_or_eq_of_mem_set ht' with ht' | rfl
  · exact .inl ⟨t', ht', huses⟩
  · rcases hphase with rfl | ⟨factory', rfl, huses'⟩
    · obtain ⟨harrived, -⟩ | hholding := huses
      · cases harrived
      · cases hholding
    · obtain ⟨harrived, -⟩ | hholding := huses
      · cases harrived
      · cases hholding
        exact .inl ⟨t, ht, huses'⟩

theorem deinitializeStep_cases {s s' : Sys} (hstep : deinitializeStep s = some s') :
    s'.systemToFactory = s.systemToFactory ∧ ((∃ factory, Deinitializes s .next s' factory) ∨ GoesOn s .next s') := by
  have hgoes : ∀ {s' : Sys}, s'.deinitialized = s.deinitialized → s'.log = s.log → s'.tasks = s.tasks →
    GoesOn s .next s' := by
    intro s' hdeinitialized hlog htasks
    refine ⟨hdeinitialized, .inl hlog, fun t ht factory huses => .inl ⟨t, ?_, huses⟩⟩
    rw [← htasks]
    exact ht
  unfold deinitializeStep at hstep
  split at hstep
  · cases hstep
  · cases hstep
    exact ⟨rfl, .inr (hgoes rfl rfl rfl)⟩
  · rename_i index rest hphase
    split at hstep
    · cases hstep
      exact ⟨rfl, .inr (hgoes rfl rfl rfl)⟩
    · rename_i hnew
      cases hstep
      have hdeinitializing : s.deinitializing = some index.2.factory := by
        unfold Sys.deinitializing
        rw [hphase]
        exact if_neg hnew
      exact ⟨rfl, .inl ⟨_, ⟨rfl, hdeinitializing⟩, rfl, rfl, rfl⟩⟩
  · cases hstep
    exact ⟨rfl, .inr (hgoes rfl rfl rfl)⟩
  · cases hstep
    exact ⟨rfl, .inr (hgoes rfl rfl rfl)⟩
  · cases hstep
    exact ⟨rfl, .inr (hgoes rfl rfl rfl)⟩
  · cases hstep

theorem callStep_goesOn {s : Sys} {i : Nat} {t : Task} {factory : Nat} (ht : t ∈ s.tasks) (huses : Uses s factory t)
    (a : Act) (outcome : Bool) :
    (callStep s i t factory outcome).systemToFactory = s.systemToFactory ∧
      GoesOn s a (callStep s i t factory outcome) := by
  have htasks := uses_setTask (a := a) (i := i) ht (.inl rfl)
  unfold callStep
  dsimp only
  split
  · exact ⟨rfl, rfl, .inr ⟨_, factory, rfl, ⟨t, ht, huses⟩, rfl⟩, htasks⟩
  · cases outcome with
    | true => exact ⟨rfl, rfl, .inr ⟨_, factory, rfl, ⟨t, ht, huses⟩, rfl⟩, htasks⟩
    | false => exact ⟨rfl, rfl, .inl rfl, htasks⟩
  · exact ⟨rfl, rfl, .inr ⟨_, factory, rfl, ⟨t, ht, huses⟩, rfl⟩, htasks⟩

theorem step_cases {s s' : Sys} {a : Act} (hstep : step s a = some s') :
    s'.systemToFactory = s.systemToFactory ∧ ((∃ factory, Deinitializes s a s' factory) ∨ GoesOn s a s') := by
  unfold step at hstep
  cases a with
  | deinitializeServer =>
    obtain ⟨-, hstep⟩ := Option.ite_none_right_eq_some.1 hstep
    cases hstep
    exact ⟨rfl, .inr ⟨rfl, .inl rfl, fun t ht factory huses => .inl ⟨t, ht, huses⟩⟩⟩
  | next => exact deinitializeStep_cases hstep
  | arrive create keySystem =>
    obtain ⟨-, hstep⟩ := Option.ite_none_right_eq_some.1 hstep
    cases hstep
    exact ⟨rfl, .inr ⟨rfl, .inl rfl, uses_brought rfl⟩⟩
  | release keySystem =>
    obtain ⟨-, hstep⟩ := Option.ite_none_right_eq_some.1 hstep
    cases hstep
    exact ⟨rfl, .inr ⟨rfl, .inl rfl, uses_brought rfl⟩⟩
  | keySystem i found =>
    dsimp only at hstep
    split at hstep
    · rename_i kind keySystem htask
      have ht := List.mem_of_getElem? htask
      split at hstep
      · cases hstep
        exact ⟨rfl, .inr ⟨rfl, .inl rfl, uses_setTask ht (.inl rfl)⟩⟩
      · rename_i factory hfactory
        cases hstep
        have huses : Uses s factory ⟨kind, keySystem, .arrived⟩ := .inl ⟨rfl, hfactory⟩
        refine ⟨rfl, .inr ⟨rfl, .inr ⟨_, factory, rfl, ⟨_, ht, huses⟩, rfl⟩, uses_setTask ht ?_⟩⟩
        cases found with
        | true => exact .inr ⟨factory, rfl, huses⟩
        | false => exact .inl rfl
    · cases hstep
  | call i outcome =>
    dsimp only at hstep
    split at hstep
    · rename_i kind keySystem factory htask
      cases hstep
      obtain ⟨hsame, hgoes⟩ := callStep_goesOn
        (i := i) (List.mem_of_getElem? htask) (.inr rfl) (.call i outcome) outcome
      exact ⟨hsame, .inr hgoes⟩
    · cases hstep

/-! ## What holds in every run -/

/-- The factories deinitialized are those whose deinitialization was logged. -/
def Logged (s : Sys) : Prop := ∀ factory, .deinitializeFactory factory ∈ s.log ↔ factory ∈ s.deinitialized

theorem logged_step {s s' : Sys} {a : Act} (h : Logged s) (hstep : step s a = some s') : Logged s' := by
  intro factory
  obtain ⟨-, ⟨factory', hdeinitializes⟩ | hgoes⟩ := step_cases hstep
  · rw [hdeinitializes.log, hdeinitializes.deinitialized, List.mem_append, List.mem_append, h factory]
    simp
  · rw [hgoes.deinitialized, ← h factory]
    rcases hgoes.log with hlog | ⟨e, factory', hthrough, -, hlog⟩
    · rw [hlog]
    · rw [hlog, List.mem_append, List.mem_singleton, or_iff_left]
      rintro rfl
      cases hthrough

/-- Nothing under way uses a factory that was deinitialized. -/
structure Inv (s : Sys) : Prop where
  safe : SafeLog s.log
  logged : Logged s
  idle : ∀ factory ∈ s.deinitialized, ∀ t ∈ s.tasks, ¬ Uses s factory t

theorem inv_start (systemToFactory : List (Text × SystemFactory)) (listening : Bool) :
    Inv (start systemToFactory listening) :=
  ⟨List.Pairwise.nil, fun factory => ⟨nofun, nofun⟩, fun factory h => by cases h⟩

/-- With the same designators `Uses` says the same. -/
theorem uses_congr {s s' : Sys} (h : s'.systemToFactory = s.systemToFactory) {factory : Nat} {t : Task} :
    Uses s' factory t ↔ Uses s factory t := by
  unfold Uses Sys.factoryOf
  rw [h]

theorem inv_step {s s' : Sys} {a : Act} (h : Inv s) (hok : StepOK s a) (hstep : step s a = some s') : Inv s' := by
  obtain ⟨hsame, hcases⟩ := step_cases hstep
  have hlogged := logged_step h.logged hstep
  rcases hcases with ⟨factory, hdeinitializes⟩ | hgoes
  · refine ⟨?_, hlogged, fun factory' hfactory' t ht huses => ?_⟩
    · rw [hdeinitializes.log]
      exact safeLog_concat h.safe fun _ hthrough => by cases hthrough
    · rw [uses_congr hsame] at huses
      rw [hdeinitializes.tasks] at ht
      rw [hdeinitializes.deinitialized] at hfactory'
      rcases List.mem_append.1 hfactory' with hfactory' | hfactory'
      · exact h.idle factory' hfactory' t ht huses
      · -- the factory of this step
        obtain ⟨rfl, hdeinitializing⟩ := hdeinitializes.next
        rw [List.mem_singleton.1 hfactory'] at huses
        exact hok factory hdeinitializing t ht huses
  · refine ⟨?_, hlogged, fun factory hfactory t ht huses => ?_⟩
    · rcases hgoes.log with hlog | ⟨e, factory, hthrough, ⟨t, ht, huses⟩, hlog⟩
      · rw [hlog]
        exact h.safe
      · rw [hlog]
        refine safeLog_concat h.safe fun factory' hthrough' hmem => ?_
        rw [hthrough] at hthrough'
        cases hthrough'
        exact h.idle factory ((h.logged factory).1 hmem) t ht huses
    · rw [uses_congr hsame] at huses
      rw [hgoes.deinitialized] at hfactory
      rcases hgoes.tasks t ht factory huses with ⟨t', ht', huses'⟩ | ⟨keySystem, hbrings, hbrought⟩
      · exact h.idle factory hfactory t' ht' huses'
      · -- only what the step brings in can use it, and the condition excludes that
        cases a with
        | arrive create k =>
          cases hbrings
          exact hok factory hbrought hfactory
        | release k =>
          cases hbrings
          exact hok factory hbrought hfactory
        | _ => exact hbrings

/-! ## What happens otherwise -/

/-- Whatever still uses a factory that was deinitialized can call through it. -/
theorem uses_unsafe {s : Sys} {factory : Nat} {t : Task} (hmem : .deinitializeFactory factory ∈ s.log)
    (ht : t ∈ s.tasks) (huses : Uses s factory t) : ∃ a s', step s a = some s' ∧ ¬ SafeLog s'.log := by
  have hunsafe : ∀ e : FactoryEvent, e.through = some factory → ¬ SafeLog (s.log ++ [e]) := by
    intro e hthrough hsafe
    exact (List.pairwise_append.1 hsafe).2.2 _ hmem e (List.mem_singleton_self e) factory rfl hthrough
  obtain ⟨i, hi⟩ := List.getElem?_of_mem ht
  obtain ⟨kind, keySystem, phase⟩ := t
  rcases huses with ⟨rfl, hfactory⟩ | rfl
  · refine ⟨.keySystem i true, { s.setTask i ⟨kind, keySystem, .arrived⟩ (.holding factory) with
      log := s.log ++ [.instanceOf factory] }, ?_, hunsafe (.instanceOf factory) rfl⟩
    unfold step
    dsimp only at hfactory ⊢
    rw [hi]
    dsimp only
    rw [hfactory]
    rfl
  · refine ⟨.call i true, callStep s i ⟨kind, keySystem, .holding factory⟩ factory true, ?_, ?_⟩
    · unfold step
      dsimp only
      rw [hi]
    · unfold callStep
      cases kind with
      | createSession => exact hunsafe (.method factory) rfl
      | other => exact hunsafe (.method factory) rfl
      | remove => exact hunsafe (.destroyMediaKeySession factory) rfl

theorem deinitializing_step {s s' : Sys} {factory : Nat} (h : s.deinitializing = some factory)
    (hstep : deinitializeStep s = some s') : s'.log = s.log ++ [.deinitializeFactory factory] ∧ s'.tasks = s.tasks := by
  unfold Sys.deinitializing at h
  split at h
  · rename_i index rest hphase
    obtain ⟨hnew, h⟩ := Option.ite_none_left_eq_some.1 h
    cases h
    unfold deinitializeStep at hstep
    rw [hphase] at hstep
    dsimp only at hstep
    rw [if_neg hnew] at hstep
    cases hstep
    exact ⟨rfl, rfl⟩
  · cases h

/-- After a step that does not meet the condition some factory can be called after its deinitialization. -/
theorem step_unsafe {s s' : Sys} {a : Act} (h : Logged s) (hstep : step s a = some s') (hbad : ¬ StepOK s a) :
    ∃ a' s'', step s' a' = some s'' ∧ ¬ SafeLog s''.log := by
  have hlogged := logged_step h hstep
  unfold StepOK at hbad
  split at hbad
  · push Not at hbad
    obtain ⟨factory, hfactory, t, ht, huses⟩ := hbad
    obtain ⟨hlog, htasks⟩ := deinitializing_step hfactory hstep
    refine uses_unsafe ?_ (htasks ▸ ht) ((uses_congr (step_cases (a := .next) hstep).1).2 huses)
    rw [hlog]
    exact List.mem_append_right _ (List.mem_singleton_self _)
  · push Not at hbad
    obtain ⟨factory, hfactory, hdeinitialized⟩ := hbad
    obtain ⟨-, hstep⟩ := Option.ite_none_right_eq_some.1 hstep
    cases hstep
    exact uses_unsafe ((hlogged factory).2 hdeinitialized) (List.mem_append_right _ (List.mem_singleton_self _))
      (.inl ⟨rfl, hfactory⟩)
  · push Not at hbad
    obtain ⟨factory, hfactory, hdeinitialized⟩ := hbad
    obtain ⟨-, hstep⟩ := Option.ite_none_right_eq_some.1 hstep
    cases hstep
    exact uses_unsafe ((hlogged factory).2 hdeinitialized) (List.mem_append_right _ (List.mem_singleton_self _))
      (.inl ⟨rfl, hfactory⟩)
  · exact absurd trivial hbad

/-- In a run whose steps meet the condition no call goes through a factory after its deinitialization; and after a step
that does not meet it, the next step can be such a call. -/
theorem shutdown_safe (systemToFactory : List (Text × SystemFactory)) (listening : Bool) (acts : List Act) (s : Sys)
    (h : Trace.Run step (fun _ _ => True) (start systemToFactory listening) acts s) :
    (Trace.Run step StepOK (start systemToFactory listening) acts s → SafeLog s.log) ∧
    ∀ a s', step s a = some s' → ¬ StepOK s a → ∃ a' s'', step s' a' = some s'' ∧ ¬ SafeLog s''.log := by
  refine ⟨fun hok => ?_, fun a s' hstep hbad => ?_⟩
  · exact (hok.invariant Inv (fun _ _ _ hi hok hstep => inv_step hi hok hstep) (inv_start _ _)).safe
  · have hlogged := h.invariant Logged (fun _ _ _ hi _ hstep => logged_step hi hstep) (inv_start _ _).logged
    exact step_unsafe hlogged hstep hbad

/-- A request is served, and nothing comes in once the server is deinitialized. -/
theorem shutdown_safe_served : SafeLog [.instanceOf 7, .method 7, .deinitializeFactory 7] :=
  (shutdown_safe [("d".toList, ⟨"a".toList, 7⟩)] true
    [.arrive false "d".toList, .keySystem 0 true, .call 0 true, .deinitializeServer, .next, .next, .next, .next, .next]
    ⟨[("d".toList, ⟨"a".toList, 7⟩)], .done, [7], false, [], [⟨.other, "d".toList, .finished⟩],
      [.instanceOf 7, .method 7, .deinitializeFactory 7]⟩ (Trace.exec_run (by decide +kernel))).1
    (Trace.exec_run (by decide +kernel))

/-- A request that comes in before the endpoint is closed asks a factory that was deinitialized for its instance. -/
theorem instance_after_deinitialization :
    ∃ s, Trace.Run step (fun _ _ => True) (start [("d".toList, ⟨"a".toList, 7⟩)] true)
      [.deinitializeServer, .next, .arrive false "d".toList, .keySystem 0 true] s ∧ ¬ SafeLog s.log := by
  refine ⟨⟨[("d".toList, ⟨"a".toList, 7⟩)], .walking [], [7], true, [], [⟨.other, "d".toList, .holding 7⟩],
    [.deinitializeFactory 7, .instanceOf 7]⟩, Trace.exec_run (by decide +kernel), fun hsafe => ?_⟩
  exact (List.pairwise_cons.1 hsafe).1 (.instanceOf 7) (List.mem_singleton_self _) 7 rfl rfl

end Shutdown

end Ocdm.Server
