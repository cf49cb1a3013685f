/-
The life of the plugin: `Initialize` and `Deinitialize` of `OCDM` (OCDM.cpp), which run on a thread of
the framework, and the `OCDMImplementation` in a process of its own (FrameworkRPC.cpp), whose
`InitializeAsync` runs on a worker until it is revoked. The process may die at any step. In any order of
steps a deactivated plugin is as it was before the first activation (`runs_idle`) and everything that was
taken has been given back, except what died with a process and references to the subsystems
(`runs_account`); of these every activation leaves at least one (`runs_subSystems`).
-/
import Ocdm.Lib.Pairing
import Ocdm.Lib.Trace
import Mathlib.Algebra.GroupWithZero.Nat

namespace Ocdm.Server.Lifecycle

/-! ## The parties -/

/-- What the plugin and its implementation take and give back: references, registrations and objects. -/
inductive Resource where
  | service
  | notification
  | opencdmi
  | properties
  | connection
  | memory
  | subSystems
  | shell
  | entryPoint
  | engine
  | externalAccess
deriving DecidableEq, Repr

/-- The members of `OCDM` that `Initialize` sets. -/
structure Plugin where
  service : Bool
  connectionId : Nat
  opencdmi : Bool
  memory : Bool
deriving DecidableEq, Repr

/-- What the members of `OCDMImplementation` own. -/
structure Implementation where
  shell : Bool
  entryPoint : Bool
  engine : Bool
  service : Bool
deriving DecidableEq, Repr

inductive Event where
  | take (r : Resource)
  | give (r : Resource)
  /-- calls on the implementation, through its proxy -/
  | initializeCalled
  | deinitializeCalled
  | terminate
  /-- a process is gone, and what was in it -/
  | died (i : Implementation)
  /-- `InitializeAsync` returns -/
  | initialized (listening : Bool)
  | set (decryption : Bool)
  /-- `Deinitialize` finds the decryption subsystem not active -/
  | inactive
deriving DecidableEq, Repr

/-- Where the plugin is in `Initialize` or `Deinitialize`: before its `Initialize`, before the call of the
implementation's, before `RemoteConnection`, behind it, before its `Deinitialize`, before the call of the
implementation's, before `UnregisterAll`, and before `SubSystems`. -/
inductive Point where
  | idle
  | calling
  | connecting
  | active
  | leaving
  | stopping
  | releasing
  | announcing
deriving DecidableEq, Repr

/-- The plugin and whether its notification is registered, the process of the implementation with the job
that was submitted and has not run, and whether the decryption subsystem is active. -/
structure State where
  point : Point
  plugin : Plugin
  registered : Bool
  alive : Bool
  implementation : Implementation
  job : Bool
  decryption : Bool
deriving DecidableEq, Repr

def noPlugin : Plugin := ⟨false, 0, false, false⟩
def noImplementation : Implementation := ⟨false, false, false, false⟩

/-- Before the first activation. -/
def start : State := ⟨.idle, noPlugin, false, false, noImplementation, false, false⟩

/-! ## The steps -/

/-- `OCDMImplementation::Initialize` -/
def implementationInitialize (s : State) : State × List Event :=
  ({ s with implementation := { s.implementation with shell := true }, job := true }, [.take .shell])

/-- `OCDMImplementation::InitializeAsync`, behind the registration of the key systems. -/
def initializeAsync (subSystems listening : Bool) (s : State) : State × List Event :=
  let taken := (if subSystems then [Event.take .subSystems] else []) ++
    [.take .entryPoint, .take .engine, .take .externalAccess]
  if listening then
    ({ s with implementation := { s.implementation with entryPoint := true, engine := true, service := true }
              job := false
              decryption := s.decryption || subSystems },
      taken ++ (if subSystems then [.set true] else []) ++ [.initialized listening])
  else
    ({ s with job := false },
      taken ++ [.give .externalAccess, .give .entryPoint, .give .engine, .initialized listening])

/-- `OCDMImplementation::Deinitialize`: `Stop` revokes the job. -/
def implementationDeinitialize (s : State) : State × List Event :=
  ({ s with implementation := noImplementation, job := false },
    (if s.implementation.service then [.give .externalAccess] else []) ++
      (if s.implementation.entryPoint then [.give .entryPoint] else []) ++
      (if s.implementation.engine then [.give .engine] else []) ++ [.give .shell])

/-- `OCDM::Initialize`, until it calls the implementation's; `root` is the connection to the process that `Root`
started, if it did. -/
def pluginInitialize (root : Option Nat) (s : State) : State × List Event :=
  match root with
  | none =>
    ({ s with point := .leaving, plugin := { s.plugin with service := true }, registered := true },
      [.take .service, .take .notification])
  | some id =>
    ({ s with point := .calling, plugin := { s.plugin with service := true, connectionId := id, opencdmi := true }
              registered := true, alive := true },
      [.take .service, .take .notification, .take .opencdmi, .take .properties])

/-- The next step of `Initialize` or `Deinitialize`. A call on a process that is gone has no effect. -/
def next (subSystems : Bool) (s : State) : Option (State × List Event) :=
  match s.point with
  | .idle => none
  | .calling =>
    let r := if s.alive then implementationInitialize s else (s, [])
    some ({ r.1 with point := .connecting }, .initializeCalled :: r.2)
  | .connecting =>
    if s.alive then
      some ({ s with point := .active, plugin := { s.plugin with memory := true } },
        [.take .connection, .take .memory, .give .connection])
    else some ({ s with point := .leaving }, [])
  | .active => none
  | .leaving =>
    if s.plugin.opencdmi then
      some ({ s with point := .stopping, plugin := { s.plugin with memory := false }, registered := false },
        .give .notification :: if s.plugin.memory then [.give .memory] else [])
    else some ({ s with point := .announcing, registered := false }, [.give .notification])
  | .stopping =>
    let r := if s.alive then implementationDeinitialize s else (s, [])
    some ({ r.1 with point := .releasing }, .deinitializeCalled :: r.2)
  | .releasing =>
    some ({ s with point := .announcing, plugin := { s.plugin with opencdmi := false }, alive := false },
      if s.alive then
        [.give .properties, .take .connection, .give .opencdmi, .terminate, .give .connection]
      else [.give .properties, .give .opencdmi])
  | .announcing =>
    let es : List Event :=
      if subSystems then
        -- the reference is given back in this branch only
        if s.decryption then [.take .subSystems, .set false, .give .subSystems] else [.take .subSystems, .inactive]
      else []
    some ({ s with point := .idle, plugin := noPlugin, decryption := s.decryption && !subSystems },
      es ++ [.give .service])

inductive Act where
  /-- the framework calls `Initialize` -/
  | activate (root : Option Nat)
  /-- the plugin's next step -/
  | next
  /-- the framework calls `Deinitialize` -/
  | deactivate
  /-- the submitted job runs -/
  | job (listening : Bool)
  /-- the process dies -/
  | die
deriving DecidableEq, Repr

/-- What an action does, if it can be taken. -/
def act (subSystems : Bool) (s : State) : Act → Option (State × List Event)
  | .activate root => if s.point = .idle then some (pluginInitialize root s) else none
  | .next => next subSystems s
  | .deactivate => if s.point = .active then some ({ s with point := .leaving }, []) else none
  | .job listening => if s.job then some (initializeAsync subSystems listening s) else none
  | .die =>
    if s.alive then
      some ({ s with alive := false, implementation := noImplementation, job := false }, [.died s.implementation])
    else none

/-- A state, and the events that led to it. -/
structure Sys where
  state : State
  log : List Event
deriving DecidableEq, Repr

def step (subSystems : Bool) (c : Sys) (a : Act) : Option Sys :=
  (act subSystems c.state a).map fun r => ⟨r.1, c.log ++ r.2⟩

/-- A run in any order of steps. -/
abbrev Runs (subSystems : Bool) (acts : List Act) (c : Sys) : Prop :=
  Trace.Run (step subSystems) (fun _ _ => True) ⟨start, []⟩ acts c

/-! ## What is held, and what is left -/

def Implementation.holds (i : Implementation) : Resource → Nat
  | .shell => i.shell.toNat
  | .entryPoint => i.entryPoint.toNat
  | .engine => i.engine.toNat
  | .externalAccess => i.service.toNat
  | _ => 0

/-- How much of a resource the members hold. -/
def State.holds (s : State) : Resource → Nat
  | .service => s.plugin.service.toNat
  | .notification => s.registered.toNat
  | .opencdmi | .properties => s.plugin.opencdmi.toNat
  | .memory => s.plugin.memory.toNat
  | .connection | .subSystems => 0
  | r => s.implementation.holds r

/-- How much of a resource an event leaves behind: what was in a process that is gone, and the reference to the
subsystems that `InitializeAsync` took, or `Deinitialize` when it had nothing to reset. -/
def Event.leaves (subSystems : Bool) : Event → Resource → Nat
  | .died i, r => i.holds r
  | .initialized _, .subSystems => subSystems.toNat
  | .inactive, .subSystems => 1
  | _, _ => 0

def leaves (subSystems : Bool) (es : List Event) (r : Resource) : Nat := (es.map (Event.leaves subSystems · r)).sum

/-- What an event does to a resource. -/
def Event.op : Event → Option (Pairing.Op Resource)
  | .take r => some (.acquire r)
  | .give r => some (.release r)
  | _ => none

/-- How much of a resource is taken and not given back over some events. -/
def outstanding (r : Resource) (n : Nat) (es : List Event) : Option Nat :=
  Pairing.outstanding r n (es.filterMap Event.op)

theorem outstanding_append (r : Resource) (n : Nat) (es es' : List Event) :
    outstanding r n (es ++ es') = (outstanding r n es).bind (outstanding r · es') := by
  unfold outstanding
  rw [List.filterMap_append, Pairing.outstanding_append]

theorem leaves_append (subSystems : Bool) (es es' : List Event) (r : Resource) :
    leaves subSystems (es ++ es') r = leaves subSystems es r + leaves subSystems es' r := by
  unfold leaves
  rw [List.map_append, List.sum_append]

/-! ## The invariant -/

/-- What is set at each point of `Initialize` and `Deinitialize`. -/
def Fits (s : State) : Point → Prop
  | .idle => s = start
  | .calling => s.plugin.service ∧ s.registered ∧ s.plugin.opencdmi ∧ s.plugin.memory = false ∧
      s.implementation = noImplementation ∧ s.job = false ∧ s.decryption = false
  | .connecting => s.plugin.service ∧ s.registered ∧ s.plugin.opencdmi ∧ s.plugin.memory = false ∧
      (s.alive → s.implementation.shell)
  | .active => s.plugin.service ∧ s.registered ∧ s.plugin.opencdmi ∧ s.plugin.memory ∧
      (s.alive → s.implementation.shell)
  | .leaving => s.plugin.service ∧ s.registered ∧ (s.plugin.memory → s.plugin.opencdmi) ∧
      (s.plugin.opencdmi = false → s.alive = false) ∧ (s.alive → s.implementation.shell)
  | .stopping => s.plugin.service ∧ s.registered = false ∧ s.plugin.opencdmi ∧ s.plugin.memory = false ∧
      (s.alive → s.implementation.shell)
  | .releasing => s.plugin.service ∧ s.registered = false ∧ s.plugin.opencdmi ∧ s.plugin.memory = false ∧
      s.implementation = noImplementation ∧ s.job = false
  | .announcing => s.plugin.service ∧ s.registered = false ∧ s.plugin.opencdmi = false ∧ s.plugin.memory = false ∧
      s.alive = false

structure Inv (subSystems : Bool) (s : State) : Prop where
  fits : Fits s s.point
  dead : s.alive = false → s.implementation = noImplementation ∧ s.job = false
  waiting : s.job = true → s.implementation = ⟨true, false, false, false⟩ ∧ s.decryption = false
  announced : s.decryption = true → subSystems = true

theorem inv_start (subSystems : Bool) : Inv subSystems start := ⟨rfl, fun _ => ⟨rfl, rfl⟩, nofun, nofun⟩

/-! ## One step -/

/-- The invariant holds again, and what a step takes and gives back is what the members hold more or less, and
what it leaves behind. -/
structure Keeps (subSystems : Bool) (s : State) (x : State × List Event) : Prop where
  inv : Inv subSystems x.1
  accounts : ∀ r, outstanding r (s.holds r) x.2 = some (x.1.holds r + leaves subSystems x.2 r)

section Step

variable {subSystems : Bool} {s : State} {x : State × List Event}

theorem pluginInitialize_keeps (root : Option Nat) : Keeps subSystems start (pluginInitialize root start) := by
  cases root with
  | none =>
    exact ⟨⟨⟨rfl, rfl, nofun, fun _ => rfl, nofun⟩, fun _ => ⟨rfl, rfl⟩, nofun, nofun⟩, fun r => by cases r <;> rfl⟩
  | some id =>
    exact ⟨⟨⟨rfl, rfl, rfl, rfl, rfl, rfl, rfl⟩, nofun, nofun, nofun⟩, fun r => by cases r <;> rfl⟩

theorem calling_keeps (h : Inv subSystems s) (hpoint : s.point = .calling) (hx : next subSystems s = some x) :
    Keeps subSystems s x := by
  obtain ⟨point, ⟨service, id, opencdmi, memory⟩, registered, alive, implementation, job, decryption⟩ := s
  obtain rfl : point = .calling := hpoint
  obtain ⟨rfl, rfl, rfl, rfl, rfl, rfl, rfl⟩ := h.fits
  cases hx
  constructor
  · cases alive with
    | false => exact ⟨⟨rfl, rfl, rfl, rfl, nofun⟩, fun _ => ⟨rfl, rfl⟩, nofun, nofun⟩
    | true => exact ⟨⟨rfl, rfl, rfl, rfl, fun _ => rfl⟩, nofun, fun _ => ⟨rfl, rfl⟩, nofun⟩
  · intro r
    cases alive <;> cases r <;> rfl

theorem connecting_keeps (h : Inv subSystems s) (hpoint : s.point = .connecting) (hx : next subSystems s = some x) :
    Keeps subSystems s x := by
  obtain ⟨point, ⟨service, id, opencdmi, memory⟩, registered, alive, implementation, job, decryption⟩ := s
  obtain rfl : point = .connecting := hpoint
  obtain ⟨rfl, rfl, rfl, rfl, hshell⟩ := h.fits
  cases alive with
  | false =>
    cases hx
    refine ⟨⟨⟨rfl, rfl, nofun, nofun, nofun⟩, h.dead, h.waiting, h.announced⟩, fun r => ?_⟩
    cases r <;> rfl
  | true =>
    cases hx
    refine ⟨⟨⟨rfl, rfl, rfl, rfl, hshell⟩, nofun, h.waiting, h.announced⟩, fun r => ?_⟩
    cases r <;> rfl

theorem leaving_keeps (h : Inv subSystems s) (hpoint : s.point = .leaving) (hx : next subSystems s = some x) :
    Keeps subSystems s x := by
  obtain ⟨point, ⟨service, id, opencdmi, memory⟩, registered, alive, implementation, job, decryption⟩ := s
  obtain rfl : point = .leaving := hpoint
  obtain ⟨rfl, rfl, hmemory, hdead, hshell⟩ := h.fits
  cases opencdmi with
  | false =>
    -- `Root` failed
    obtain rfl : memory = false := Bool.eq_false_iff.2 fun hm => nomatch hmemory hm
    obtain rfl : alive = false := hdead rfl
    cases hx
    refine ⟨⟨⟨rfl, rfl, rfl, rfl, rfl⟩, h.dead, h.waiting, h.announced⟩, fun r => ?_⟩
    cases r <;> rfl
  | true =>
    cases hx
    refine ⟨⟨⟨rfl, rfl, rfl, rfl, hshell⟩, h.dead, h.waiting, h.announced⟩, fun r => ?_⟩
    cases memory <;> cases r <;> rfl

theorem stopping_keeps (h : Inv subSystems s) (hpoint : s.point = .stopping) (hx : next subSystems s = some x) :
    Keeps subSystems s x := by
  obtain ⟨point, ⟨service, id, opencdmi, memory⟩, registered, alive, ⟨shell, entryPoint, engine, access⟩, job,
    decryption⟩ := s
  obtain rfl : point = .stopping := hpoint
  obtain ⟨rfl, rfl, rfl, rfl, hshell⟩ := h.fits
  cases alive with
  | false =>
    obtain ⟨himplementation, rfl⟩ := h.dead rfl
    obtain ⟨rfl, rfl, rfl, rfl⟩ := Implementation.mk.inj himplementation
    cases hx
    refine ⟨⟨⟨rfl, rfl, rfl, rfl, rfl, rfl⟩, h.dead, nofun, h.announced⟩, fun r => ?_⟩
    cases r <;> rfl
  | true =>
    obtain rfl : shell = true := hshell rfl
    cases hx
    refine ⟨⟨⟨rfl, rfl, rfl, rfl, rfl, rfl⟩, nofun, nofun, h.announced⟩, fun r => ?_⟩
    cases access <;> cases entryPoint <;> cases engine <;> cases r <;> rfl

theorem releasing_keeps (h : Inv subSystems s) (hpoint : s.point = .releasing) (hx : next subSystems s = some x) :
    Keeps subSystems s x := by
  obtain ⟨point, ⟨service, id, opencdmi, memory⟩, registered, alive, implementation, job, decryption⟩ := s
  obtain rfl : point = .releasing := hpoint
  obtain ⟨rfl, rfl, rfl, rfl, rfl, rfl⟩ := h.fits
  cases hx
  refine ⟨⟨⟨rfl, rfl, rfl, rfl, rfl⟩, fun _ => ⟨rfl, rfl⟩, nofun, h.announced⟩, fun r => ?_⟩
  cases alive <;> cases r <;> rfl

theorem announcing_keeps (h : Inv subSystems s) (hpoint : s.point = .announcing) (hx : next subSystems s = some x) :
    Keeps subSystems s x := by
  obtain ⟨point, ⟨service, id, opencdmi, memory⟩, registered, alive, implementation, job, decryption⟩ := s
  obtain rfl : point = .announcing := hpoint
  obtain ⟨rfl, rfl, rfl, rfl, rfl⟩ := h.fits
  obtain ⟨rfl, rfl⟩ := h.dead rfl
  have hdecryption : (decryption && !subSystems) = false := by
    cases decryption with
    | false => rfl
    | true => rw [h.announced rfl]; rfl
  cases hx
  refine ⟨⟨?_, fun _ => ⟨rfl, rfl⟩, nofun, ?_⟩, fun r => ?_⟩
  · show State.mk _ _ _ _ _ _ _ = start
    rw [hdecryption]
    rfl
  · intro hset
    rw [hdecryption] at hset
    cases hset
  · cases subSystems <;> cases decryption <;> cases r <;> rfl

theorem next_keeps (h : Inv subSystems s) (hx : next subSystems s = some x) : Keeps subSystems s x := by
  cases hpoint : s.point with
  | idle => rw [next, hpoint] at hx; cases hx
  | active => rw [next, hpoint] at hx; cases hx
  | calling => exact calling_keeps h hpoint hx
  | connecting => exact connecting_keeps h hpoint hx
  | leaving => exact leaving_keeps h hpoint hx
  | stopping => exact stopping_keeps h hpoint hx
  | releasing => exact releasing_keeps h hpoint hx
  | announcing => exact announcing_keeps h hpoint hx

theorem deactivate_keeps (h : Inv subSystems s) (hpoint : s.point = .active) :
    Keeps subSystems s ({ s with point := .leaving }, []) := by
  obtain ⟨point, plugin, registered, alive, implementation, job, decryption⟩ := s
  obtain rfl : point = .active := hpoint
  obtain ⟨hservice, hregistered, hopencdmi, -, hshell⟩ := h.fits
  refine ⟨⟨⟨hservice, hregistered, fun _ => hopencdmi, fun hnone => ?_, hshell⟩, h.dead, h.waiting, h.announced⟩,
    fun r => rfl⟩
  cases hopencdmi.symm.trans hnone

theorem job_keeps (listening : Bool) (h : Inv subSystems s) (hjob : s.job = true) :
    Keeps subSystems s (initializeAsync subSystems listening s) := by
  obtain ⟨point, plugin, registered, alive, implementation, job, decryption⟩ := s
  obtain ⟨rfl, rfl⟩ : implementation = ⟨true, false, false, false⟩ ∧ decryption = false := h.waiting hjob
  obtain rfl : job = true := hjob
  obtain rfl : alive = true := by
    by_contra hdead
    cases (h.dead (Bool.eq_false_iff.2 hdead)).2
  refine ⟨⟨?_, ?_, ?_, ?_⟩, fun r => ?_⟩
  · have hfits := h.fits
    cases listening <;> cases point <;> simp_all [Fits, start, initializeAsync, noImplementation]
  · cases listening <;> exact fun h => nomatch h
  · cases listening <;> exact fun h => nomatch h
  · cases listening <;> cases subSystems <;> simp [initializeAsync]
  · cases listening <;> cases subSystems <;> cases r <;> rfl

theorem die_keeps (h : Inv subSystems s) : Keeps subSystems s
    ({ s with alive := false, implementation := noImplementation, job := false }, [.died s.implementation]) := by
  refine ⟨⟨?_, fun _ => ⟨rfl, rfl⟩, nofun, h.announced⟩, fun r => ?_⟩
  · obtain ⟨point, plugin, registered, alive, implementation, job, decryption⟩ := s
    have hfits := h.fits
    cases point <;> simp_all [Fits, start]
  · show some (s.holds r) = some _
    congr 1
    cases r <;> simp [State.holds, Implementation.holds, noImplementation, leaves, Event.leaves]

theorem of_guarded {p : Prop} [Decidable p] {y : State × List Event}
    (hx : (if p then some y else none) = some x) : p ∧ y = x :=
  (Option.ite_none_right_eq_some.1 hx).imp_right Option.some.inj

theorem act_keeps {a : Act} (h : Inv subSystems s) (hx : act subSystems s a = some x) : Keeps subSystems s x := by
  cases a with
  | activate root =>
    obtain ⟨hpoint, rfl⟩ := of_guarded hx
    obtain rfl : s = start := by
      have hfits := h.fits
      rwa [hpoint] at hfits
    exact pluginInitialize_keeps root
  | next => exact next_keeps h hx
  | deactivate =>
    obtain ⟨hpoint, rfl⟩ := of_guarded hx
    exact deactivate_keeps h hpoint
  | job listening =>
    obtain ⟨hjob, rfl⟩ := of_guarded hx
    exact job_keeps listening h hjob
  | die =>
    obtain ⟨-, rfl⟩ := of_guarded hx
    exact die_keeps h

/-- A step that gives the service back leaves a reference to the subsystems, or resets the decryption subsystem, for
which `InitializeAsync` has left one. -/
theorem act_subSystems {a : Act} (h : Inv true s) (hx : act true s a = some x) :
    x.2.count (.give .service) + x.1.decryption.toNat ≤ s.decryption.toNat + leaves true x.2 .subSystems := by
  obtain ⟨point, ⟨service, id, opencdmi, memory⟩, registered, alive, ⟨shell, entryPoint, engine, access⟩, job,
    decryption⟩ := s
  cases a with
  | activate root =>
    obtain ⟨-, rfl⟩ := of_guarded hx
    cases root <;> cases decryption <;> exact Nat.le_refl _
  | next =>
    cases point with
    | idle => cases hx
    | active => cases hx
    | calling => cases alive <;> cases hx <;> cases decryption <;> exact Nat.le_refl _
    | connecting => cases alive <;> cases hx <;> cases decryption <;> exact Nat.le_refl _
    | leaving => cases opencdmi <;> cases hx <;> cases memory <;> cases decryption <;> exact Nat.le_refl _
    | stopping =>
      cases alive <;> cases hx <;> cases access <;> cases entryPoint <;> cases engine <;> cases decryption <;>
        exact Nat.le_refl _
    | releasing => cases alive <;> cases hx <;> cases decryption <;> exact Nat.le_refl _
    | announcing => cases hx; cases decryption <;> exact Nat.le_refl _
  | deactivate =>
    obtain ⟨-, rfl⟩ := of_guarded hx
    cases decryption <;> exact Nat.le_refl _
  | job listening =>
    obtain ⟨hjob, rfl⟩ := of_guarded hx
    obtain rfl : decryption = false := (h.waiting hjob).2
    cases listening
    · exact Nat.zero_le _
    · exact Nat.le_refl _
  | die =>
    obtain ⟨-, rfl⟩ := of_guarded hx
    cases decryption <;> exact Nat.le_refl _

end Step

/-! ## Whole runs -/

structure Accounts (subSystems : Bool) (c : Sys) : Prop where
  inv : Inv subSystems c.state
  accounts : ∀ r, outstanding r 0 c.log = some (c.state.holds r + leaves subSystems c.log r)

theorem accounts_step {subSystems : Bool} {c c' : Sys} {a : Act} (h : Accounts subSystems c)
    (hstep : step subSystems c a = some c') : Accounts subSystems c' := by
  obtain ⟨x, hx, rfl⟩ := Option.map_eq_some_iff.1 hstep
  obtain ⟨hinv, haccounts⟩ := act_keeps h.inv hx
  refine ⟨hinv, fun r => ?_⟩
  rw [outstanding_append, h.accounts, Option.bind_some, leaves_append, Nat.add_comm,
    outstanding, Pairing.outstanding_add r (haccounts r), Nat.add_left_comm]

theorem runs_accounts {subSystems : Bool} {acts : List Act} {c : Sys} (h : Runs subSystems acts c) :
    Accounts subSystems c :=
  h.invariant (Accounts subSystems) (fun _ _ _ hc _ hstep => accounts_step hc hstep)
    ⟨inv_start subSystems, fun r => by cases r <;> rfl⟩

/-- The process dies while the plugin is active, then the plugin is deactivated. -/
def deathActs : List Act := [.activate (some 7), .next, .next, .job true, .die, .deactivate, .next, .next, .next, .next]

def deathLog : List Event :=
  [.take .service, .take .notification, .take .opencdmi, .take .properties, .initializeCalled, .take .shell,
    .take .connection, .take .memory, .give .connection, .take .subSystems, .take .entryPoint, .take .engine,
    .take .externalAccess, .set true, .initialized true, .died ⟨true, true, true, true⟩, .give .notification,
    .give .memory, .deinitializeCalled, .give .properties, .give .opencdmi, .take .subSystems, .set false,
    .give .subSystems, .give .service]

theorem deathActs_run : Runs true deathActs ⟨start, deathLog⟩ := Trace.exec_run (by decide)

/-- In every run everything that was taken is held by a member, has been given back, or was left behind. -/
theorem runs_account {subSystems : Bool} {acts : List Act} {c : Sys} (h : Runs subSystems acts c) (r : Resource) :
    outstanding r 0 c.log = some (c.state.holds r + leaves subSystems c.log r) :=
  (runs_accounts h).accounts r

theorem runs_account_death : outstanding .shell 0 deathLog = some 1 := runs_account deathActs_run .shell

/-- The assertions of `Initialize` and of `InitializeAsync` hold: a plugin that is not active is as it was before the
first activation, and while the job waits the decryption subsystem is not active. -/
theorem runs_idle {subSystems : Bool} {acts : List Act} {c : Sys} (h : Runs subSystems acts c) :
    (c.state.point = .idle → c.state = start) ∧ (c.state.job = true → c.state.decryption = false) := by
  have hinv := (runs_accounts h).inv
  refine ⟨fun hidle => ?_, fun hjob => (hinv.waiting hjob).2⟩
  have hfits := hinv.fits
  rwa [hidle] at hfits

theorem runs_idle_death : Sys.state ⟨start, deathLog⟩ = start := (runs_idle deathActs_run).1 rfl

/-- How often the plugin was deactivated is at most how many references to the subsystems are not given back. -/
theorem runs_subSystems {acts : List Act} {c : Sys} (h : Runs true acts c) :
    ∃ n, outstanding .subSystems 0 c.log = some n ∧ c.log.count (.give .service) ≤ n := by
  have hinv := h.invariant
    (fun c => Accounts true c ∧ c.log.count (.give .service) + c.state.decryption.toNat ≤ leaves true c.log .subSystems)
    (fun c a c' hc _ hstep => ?_) ⟨runs_accounts (.nil _), le_rfl⟩
  · refine ⟨_, hinv.1.accounts .subSystems, ?_⟩
    have := hinv.2
    omega
  · refine ⟨accounts_step hc.1 hstep, ?_⟩
    obtain ⟨x, hx, rfl⟩ := Option.map_eq_some_iff.1 hstep
    have hact := act_subSystems hc.1.inv hx
    have hbefore := hc.2
    rw [List.count_append, leaves_append]
    show _ + x.1.decryption.toNat ≤ _
    omega

theorem runs_subSystems_death :
    ∃ n, outstanding .subSystems 0 deathLog = some n ∧ deathLog.count (.give .service) ≤ n :=
  runs_subSystems deathActs_run

end Ocdm.Server.Lifecycle
