/-
The factories and their key systems (FrameworkRPC.cpp): `InitializeAsync` loads the libraries and walks the
configuration, `Deinitialize` walks the designators that came of it, and `Systems`, `Designators` and `KeySystem` are
the views of what is registered. A designator goes to the first entry that lists it and has a factory
(`lookup_registered`). Each factory initialized is deinitialized exactly when every entry keeps a designator of its own
(`deinitialize_paired_iff`), and the views agree exactly when no two libraries have one name (`views_agree_iff`).
-/
import Mathlib.Data.List.Sort
import Ocdm.Server.TypeSupport

namespace Ocdm.Server

open Assoc (lookup insertNew)

/-! ## The members and the views -/

/-- What a library that was loaded adds: its factory, under the class name of the key system the factory gives. -/
def elementOf (keySystem : Nat → Text) (factory : Nat) : SystemFactory := ⟨keySystem factory, factory⟩

/-- `_keySystems`, and what the walk over the configuration leaves. -/
structure OCDMImplementation where
  keySystems : List Text
  registry : Registry
deriving DecidableEq, Repr

/-- `InitializeAsync` on the factories of the libraries, in the order of the directory. The name of each library is
listed, also when `factories` has it already. -/
def initializeAsync (keySystem : Nat → Text) (loaded : List Nat) (openingFailed : Bool) (systems : List Systems) :
    OCDMImplementation where
  keySystems := loaded.map fun factory => (elementOf keySystem factory).name
  registry := initializeSystems (loaded.map (elementOf keySystem)) openingFailed systems

/-- The order of strings as keys. -/
def keyLe : Text → Text → Bool
  | [], _ => true
  | _ :: _, [] => false
  | c :: cs, d :: ds => decide (c < d) || (c == d && keyLe cs ds)

/-- The entries of a map in the order of its keys. -/
def inOrder (m : List (Text × SystemFactory)) : List (Text × SystemFactory) :=
  m.insertionSort fun e e' => keyLe e.1 e'.1 = true

namespace OCDMImplementation

/-- The loop of `Deinitialize` over the map; a factory met before is left out. -/
def deinitialize (o : OCDMImplementation) : List Nat :=
  (inOrder o.registry.systemToFactory).foldl (fun deinitialized e =>
    if e.2.factory ∈ deinitialized then deinitialized else deinitialized ++ [e.2.factory]) []

/-- `Systems` -/
def systems (o : OCDMImplementation) : List Text := o.keySystems

/-- `Designators`, as `LoadDesignators` collects them. -/
def designators (o : OCDMImplementation) (keySystem : Text) : List Text :=
  (inOrder o.registry.systemToFactory).foldl (fun designators e =>
    if keySystem = e.2.name then designators ++ [e.1] else designators) []

/-- `KeySystem`: the factory whose instance is returned. -/
def keySystem (o : OCDMImplementation) (keySystem : Text) : Option Nat :=
  if keySystem = [] then none else (lookup keySystem o.registry.systemToFactory).map SystemFactory.factory

end OCDMImplementation

/-! ## What an entry claims -/

/-- The designators of an entry that count. -/
def claims (system : Systems) : List Text := (system.designators.getD []).filter fun designator => designator ≠ []

/-- The factory an entry finds. -/
def factoryFor (factories : List (Text × SystemFactory)) (system : Systems) : Option SystemFactory :=
  if system.designators.isSome ∧ system.name ≠ [] then lookup system.name factories else none

theorem lookup_registerDesignators_foldl (factory : Option SystemFactory) (designator : Text)
    (designators : List Text) : ∀ r : Registry,
      lookup designator (designators.foldl (registerDesignator factory) r).systemToFactory =
        (lookup designator r.systemToFactory).or
          (if designator ∈ designators.filter (fun d => d ≠ []) then factory else none) := by
  induction designators with
  | nil => intro r; simp
  | cons d designators ih =>
    intro r
    rw [List.foldl_cons, ih]
    have hone : lookup designator (registerDesignator factory r d).systemToFactory =
        (lookup designator r.systemToFactory).or (if d ≠ [] ∧ d = designator then factory else none) := by
      unfold registerDesignator
      by_cases hd : d = []
      · simp [hd]
      · cases factory with
        | none => simp [hd]
        | some element => simp [hd, Assoc.lookup_insertNew]
    rw [hone, Option.or_assoc]
    congr 1
    by_cases hd : d = []
    · simp [hd]
    · by_cases heq : d = designator
      · subst heq
        simp only [ne_eq, hd, not_false_eq_true, true_and, if_true, List.filter_cons, decide_true,
          List.mem_cons, true_or]
        split <;> cases factory <;> rfl
      · simp [hd, heq, Ne.symm heq]

/-- A designator of an entry goes to the factory the entry finds, unless it has one. -/
theorem lookup_registerDesignators (factories : List (Text × SystemFactory)) (r : Registry) (system : Systems)
    (designator : Text) : lookup designator (registerDesignators factories r system).systemToFactory =
      (lookup designator r.systemToFactory).or
        (if designator ∈ claims system then factoryFor factories system else none) := by
  unfold registerDesignators claims factoryFor
  cases hdesignators : system.designators with
  | none => simp
  | some designators =>
    dsimp only
    by_cases hname : system.name = []
    · simp [hname]
    · rw [if_neg hname]
      dsimp only
      rw [lookup_registerDesignators_foldl]
      simp [hname]

theorem lookup_initializeSystems_foldl (factories : List (Text × SystemFactory)) (designator : Text)
    (systems : List Systems) : ∀ r : Registry,
      lookup designator (systems.foldl (initializeSystem factories) r).systemToFactory =
        (lookup designator r.systemToFactory).or (systems.findSome? fun system =>
          if designator ∈ claims system then factoryFor factories system else none) := by
  induction systems with
  | nil => intro r; simp
  | cons system systems ih =>
    intro r
    rw [List.foldl_cons, ih, List.findSome?_cons]
    show (lookup designator (registerDesignators factories r system).systemToFactory).or _ = _
    rw [lookup_registerDesignators, Option.or_assoc]
    congr 1
    cases (if designator ∈ claims system then factoryFor factories system else none) <;> rfl

section

variable (keySystem : Nat → Text) (loaded : List Nat) (openingFailed : Bool) (systems : List Systems)

/-- The factory an entry finds among the libraries loaded. -/
def factoryOf (system : Systems) : Option SystemFactory :=
  factoryFor (loadFactories (loaded.map (elementOf keySystem))) system

/-- A designator goes to the first entry that claims it and finds a factory. -/
theorem lookup_registered (designator : Text) :
    lookup designator (initializeAsync keySystem loaded openingFailed systems).registry.systemToFactory =
      systems.findSome? fun system =>
        if designator ∈ claims system then factoryOf keySystem loaded system else none :=
  (lookup_initializeSystems_foldl _ designator systems _).trans (Option.none_or ..)

theorem initialized_foldl (factories : List (Text × SystemFactory)) : ∀ r : Registry,
    (systems.foldl (initializeSystem factories) r).initialized = r.initialized ++ systems.filterMap fun system =>
      (factoryFor factories system).map fun element => (element.factory, system.configuration) := by
  have hdesignators : ∀ (factory : Option SystemFactory) (designators : List Text) (r : Registry),
      (designators.foldl (registerDesignator factory) r).initialized = r.initialized := by
    intro factory designators r
    refine List.foldlRecOn (motive := fun r' : Registry => r'.initialized = r.initialized) designators _ rfl
      fun r' h designator _ => ?_
    unfold registerDesignator
    split
    · exact h
    · split <;> exact h
  have hone : ∀ (r : Registry) (system : Systems), (initializeSystem factories r system).initialized =
      r.initialized ++
        ((factoryFor factories system).map fun element => (element.factory, system.configuration)).toList := by
    intro r system
    show (registerDesignators factories r system).initialized = _
    unfold registerDesignators factoryFor
    cases system.designators with
    | none => simp
    | some designators =>
      by_cases hname : system.name = []
      · simp [hname]
      · simp [hname, hdesignators]
  induction systems with
  | nil => intro r; simp
  | cons system systems ih =>
    intro r
    rw [List.foldl_cons, ih, hone, List.append_assoc, List.filterMap_cons]
    cases (factoryFor factories system).map fun element => (element.factory, system.configuration) <;> rfl

/-- The factories whose `Initialize` is called, in this order. -/
theorem initialized_eq : (initializeAsync keySystem loaded openingFailed systems).registry.initialized.map Prod.fst =
    systems.filterMap fun system => (factoryOf keySystem loaded system).map SystemFactory.factory := by
  show ((systems.foldl (initializeSystem _) ⟨[], [], [], [], openingFailed⟩).initialized).map Prod.fst = _
  rw [initialized_foldl, List.nil_append, List.map_filterMap]
  congr 1
  funext system
  unfold factoryOf
  cases factoryFor (loadFactories (loaded.map (elementOf keySystem))) system <;> rfl

/-! ## The factories of the libraries -/

/-- The library of a name is the first one loaded. -/
theorem lookup_loadFactories (name : Text) : lookup name (loadFactories (loaded.map (elementOf keySystem))) =
    (loaded.find? fun factory => decide (keySystem factory = name)).map (elementOf keySystem) := by
  have hfrom : ∀ factories : List (Text × SystemFactory),
      lookup name ((loaded.map (elementOf keySystem)).foldl
        (fun factories element => insertNew element.name element factories) factories) =
      (lookup name factories).or
        ((loaded.find? fun factory => decide (keySystem factory = name)).map (elementOf keySystem)) := by
    induction loaded with
    | nil => intro factories; simp
    | cons factory loaded ih =>
      intro factories
      rw [List.map_cons, List.foldl_cons, ih, Assoc.lookup_insertNew, Option.or_assoc, List.find?_cons]
      by_cases hname : keySystem factory = name
      · simp [elementOf, hname]
      · simp [elementOf, hname]
  exact (hfrom []).trans (Option.none_or ..)

theorem find_library {name : Text} {factory : Nat}
    (h : (loaded.find? fun factory => decide (keySystem factory = name)) = some factory) :
    factory ∈ loaded ∧ keySystem factory = name :=
  ⟨List.mem_of_find?_eq_some h,
    of_decide_eq_true (List.find?_some (p := fun factory => decide (keySystem factory = name)) h)⟩

/-- An entry that sets its designators, has a name, and has a library of this name. -/
def Initializes (system : Systems) : Prop :=
  system.designators.isSome ∧ system.name ≠ [] ∧ ∃ factory ∈ loaded, keySystem factory = system.name

theorem factoryOf_eq_some {system : Systems} {element : SystemFactory}
    (h : factoryOf keySystem loaded system = some element) :
    element.name = system.name ∧ keySystem element.factory = element.name := by
  unfold factoryOf factoryFor at h
  split at h
  · rw [lookup_loadFactories] at h
    obtain ⟨factory, hfind, rfl⟩ := Option.map_eq_some_iff.1 h
    exact ⟨(find_library keySystem loaded hfind).2, rfl⟩
  · cases h

theorem factoryOf_isSome (system : Systems) :
    (∃ element, factoryOf keySystem loaded system = some element) ↔ Initializes keySystem loaded system := by
  unfold factoryOf factoryFor Initializes
  rw [lookup_loadFactories, ← and_assoc]
  split
  · rename_i hset
    simp only [hset, Option.map_eq_some_iff, ne_eq, not_false_eq_true, and_self, true_and]
    constructor
    · rintro ⟨_, factory, hfind, -⟩
      exact ⟨factory, find_library keySystem loaded hfind⟩
    · rintro ⟨factory, hmem, hname⟩
      obtain ⟨first, hfirst⟩ := Option.isSome_iff_exists.1
        (List.find?_isSome (p := fun factory => decide (keySystem factory = system.name)).2
          ⟨factory, hmem, decide_eq_true hname⟩)
      exact ⟨_, first, hfirst, rfl⟩
  · rename_i hset
    exact iff_of_false nofun fun h => hset h.1

/-- Two entries find one factory only when they have one name. -/
theorem factory_eq_iff {s s' : Systems} {element element' : SystemFactory}
    (h : factoryOf keySystem loaded s = some element) (h' : factoryOf keySystem loaded s' = some element') :
    element.factory = element'.factory ↔ s.name = s'.name := by
  obtain ⟨hname, hfactory⟩ := factoryOf_eq_some keySystem loaded h
  obtain ⟨hname', hfactory'⟩ := factoryOf_eq_some keySystem loaded h'
  constructor
  · intro heq
    rw [← hname, ← hname', ← hfactory, ← hfactory', heq]
  · intro heq
    unfold factoryOf factoryFor at h h'
    split at h
    · split at h'
      · rw [heq, h'] at h
        exact congrArg SystemFactory.factory (Option.some.inj h).symm
      · cases h'
    · cases h

/-- The first entry that claims a designator and finds a factory. -/
theorem findSome_first {systems before after : List Systems} {s : Systems} {element : SystemFactory}
    {designator : Text} (hsystems : systems = before ++ s :: after)
    (hfactory : factoryOf keySystem loaded s = some element) (hclaims : designator ∈ claims s)
    (hfree : ∀ s' ∈ before, Initializes keySystem loaded s' → designator ∉ claims s') :
    systems.findSome? (fun s => if designator ∈ claims s then factoryOf keySystem loaded s else none) =
      some element := by
  refine List.findSome?_eq_some_iff.2 ⟨before, s, after, hsystems, by rw [if_pos hclaims, hfactory], fun s' hs' => ?_⟩
  split
  · rename_i hclaims'
    cases hfactory' : factoryOf keySystem loaded s' with
    | none => rfl
    | some element' => exact absurd hclaims' (hfree s' hs' ((factoryOf_isSome ..).1 ⟨element', hfactory'⟩))
  · rfl

theorem factoryOf_eq {system : Systems} (h : Initializes keySystem loaded system) :
    factoryOf keySystem loaded system =
      lookup system.name (loadFactories (loaded.map (elementOf keySystem))) := by
  unfold factoryOf factoryFor
  rw [if_pos ⟨h.1, h.2.1⟩]

/-! ## The walk over the map -/

theorem keys_systemToFactory :
    ((initializeAsync keySystem loaded openingFailed systems).registry.systemToFactory.map Prod.fst).Nodup := by
  refine List.foldlRecOn (motive := fun r : Registry => (r.systemToFactory.map Prod.fst).Nodup) systems _
    List.nodup_nil fun r h system _ => ?_
  show ((registerDesignators _ r system).systemToFactory.map Prod.fst).Nodup
  unfold registerDesignators
  split
  · split
    · exact h
    · refine List.foldlRecOn (motive := fun r : Registry => (r.systemToFactory.map Prod.fst).Nodup) _ _ h
        fun r h designator _ => ?_
      unfold registerDesignator
      split
      · exact h
      · split
        · exact Assoc.keys_insertNew h _ _
        · exact h
  · exact h

theorem mem_inOrder {designator : Text} {element : SystemFactory} :
    (designator, element) ∈ inOrder (initializeAsync keySystem loaded openingFailed systems).registry.systemToFactory ↔
      lookup designator (initializeAsync keySystem loaded openingFailed systems).registry.systemToFactory =
        some element := by
  unfold inOrder
  rw [(List.perm_insertionSort _ _).mem_iff]
  exact Assoc.mem_iff_lookup (keys_systemToFactory keySystem loaded openingFailed systems)

end

namespace OCDMImplementation

theorem deinitialize_nodup (o : OCDMImplementation) : o.deinitialize.Nodup :=
  (Assoc.foldl_once (fun e : Text × SystemFactory => e.2.factory) _ [] List.nodup_nil).1

/-- The designators of the entries with the name. -/
theorem designators_eq (o : OCDMImplementation) (keySystem : Text) : o.designators keySystem =
    ((inOrder o.registry.systemToFactory).filter fun e => keySystem = e.2.name).map Prod.fst := by
  have hfrom : ∀ (entries : List (Text × SystemFactory)) (before : List Text),
      entries.foldl (fun designators e => if keySystem = e.2.name then designators ++ [e.1] else designators) before =
        before ++ (entries.filter fun e => keySystem = e.2.name).map Prod.fst := by
    intro entries
    induction entries with
    | nil => intro before; simp
    | cons e entries ih =>
      intro before
      rw [List.foldl_cons, ih]
      by_cases he : keySystem = e.2.name
      · rw [if_pos he, List.filter_cons_of_pos (by simp [he])]
        simp
      · rw [if_neg he, List.filter_cons_of_neg (by simp [he])]
  exact hfrom _ []

theorem mem_designators (o : OCDMImplementation) (keySystem designator : Text) :
    designator ∈ o.designators keySystem ↔
      ∃ element, (designator, element) ∈ inOrder o.registry.systemToFactory ∧ keySystem = element.name := by
  rw [designators_eq]
  simp only [List.mem_map, List.mem_filter, decide_eq_true_eq, Prod.exists, exists_and_right, exists_eq_right]

end OCDMImplementation

/-! ## Initialize and Deinitialize -/

/-- Each factory is initialized at most once, and deinitialized once if it was, else not at all. -/
def Paired (initialized deinitialized : List Nat) : Prop :=
  ∀ factory, initialized.count factory ≤ 1 ∧
    deinitialized.count factory = if factory ∈ initialized then 1 else 0

section

variable (keySystem : Nat → Text) (loaded : List Nat)

/-- No two entries that initialize a factory have one name, and each of them lists a designator that no such entry
before it lists. -/
structure OwnDesignators (systems : List Systems) : Prop where
  names : systems.Pairwise fun s s' =>
    Initializes keySystem loaded s → Initializes keySystem loaded s' → s.name ≠ s'.name
  own : ∀ before s after, systems = before ++ s :: after → Initializes keySystem loaded s →
    ∃ designator ∈ claims s, ∀ s' ∈ before, Initializes keySystem loaded s' → designator ∉ claims s'

variable (openingFailed : Bool) (systems : List Systems)

theorem initialized_nodup_iff :
    ((initializeAsync keySystem loaded openingFailed systems).registry.initialized.map Prod.fst).Nodup ↔
      systems.Pairwise fun s s' =>
        Initializes keySystem loaded s → Initializes keySystem loaded s' → s.name ≠ s'.name := by
  rw [initialized_eq, List.Nodup, List.pairwise_filterMap]
  refine ⟨fun h => h.imp fun hne hs hs' => ?_, fun h => h.imp fun hne b hb b' hb' => ?_⟩
  · obtain ⟨element, helement⟩ := (factoryOf_isSome keySystem loaded _).2 hs
    obtain ⟨element', helement'⟩ := (factoryOf_isSome keySystem loaded _).2 hs'
    refine mt (factory_eq_iff keySystem loaded helement helement').2 ?_
    exact hne _ (by rw [helement]; rfl) _ (by rw [helement']; rfl)
  · obtain ⟨element, helement, rfl⟩ := Option.map_eq_some_iff.1 hb
    obtain ⟨element', helement', rfl⟩ := Option.map_eq_some_iff.1 hb'
    refine mt (factory_eq_iff keySystem loaded helement helement').1 ?_
    exact hne ((factoryOf_isSome keySystem loaded _).1 ⟨_, helement⟩)
      ((factoryOf_isSome keySystem loaded _).1 ⟨_, helement'⟩)

theorem mem_initialized {factory : Nat} :
    factory ∈ (initializeAsync keySystem loaded openingFailed systems).registry.initialized.map Prod.fst ↔
      ∃ s ∈ systems, ∃ element, factoryOf keySystem loaded s = some element ∧ element.factory = factory := by
  rw [initialized_eq]
  simp only [List.mem_filterMap, Option.map_eq_some_iff]

/-- A factory is deinitialized when some designator went to it. -/
theorem deinitialize_mem {factory : Nat} :
    factory ∈ OCDMImplementation.deinitialize (initializeAsync keySystem loaded openingFailed systems) ↔
      ∃ designator element, systems.findSome? (fun s =>
        if designator ∈ claims s then factoryOf keySystem loaded s else none) = some element ∧
          element.factory = factory := by
  unfold OCDMImplementation.deinitialize
  rw [(Assoc.foldl_once (fun e : Text × SystemFactory => e.2.factory) _ [] List.nodup_nil).2]
  simp only [List.not_mem_nil, false_or, Prod.exists, mem_inOrder, lookup_registered]

variable {keySystem loaded systems}

/-- The entry a designator goes to. -/
theorem exists_of_first {designator : Text} {element : SystemFactory} (h : systems.findSome? (fun s =>
    if designator ∈ claims s then factoryOf keySystem loaded s else none) = some element) :
    ∃ s ∈ systems, Initializes keySystem loaded s ∧ factoryOf keySystem loaded s = some element := by
  obtain ⟨s, hs, hfactory⟩ := List.exists_of_findSome?_eq_some h
  split at hfactory
  · exact ⟨s, hs, (factoryOf_isSome keySystem loaded s).1 ⟨_, hfactory⟩, hfactory⟩
  · cases hfactory

/-- What is deinitialized was initialized. -/
theorem initialized_of_deinitialized {factory : Nat}
    (h : factory ∈ OCDMImplementation.deinitialize (initializeAsync keySystem loaded openingFailed systems)) :
    factory ∈ (initializeAsync keySystem loaded openingFailed systems).registry.initialized.map Prod.fst := by
  obtain ⟨designator, element, hfirst, rfl⟩ := (deinitialize_mem ..).1 h
  obtain ⟨s, hs, -, hfactory⟩ := exists_of_first hfirst
  exact (mem_initialized ..).2 ⟨s, hs, element, hfactory, rfl⟩

/-- A designator of its own has its factory deinitialized. -/
theorem deinitialize_of_own (h : OwnDesignators keySystem loaded systems) {factory : Nat}
    (hmem : factory ∈ (initializeAsync keySystem loaded openingFailed systems).registry.initialized.map Prod.fst) :
    factory ∈ OCDMImplementation.deinitialize (initializeAsync keySystem loaded openingFailed systems) := by
  obtain ⟨s, hs, element, hfactory, rfl⟩ := (mem_initialized ..).1 hmem
  obtain ⟨before, after, hsystems⟩ := List.append_of_mem hs
  obtain ⟨designator, hclaims, hfree⟩ := h.own before s after hsystems ((factoryOf_isSome ..).1 ⟨element, hfactory⟩)
  exact (deinitialize_mem ..).2
    ⟨designator, element, findSome_first keySystem loaded hsystems hfactory hclaims hfree, rfl⟩

/-- Where the factory of each entry is deinitialized, the entry has a designator of its own. -/
theorem own_of_deinitialized
    (hnames : systems.Pairwise fun s s' =>
      Initializes keySystem loaded s → Initializes keySystem loaded s' → s.name ≠ s'.name)
    (hall : ∀ factory ∈
        (initializeAsync keySystem loaded openingFailed systems).registry.initialized.map Prod.fst,
      factory ∈ OCDMImplementation.deinitialize (initializeAsync keySystem loaded openingFailed systems)) :
    OwnDesignators keySystem loaded systems := by
  refine ⟨hnames, ?_⟩
  rintro before s after rfl hs
  obtain ⟨element, hfactory⟩ := (factoryOf_isSome ..).2 hs
  obtain ⟨designator, element', hfirst, heq⟩ := (deinitialize_mem ..).1
    (hall element.factory ((mem_initialized ..).2 ⟨s, by simp, element, hfactory, rfl⟩))
  -- the entry that got the designator has the factory of `s`, and so its name
  have hother : ∀ s' element', Initializes keySystem loaded s' → s.name ≠ s'.name →
      factoryOf keySystem loaded s' = some element' → element'.factory = element.factory → False :=
    fun s' element' _ hne hfactory' heq => hne ((factory_eq_iff keySystem loaded hfactory hfactory').1 heq.symm)
  obtain ⟨-, hafter, hbefore⟩ := List.pairwise_append.1 hnames
  rw [List.findSome?_append] at hfirst
  cases hearly : before.findSome? fun s =>
      if designator ∈ claims s then factoryOf keySystem loaded s else none with
  | some early =>
    rw [hearly, Option.some_or] at hfirst
    obtain ⟨s', hs', hinit, hfactory'⟩ := exists_of_first (hearly.trans hfirst)
    exact (hother s' _ hinit (hbefore s' hs' s (List.mem_cons_self ..) hinit hs).symm hfactory' heq).elim
  | none =>
    rw [hearly, Option.none_or, List.findSome?_cons] at hfirst
    have hfree : ∀ s' ∈ before, Initializes keySystem loaded s' → designator ∉ claims s' := by
      intro s' hs' hinit hclaims
      obtain ⟨element'', hfactory''⟩ := (factoryOf_isSome ..).2 hinit
      have hnone := List.findSome?_eq_none_iff.1 hearly s' hs'
      rw [if_pos hclaims, hfactory''] at hnone
      cases hnone
    by_cases hclaims : designator ∈ claims s
    · exact ⟨designator, hclaims, hfree⟩
    · rw [if_neg hclaims] at hfirst
      obtain ⟨s', hs', hinit, hfactory'⟩ := exists_of_first hfirst
      exact (hother s' _ hinit (List.rel_of_pairwise_cons hafter hs' hs hinit) hfactory' heq).elim

variable (keySystem loaded systems)

/-- For every set of libraries and every configuration, what is initialized is deinitialized exactly when each entry
that initializes a factory has a designator of its own, and a name of its own. -/
theorem deinitialize_paired_iff :
    Paired ((initializeAsync keySystem loaded openingFailed systems).registry.initialized.map Prod.fst)
        ( OCDMImplementation.deinitialize (initializeAsync keySystem loaded openingFailed systems)) ↔
      OwnDesignators keySystem loaded systems := by
  have hnodup := OCDMImplementation.deinitialize_nodup (initializeAsync keySystem loaded openingFailed systems)
  constructor
  · intro h
    refine own_of_deinitialized openingFailed
      ((initialized_nodup_iff ..).1 (List.nodup_iff_count_le_one.2 fun factory => (h factory).1))
      fun factory hmem => ?_
    have hcount := (h factory).2
    rw [if_pos hmem] at hcount
    exact List.count_pos_iff.1 (by omega)
  · intro h factory
    refine ⟨List.nodup_iff_count_le_one.1
      ((initialized_nodup_iff keySystem loaded openingFailed systems).2 h.names) factory, ?_⟩
    split
    · rename_i hmem
      exact List.count_eq_one_of_mem hnodup (deinitialize_of_own openingFailed h hmem)
    · rename_i hmem
      exact List.count_eq_zero.2 fun hdeinit => hmem (initialized_of_deinitialized openingFailed hdeinit)

/-! ## The views -/

/-- What the views of one registry have to say of each other. The first entry that claims a designator and finds a
factory is `s` here. -/
structure ViewsAgree (o : OCDMImplementation) : Prop where
  systems_once : o.systems.Nodup
  systems_all : ∀ name, name ∈ o.systems ↔
    (lookup name (loadFactories (loaded.map (elementOf keySystem)))).isSome = true
  designators_at_most_one : ∀ designator name name', designator ∈ o.designators name →
    designator ∈ o.designators name' → name = name'
  designators_iff : ∀ designator name, designator ∈ o.designators name ↔
    ∃ element, lookup name (loadFactories (loaded.map (elementOf keySystem))) = some element ∧
      o.keySystem designator = some element.factory
  first_wins : ∀ before s after designator, systems = before ++ s :: after → Initializes keySystem loaded s →
    designator ∈ claims s → (∀ s' ∈ before, Initializes keySystem loaded s' → designator ∉ claims s') →
      (∀ name, designator ∈ o.designators name ↔ name = s.name) ∧
      o.keySystem designator = (lookup s.name (loadFactories (loaded.map (elementOf keySystem)))).map
        SystemFactory.factory

theorem mem_systems {name : Text} : name ∈ (initializeAsync keySystem loaded openingFailed systems).systems ↔
    (lookup name (loadFactories (loaded.map (elementOf keySystem)))).isSome = true := by
  rw [lookup_loadFactories, Option.isSome_map, List.find?_isSome]
  show name ∈ loaded.map (fun factory => (elementOf keySystem factory).name) ↔ _
  simp only [List.mem_map, elementOf, decide_eq_true_eq]

theorem mem_designators_iff {designator name : Text} :
    designator ∈ (initializeAsync keySystem loaded openingFailed systems).designators name ↔
      ∃ element, lookup designator
          (initializeAsync keySystem loaded openingFailed systems).registry.systemToFactory = some element ∧
        name = element.name := by
  rw [OCDMImplementation.mem_designators]
  simp only [mem_inOrder]

/-- What is registered for a designator is what `find` gives for its name. -/
theorem registered {designator : Text} {element : SystemFactory}
    (h : lookup designator (initializeAsync keySystem loaded openingFailed systems).registry.systemToFactory =
      some element) :
    designator ≠ [] ∧ lookup element.name (loadFactories (loaded.map (elementOf keySystem))) = some element := by
  rw [lookup_registered] at h
  obtain ⟨s, -, hs⟩ := List.exists_of_findSome?_eq_some h
  split at hs
  · rename_i hclaims
    refine ⟨?_, ?_⟩
    · unfold claims at hclaims
      simpa using (List.mem_filter.1 hclaims).2
    · rw [(factoryOf_eq_some keySystem loaded hs).1]
      unfold factoryOf factoryFor at hs
      split at hs
      · exact hs
      · cases hs
  · cases hs

theorem keySystem_eq (designator : Text) :
    (initializeAsync keySystem loaded openingFailed systems).keySystem designator =
      (lookup designator (initializeAsync keySystem loaded openingFailed systems).registry.systemToFactory).map
        SystemFactory.factory := by
  unfold OCDMImplementation.keySystem
  split
  · rename_i hempty
    cases hlookup : lookup designator
        (initializeAsync keySystem loaded openingFailed systems).registry.systemToFactory with
    | none => rfl
    | some element => exact absurd hempty (registered _ _ _ _ hlookup).1
  · rfl

/-- A designator is listed for the name its factory is registered under, and for no other. -/
theorem designators_iff_keySystem (designator name : Text) :
    designator ∈ (initializeAsync keySystem loaded openingFailed systems).designators name ↔
      ∃ element, lookup name (loadFactories (loaded.map (elementOf keySystem))) = some element ∧
        (initializeAsync keySystem loaded openingFailed systems).keySystem designator = some element.factory := by
  rw [mem_designators_iff, keySystem_eq]
  constructor
  · rintro ⟨element, hlookup, rfl⟩
    exact ⟨element, (registered _ _ _ _ hlookup).2, by rw [hlookup]; rfl⟩
  · rintro ⟨element, hname, hfactory⟩
    obtain ⟨element', hlookup, heq⟩ := Option.map_eq_some_iff.1 hfactory
    -- the name of a library is the one its factory gives, so one factory has one name
    have hof : ∀ {name element}, lookup name (loadFactories (loaded.map (elementOf keySystem))) = some element →
        keySystem element.factory = name := by
      intro name element h
      rw [lookup_loadFactories] at h
      obtain ⟨factory, hfind, rfl⟩ := Option.map_eq_some_iff.1 h
      exact (find_library keySystem loaded hfind).2
    refine ⟨element', hlookup, ?_⟩
    rw [← hof hname, ← hof (registered _ _ _ _ hlookup).2, heq]

/-- The first entry that claims a designator and finds a factory has it in all views. -/
theorem first_entry_wins {before after : List Systems} {s : Systems} {designator : Text}
    (hsystems : systems = before ++ s :: after) (hs : Initializes keySystem loaded s)
    (hclaims : designator ∈ claims s)
    (hfree : ∀ s' ∈ before, Initializes keySystem loaded s' → designator ∉ claims s') :
    (∀ name, designator ∈ (initializeAsync keySystem loaded openingFailed systems).designators name ↔
      name = s.name) ∧
    (initializeAsync keySystem loaded openingFailed systems).keySystem designator =
      (lookup s.name (loadFactories (loaded.map (elementOf keySystem)))).map SystemFactory.factory := by
  obtain ⟨element, hfactory⟩ := (factoryOf_isSome ..).2 hs
  have hlookup : lookup designator
      (initializeAsync keySystem loaded openingFailed systems).registry.systemToFactory = some element :=
    (lookup_registered ..).trans (findSome_first keySystem loaded hsystems hfactory hclaims hfree)
  refine ⟨fun name => ?_, ?_⟩
  · rw [mem_designators_iff, hlookup, ← (factoryOf_eq_some keySystem loaded hfactory).1]
    constructor
    · rintro ⟨_, ⟨⟩, rfl⟩
      rfl
    · rintro rfl
      exact ⟨element, rfl, rfl⟩
  · rw [keySystem_eq, hlookup, ← factoryOf_eq keySystem loaded hs, hfactory]

/-- For every sequence of libraries and every configuration the views agree exactly when no two libraries have one
name. -/
theorem views_agree_iff :
    ViewsAgree keySystem loaded systems (initializeAsync keySystem loaded openingFailed systems) ↔
      (loaded.map keySystem).Nodup := by
  refine ⟨fun h => h.systems_once, fun h => ⟨h, fun _ => mem_systems .., ?_,
    fun _ _ => designators_iff_keySystem ..,
    fun _ _ _ _ hsystems => first_entry_wins keySystem loaded openingFailed systems hsystems⟩⟩
  intro designator name name' hname hname'
  obtain ⟨element, hlookup, rfl⟩ := (mem_designators_iff ..).1 hname
  obtain ⟨element', hlookup', rfl⟩ := (mem_designators_iff ..).1 hname'
  rw [hlookup] at hlookup'
  exact congrArg SystemFactory.name (Option.some.inj hlookup')

end

/-! ## What goes wrong -/

/-- A system with its designators. -/
def entryOf (name : String) (designators : List String) : Systems :=
  ⟨name.toList, some (designators.map String.toList), [], none, none⟩

/-- Two entries that share a designator. -/
def sharedDesignator : OCDMImplementation :=
  initializeAsync (fun factory => if factory = 1 then "a".toList else "b".toList) [1, 2] false
    [entryOf "a" ["d"], entryOf "b" ["d"]]

/-- An entry whose designator an entry before it has leaves its factory initialized. -/
theorem deinitialize_not_paired :
    ¬ Paired (sharedDesignator.registry.initialized.map Prod.fst) sharedDesignator.deinitialize := by
  intro h
  have hcount := (h 2).2
  revert hcount
  decide +kernel

/-- Two libraries of one name are both listed. -/
theorem systems_twice :
    ¬ ViewsAgree (fun _ => "a".toList) [1, 2] [entryOf "a" ["d"]]
      (initializeAsync (fun _ => "a".toList) [1, 2] false [entryOf "a" ["d"]]) := by
  intro h
  have hnodup := h.systems_once
  revert hnodup
  decide +kernel

end Ocdm.Server
