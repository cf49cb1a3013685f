/-
The configured key systems and the types they support (FrameworkRPC.cpp): `InitializeAsync` registers the
designators of each system and its blacklists, `IsTypeSupported` looks a content type up in them. The lists are
read only when there is one of either kind, and a system's list is the one its first entry sets; the answer is
the configured one exactly when neither matters (`isTypeSupported_iff`).
-/
import Ocdm.Lib.Regex
import Ocdm.Server.Buffers

namespace Ocdm.Server

open Assoc (lookup insertNew)

/-! ## Parsing a content type -/

/-- `std::isspace`, in the C locale. -/
def isSpace (c : Char) : Bool := c == ' ' || (0x09 ≤ c.toNat && c.toNat ≤ 0x0d)

def isAlnum (c : Char) : Bool := ('a' ≤ c && c ≤ 'z') || ('A' ≤ c && c ≤ 'Z') || ('0' ≤ c && c ≤ '9')

/-- `[a-zA-Z0-9\-\+]` -/
def isTypeChar (c : Char) : Bool := isAlnum c || c == '-' || c == '+'

/-- `[a-zA-Z0-9,\s\+\-\.']` -/
def isCodecChar (c : Char) : Bool :=
  isAlnum c || c == ',' || isSpace c || c == '+' || c == '-' || c == '.' || c == '\x27'

def mimeTypeExpr : Regex Char := .seq (.many1 isTypeChar) (.seq (.char '/') (.many1 isTypeChar))

/-- From the semicolon on: `codecs`, an optional `*`, `=`, and the codecs, which may be quoted. -/
def codecsExpr : Regex Char :=
  .seq (.char ';') (.seq (.many isSpace) (.lit "codecs".toList
    (.seq (.optChar '*') (.seq (.many isSpace) (.seq (.char '=') (.seq (.many isSpace) (.seq (.optChar '\x22')
      (.seq (.group 3 (.many1 isCodecChar)) (.seq (.optChar '\x22') (.many isSpace))))))))))

/-- The expression of `ParseContentType`. -/
def contentTypeExpr : Regex Char :=
  .seq (.many isSpace) (.seq (.group 1 mimeTypeExpr) (.seq (.many isSpace) (.opt (.group 2 codecsExpr))))

/-- `str[index]`: at the size it is the terminating zero, behind it there is nothing to read. -/
def charAt (str : Text) (index : Nat) : Option Char := if index = str.length then some '\x00' else str[index]?

/-- The first loop of `TrimWs`, with `left` characters up to the end. -/
def trimStart (str : Text) (start : Nat) : Nat → Option Nat
  | 0 => (charAt str start).map fun _ => start
  | left + 1 => do
    let c ← charAt str start
    if isSpace c then trimStart str (start + 1) left else some start

/-- The second one; for an empty prefix it reads in front of the string. -/
def trimEnd (str : Text) : Nat → Option Nat
  | 0 => none
  | stop + 1 => do
    let c ← charAt str stop
    if isSpace c ∧ stop > 0 then trimEnd str stop else some (stop + 1)

/-- `TrimWs` and the string between the two ends; a negative length throws. -/
def trimmed (str : Text) (start stop : Nat) : Option Text := do
  let start ← trimStart str start (stop - start)
  let stop ← trimEnd str stop
  if start ≤ stop then some ((str.drop start).take (stop - start)) else none

/-- `Tokenize`, from `startPos` on. -/
def tokenizeFrom (str : Text) (token : Char) (startPos : Nat) : Option (List Text) :=
  match h : (str.drop startPos).findIdx? (· == token) with
  | none => (trimmed str startPos str.length).map ([·])
  | some i => do
    let piece ← trimmed str startPos (startPos + i)
    let rest ← if startPos + i + 1 < str.length then tokenizeFrom str token (startPos + i + 1)
      else (trimmed str (startPos + i + 1) str.length).map ([·])
    some (piece :: rest)
termination_by str.length - startPos
decreasing_by omega

def tokenize (str : Text) (token : Char) : Option (List Text) := tokenizeFrom str token 0

/-- `ParseContentType`: the media type and the codecs, both empty when the expression does not match; nothing
when `Tokenize` leaves its string. -/
def parseContentType (contentType : Text) : Option (Text × List Text) :=
  match contentTypeExpr.fullMatch contentType with
  | none => some ([], [])
  | some groups =>
    if Regex.capture 2 groups = [] then some (Regex.capture 1 groups, [])
    else (tokenize (Regex.capture 3 groups) ',').map fun codecs => (Regex.capture 1 groups, codecs)

/-! ## The configuration -/

/-- A `SystemFactory`, its factory by its address. -/
structure SystemFactory where
  name : Text
  factory : Nat
deriving DecidableEq, Repr

/-- `Config::Systems`; a list that is not set is none. -/
structure Systems where
  name : Text
  designators : Option (List Text)
  configuration : Text
  blacklistedCodecRegexps : Option (List Text)
  blacklistedMediaTypeRegexps : Option (List Text)
deriving DecidableEq, Repr

/-- What `InitializeAsync` has done so far: `_systemToFactory`, the blacklists, the factories initialized with
their configurations, and whether something failed to open. -/
structure Registry where
  systemToFactory : List (Text × SystemFactory)
  systemBlacklistedCodecRegexps : List (Text × List Text)
  systemBlacklistedMediaTypeRegexps : List (Text × List Text)
  initialized : List (Nat × Text)
  openingFailed : Bool
deriving DecidableEq, Repr

/-- The factories loaded, under their names: the first one of a name stays. -/
def loadFactories (loaded : List SystemFactory) : List (Text × SystemFactory) :=
  loaded.foldl (fun factories element => insertNew element.name element factories) []

/-- One designator of a system. -/
def registerDesignator (factory : Option SystemFactory) (r : Registry) (designator : Text) : Registry :=
  if designator = [] then r
  else match factory with
    | some element => { r with systemToFactory := insertNew designator element r.systemToFactory }
    | none => { r with openingFailed := true }

/-- A system's designators, and its factory's `Initialize`. -/
def registerDesignators (factories : List (Text × SystemFactory)) (r : Registry) (system : Systems) : Registry :=
  match system.designators with
  | some designators =>
    if system.name = [] then r
    else
      let factory := lookup system.name factories
      let r := designators.foldl (registerDesignator factory) r
      { r with initialized := r.initialized ++
        (factory.map fun element => (element.factory, system.configuration)).toList }
  | none => r

def fillBlacklist (blacklist : List (Text × List Text)) (system : Text) (list : List Text) : List (Text × List Text) :=
  insertNew system (list.filter fun element => decide (element ≠ [])) blacklist

/-- A list of a system that is set. -/
def fillFrom (list : Systems → Option (List Text)) (blacklist : List (Text × List Text)) (system : Systems) :
    List (Text × List Text) :=
  match list system with
  | some elements => if system.name = [] then blacklist else fillBlacklist blacklist system.name elements
  | none => blacklist

/-- One entry of the configuration. -/
def initializeSystem (factories : List (Text × SystemFactory)) (r : Registry) (system : Systems) : Registry :=
  let r := registerDesignators factories r system
  { r with
    systemBlacklistedCodecRegexps := fillFrom Systems.blacklistedCodecRegexps r.systemBlacklistedCodecRegexps system
    systemBlacklistedMediaTypeRegexps :=
      fillFrom Systems.blacklistedMediaTypeRegexps r.systemBlacklistedMediaTypeRegexps system }

/-- The configuration loop of `InitializeAsync`; `openingFailed` is what loading the factories left. -/
def initializeSystems (loaded : List SystemFactory) (openingFailed : Bool) (systems : List Systems) : Registry :=
  systems.foldl (initializeSystem (loadFactories loaded)) ⟨[], [], [], [], openingFailed⟩

section

variable (regexMatch : Text → Text → Bool)

/-- A text matches one of the expressions of a system's list. -/
def blacklisted (blacklist : List (Text × List Text)) (system text : Text) : Bool :=
  match lookup system blacklist with
  | some regexps => regexps.any (regexMatch text)
  | none => false

/-- The part of `IsTypeSupported` behind the parse. -/
def supported (r : Registry) (system mimeType : Text) (codecs : List Text) : Bool :=
  if mimeType = [] then true
  else if blacklisted regexMatch r.systemBlacklistedMediaTypeRegexps system mimeType then false
  else !codecs.any (blacklisted regexMatch r.systemBlacklistedCodecRegexps system)

/-- `IsTypeSupported`; `regexMatch text regexp` is `std::regex_match`. -/
def isTypeSupported (r : Registry) (keySystem contentType : Text) : Option Bool :=
  if keySystem = [] then some false
  else match lookup keySystem r.systemToFactory with
    | none => some false
    | some index =>
      if contentType ≠ [] ∧ r.systemBlacklistedMediaTypeRegexps ≠ [] ∧ r.systemBlacklistedCodecRegexps ≠ [] then
        (parseContentType contentType).map fun parsed => supported regexMatch r index.name parsed.1 parsed.2
      else some true

/-! ## What is configured, and what counts -/

/-- All expressions of one kind configured for a system. -/
def configured (list : Systems → Option (List Text)) (systems : List Systems) (system : Text) : List Text :=
  systems.flatMap fun s => if s.name = system then (list s).getD [] else []

/-- The expressions that count: those not empty in the first list of the system. -/
def counted (list : Systems → Option (List Text)) (systems : List Systems) (system : Text) : List Text :=
  match systems.find? fun s => decide (s.name = system) && (list s).isSome with
  | some s => ((list s).getD []).filter fun element => decide (element ≠ [])
  | none => []

/-- The media type matches an expression of the one kind, or a codec one of the other. -/
def Matches (regexps : (Systems → Option (List Text)) → List Text) (mimeType : Text) (codecs : List Text) : Prop :=
  (∃ regexp ∈ regexps Systems.blacklistedMediaTypeRegexps, regexMatch mimeType regexp = true) ∨
  ∃ codec ∈ codecs, ∃ regexp ∈ regexps Systems.blacklistedCodecRegexps, regexMatch codec regexp = true

/-- The expression matches a content type, and its parts are these. -/
def Accepts (contentType mimeType : Text) (codecs : List Text) : Prop :=
  (contentTypeExpr.fullMatch contentType).isSome = true ∧ parseContentType contentType = some (mimeType, codecs)

/-- The answer the configuration asks for. -/
def AsConfigured (systems : List Systems) (system mimeType : Text) (codecs : List Text) (result : Option Bool) : Prop :=
  (Matches regexMatch (configured · systems system) mimeType codecs → result = some false) ∧
  (¬ Matches regexMatch (configured · systems system) mimeType codecs → result = some true)

/-- Some system has a list of a kind. -/
def Sets (list : Systems → Option (List Text)) (systems : List Systems) : Prop :=
  ∃ s ∈ systems, s.name ≠ [] ∧ (list s).isSome = true

/-- Nothing configured matches; or there are lists of either kind and something that counts matches. -/
def ListsFit (systems : List Systems) (system mimeType : Text) (codecs : List Text) : Prop :=
  ¬ Matches regexMatch (configured · systems system) mimeType codecs ∨
  (Sets Systems.blacklistedMediaTypeRegexps systems ∧ Sets Systems.blacklistedCodecRegexps systems ∧
    Matches regexMatch (counted · systems system) mimeType codecs)

end

/-! ## The lists after the configuration -/

section

variable {list : Systems → Option (List Text)}

theorem lookup_fillFrom {system : Text} (hsystem : system ≠ []) (blacklist : List (Text × List Text)) (s : Systems) :
    lookup system (fillFrom list blacklist s) = (lookup system blacklist).or
      (if decide (s.name = system) && (list s).isSome then
        some (((list s).getD []).filter fun element => decide (element ≠ [])) else none) := by
  unfold fillFrom
  cases hlist : list s with
  | none => simp
  | some elements =>
    dsimp only
    split
    · rename_i hempty
      rw [hempty, if_neg (by simp [Ne.symm hsystem]), Option.or_none]
    · rw [fillBlacklist, Assoc.lookup_insertNew]
      by_cases hname : s.name = system <;> simp [hname]

/-- The list of a system is the first one set. -/
theorem lookup_fill {system : Text} (hsystem : system ≠ []) (systems : List Systems) :
    ∀ blacklist : List (Text × List Text), lookup system (systems.foldl (fillFrom list) blacklist) =
      (lookup system blacklist).or ((systems.find? fun s => decide (s.name = system) && (list s).isSome).map fun s =>
        ((list s).getD []).filter fun element => decide (element ≠ [])) := by
  induction systems with
  | nil => intro blacklist; simp
  | cons s systems ih =>
    intro blacklist
    rw [List.foldl_cons, ih, lookup_fillFrom hsystem, Option.or_assoc, List.find?_cons]
    cases decide (s.name = system) && (list s).isSome <;> simp

theorem fillFrom_ne_nil (blacklist : List (Text × List Text)) (s : Systems) :
    fillFrom list blacklist s ≠ [] ↔ blacklist ≠ [] ∨ (s.name ≠ [] ∧ (list s).isSome = true) := by
  unfold fillFrom
  cases list s with
  | none => simp
  | some elements =>
    dsimp only
    split
    · rename_i hempty
      simp [hempty]
    · rename_i hname
      refine iff_of_true ?_ (.inr ⟨hname, rfl⟩)
      unfold fillBlacklist insertNew
      split
      · rename_i hfound
        rintro rfl
        cases hfound
      · simp

/-- There is a list at all once some system has one. -/
theorem fill_ne_nil (systems : List Systems) :
    ∀ blacklist : List (Text × List Text),
      systems.foldl (fillFrom list) blacklist ≠ [] ↔ blacklist ≠ [] ∨ Sets list systems := by
  induction systems with
  | nil => intro blacklist; simp [Sets]
  | cons s systems ih =>
    intro blacklist
    rw [List.foldl_cons, ih, fillFrom_ne_nil, or_assoc]
    unfold Sets
    simp only [List.mem_cons, exists_eq_or_imp]

theorem blacklisted_iff {regexMatch : Text → Text → Bool} {system : Text} (hsystem : system ≠ [])
    (systems : List Systems)
    (text : Text) : blacklisted regexMatch (systems.foldl (fillFrom list) []) system text = true ↔
      ∃ regexp ∈ counted list systems system, regexMatch text regexp = true := by
  unfold blacklisted counted
  rw [lookup_fill hsystem]
  cases systems.find? fun s => decide (s.name = system) && (list s).isSome with
  | none => simp [lookup]
  | some s => simp [lookup, and_assoc]

/-- What counts is configured. -/
theorem mem_configured {systems : List Systems} {system regexp : Text} (h : regexp ∈ counted list systems system) :
    regexp ∈ configured list systems system := by
  unfold counted at h
  split at h
  · rename_i s hs
    have hfirst := List.find?_some hs
    simp only [Bool.and_eq_true, decide_eq_true_eq] at hfirst
    refine List.mem_flatMap.2 ⟨s, List.mem_of_find?_eq_some hs, ?_⟩
    rw [if_pos hfirst.1]
    exact (List.mem_filter.1 h).1
  · cases h

theorem Matches.configured {regexMatch : Text → Text → Bool} {systems : List Systems} {system mimeType : Text}
    {codecs : List Text} (h : Matches regexMatch (counted · systems system) mimeType codecs) :
    Matches regexMatch (configured · systems system) mimeType codecs := by
  rcases h with ⟨regexp, hmem, hmatch⟩ | ⟨codec, hcodec, regexp, hmem, hmatch⟩
  · exact .inl ⟨regexp, mem_configured hmem, hmatch⟩
  · exact .inr ⟨codec, hcodec, regexp, mem_configured hmem, hmatch⟩

end

/-! ## The registry after the configuration -/

/-- A designator registered is not empty, and neither is the name of its system. -/
def Named (r : Registry) : Prop := ∀ e ∈ r.systemToFactory, e.1 ≠ [] ∧ e.2.name ≠ []

theorem registerDesignator_named {r : Registry} (h : Named r) {factory : Option SystemFactory}
    (hfactory : ∀ element ∈ factory, element.name ≠ []) (designator : Text) :
    Named (registerDesignator factory r designator) := by
  unfold registerDesignator
  split
  · exact h
  · rename_i hdesignator
    split
    · rename_i element
      intro e he
      rcases Assoc.mem_insertNew he with he | rfl
      · exact h e he
      · exact ⟨hdesignator, hfactory element rfl⟩
    · exact h

theorem registerDesignator_lists (factory : Option SystemFactory) (r : Registry) (designator : Text) :
    (registerDesignator factory r designator).systemBlacklistedCodecRegexps = r.systemBlacklistedCodecRegexps ∧
    (registerDesignator factory r designator).systemBlacklistedMediaTypeRegexps =
      r.systemBlacklistedMediaTypeRegexps := by
  unfold registerDesignator
  split
  · exact ⟨rfl, rfl⟩
  · split <;> exact ⟨rfl, rfl⟩

theorem registerDesignators_foldl (factory : Option SystemFactory) (designators : List Text) :
    ∀ r : Registry, (designators.foldl (registerDesignator factory) r).systemBlacklistedCodecRegexps =
        r.systemBlacklistedCodecRegexps ∧
      (designators.foldl (registerDesignator factory) r).systemBlacklistedMediaTypeRegexps =
        r.systemBlacklistedMediaTypeRegexps := by
  induction designators with
  | nil => exact fun r => ⟨rfl, rfl⟩
  | cons designator designators ih =>
    intro r
    obtain ⟨hcodec, hmedia⟩ := ih (registerDesignator factory r designator)
    obtain ⟨hcodec', hmedia'⟩ := registerDesignator_lists factory r designator
    exact ⟨hcodec.trans hcodec', hmedia.trans hmedia'⟩

/-- Registering designators leaves the lists alone. -/
theorem registerDesignators_lists (factories : List (Text × SystemFactory)) (r : Registry) (system : Systems) :
    (registerDesignators factories r system).systemBlacklistedCodecRegexps = r.systemBlacklistedCodecRegexps ∧
    (registerDesignators factories r system).systemBlacklistedMediaTypeRegexps =
      r.systemBlacklistedMediaTypeRegexps := by
  unfold registerDesignators
  split
  · split
    · exact ⟨rfl, rfl⟩
    · exact registerDesignators_foldl _ _ r
  · exact ⟨rfl, rfl⟩

theorem initializeSystem_lists (factories : List (Text × SystemFactory)) (systems : List Systems) :
    ∀ r : Registry,
      (systems.foldl (initializeSystem factories) r).systemBlacklistedCodecRegexps =
        systems.foldl (fillFrom Systems.blacklistedCodecRegexps) r.systemBlacklistedCodecRegexps ∧
      (systems.foldl (initializeSystem factories) r).systemBlacklistedMediaTypeRegexps =
        systems.foldl (fillFrom Systems.blacklistedMediaTypeRegexps) r.systemBlacklistedMediaTypeRegexps := by
  induction systems with
  | nil => exact fun r => ⟨rfl, rfl⟩
  | cons system systems ih =>
    intro r
    rw [List.foldl_cons, (ih _).1, (ih _).2]
    obtain ⟨hcodec, hmedia⟩ := registerDesignators_lists factories r system
    unfold initializeSystem
    dsimp only
    rw [hcodec, hmedia]
    exact ⟨rfl, rfl⟩

theorem loadFactories_named (loaded : List SystemFactory) : ∀ e ∈ loadFactories loaded, e.2.name = e.1 := by
  refine List.foldlRecOn (motive := fun factories : List (Text × SystemFactory) => ∀ e ∈ factories,
    e.2.name = e.1) loaded _
    (fun e he => by cases he) fun factories h element _ e he => ?_
  rcases Assoc.mem_insertNew he with he | rfl
  · exact h e he
  · rfl

theorem initializeSystem_named {factories : List (Text × SystemFactory)} (hfactories : ∀ e ∈ factories, e.2.name = e.1)
    {r : Registry} (h : Named r) (system : Systems) : Named (initializeSystem factories r system) := by
  show Named (registerDesignators factories r system)
  unfold registerDesignators
  split
  · split
    · exact h
    · rename_i hname
      have hfactory : ∀ element ∈ lookup system.name factories, element.name ≠ [] := by
        intro element helement
        rw [hfactories _ (Assoc.lookup_mem helement)]
        exact hname
      exact List.foldlRecOn (motive := Named) _ _ h fun r h designator _ =>
        registerDesignator_named h hfactory designator
  · exact h

theorem initializeSystems_named (loaded : List SystemFactory) (openingFailed : Bool) (systems : List Systems) :
    Named (initializeSystems loaded openingFailed systems) :=
  List.foldlRecOn (motive := Named) systems _ (fun e he => by cases he)
    fun _ h system _ => initializeSystem_named (loadFactories_named loaded) h system

/-! ## The answer -/

theorem mimeTypeExpr_ne_nil {text : Text} (h : Regex.Lang mimeTypeExpr text) : text ≠ [] := by
  obtain _ | ⟨hfirst, _⟩ := h
  obtain ⟨-, hleast, -⟩ := hfirst
  intro hnil
  rw [(List.append_eq_nil_iff.1 hnil).1] at hleast
  cases hleast

/-- A content type that is accepted has a media type. -/
theorem Accepts.mimeType_ne_nil {contentType mimeType : Text} {codecs : List Text}
    (h : Accepts contentType mimeType codecs) : mimeType ≠ [] := by
  obtain ⟨hmatch, hparse⟩ := h
  obtain ⟨groups, hgroups⟩ := Option.isSome_iff_exists.1 hmatch
  have hcapture : Regex.capture 1 groups ≠ [] := by
    obtain ⟨expr, hexpr, hlang⟩ := Regex.capture_lang (n := 1) hgroups (.inr (.inl (.inl rfl)))
    rw [List.mem_singleton.1 hexpr] at hlang
    exact mimeTypeExpr_ne_nil hlang
  unfold parseContentType at hparse
  rw [hgroups] at hparse
  dsimp only at hparse
  split at hparse
  · cases hparse
    exact hcapture
  · obtain ⟨codecs', -, heq⟩ := Option.map_eq_some_iff.1 hparse
    cases heq
    exact hcapture

theorem Accepts.ne_nil {contentType mimeType : Text} {codecs : List Text} (h : Accepts contentType mimeType codecs) :
    contentType ≠ [] := by
  rintro rfl
  have hempty : (contentTypeExpr.fullMatch []).isSome = false := by decide +kernel
  rw [h.1] at hempty
  cases hempty

section

variable (regexMatch : Text → Text → Bool) (loaded : List SystemFactory) (openingFailed : Bool) (systems : List Systems)

theorem initializeSystems_lists :
    (initializeSystems loaded openingFailed systems).systemBlacklistedCodecRegexps =
      systems.foldl (fillFrom Systems.blacklistedCodecRegexps) [] ∧
    (initializeSystems loaded openingFailed systems).systemBlacklistedMediaTypeRegexps =
      systems.foldl (fillFrom Systems.blacklistedMediaTypeRegexps) [] :=
  initializeSystem_lists (loadFactories loaded) systems ⟨[], [], [], [], openingFailed⟩

theorem supported_iff {system mimeType : Text} (hsystem : system ≠ []) (hmimeType : mimeType ≠ [])
    (codecs : List Text) :
    supported regexMatch (initializeSystems loaded openingFailed systems) system mimeType codecs = false ↔
      Matches regexMatch (counted · systems system) mimeType codecs := by
  obtain ⟨hcodec, hmedia⟩ := initializeSystems_lists loaded openingFailed systems
  unfold supported Matches
  rw [if_neg hmimeType, hcodec, hmedia, ← blacklisted_iff hsystem]
  simp only [← blacklisted_iff hsystem]
  cases blacklisted regexMatch (systems.foldl (fillFrom Systems.blacklistedMediaTypeRegexps) []) system mimeType with
  | true => simp
  | false => simp

/-- What `IsTypeSupported` answers for a registered designator and an accepted content type. -/
theorem isTypeSupported_accepted {designator contentType mimeType : Text} {codecs : List Text} {index : SystemFactory}
    (hdesignator : lookup designator (initializeSystems loaded openingFailed systems).systemToFactory = some index)
    (haccepts : Accepts contentType mimeType codecs) :
    ∃ answer, isTypeSupported regexMatch (initializeSystems loaded openingFailed systems) designator contentType =
        some answer ∧
      (answer = false ↔ Sets Systems.blacklistedMediaTypeRegexps systems ∧
        Sets Systems.blacklistedCodecRegexps systems ∧
          Matches regexMatch (counted · systems index.name) mimeType codecs) := by
  obtain ⟨hkeySystem, hname⟩ := initializeSystems_named loaded openingFailed systems _ (Assoc.lookup_mem hdesignator)
  have hgate : (contentType ≠ [] ∧
    (initializeSystems loaded openingFailed systems).systemBlacklistedMediaTypeRegexps ≠ [] ∧
      (initializeSystems loaded openingFailed systems).systemBlacklistedCodecRegexps ≠ []) ↔
      Sets Systems.blacklistedMediaTypeRegexps systems ∧ Sets Systems.blacklistedCodecRegexps systems := by
    obtain ⟨hcodec, hmedia⟩ := initializeSystems_lists loaded openingFailed systems
    rw [hcodec, hmedia, fill_ne_nil, fill_ne_nil]
    simp [haccepts.ne_nil]
  unfold isTypeSupported
  rw [if_neg hkeySystem, hdesignator]
  dsimp only
  by_cases hsets : Sets Systems.blacklistedMediaTypeRegexps systems ∧ Sets Systems.blacklistedCodecRegexps systems
  · rw [if_pos (hgate.2 hsets), haccepts.2]
    refine ⟨_, rfl, ?_⟩
    rw [supported_iff regexMatch loaded openingFailed systems hname haccepts.mimeType_ne_nil codecs]
    exact ⟨fun hmatch => ⟨hsets.1, hsets.2, hmatch⟩, fun h => h.2.2⟩
  · -- without lists of both kinds nothing is looked up
    rw [if_neg (mt hgate.1 hsets)]
    exact ⟨true, rfl, iff_of_false nofun fun h => hsets ⟨h.1, h.2.1⟩⟩

/-- For every configuration, registered designator and accepted content type the answer is the configured one exactly
when the lists fit. -/
theorem isTypeSupported_iff {designator contentType mimeType : Text} {codecs : List Text} {index : SystemFactory}
    (hdesignator : lookup designator (initializeSystems loaded openingFailed systems).systemToFactory = some index)
    (haccepts : Accepts contentType mimeType codecs) :
    AsConfigured regexMatch systems index.name mimeType codecs
        (isTypeSupported regexMatch (initializeSystems loaded openingFailed systems) designator contentType) ↔
      ListsFit regexMatch systems index.name mimeType codecs := by
  obtain ⟨answer, hanswer, hfalse⟩ :=
    isTypeSupported_accepted regexMatch loaded openingFailed systems hdesignator haccepts
  rw [hanswer]
  unfold AsConfigured ListsFit
  rw [← hfalse]
  constructor
  · rintro ⟨hmatches, -⟩
    by_cases hmatch : Matches regexMatch (configured · systems index.name) mimeType codecs
    · exact .inr (Option.some.inj (hmatches hmatch))
    · exact .inl hmatch
  · intro hfit
    refine ⟨fun hmatch => ?_, fun hno => ?_⟩
    · rcases hfit with hno | hanswer
      · exact absurd hmatch hno
      · rw [hanswer]
    · cases answer with
      | true => rfl
      | false => exact absurd (hfalse.1 rfl).2.2.configured hno

end

/-- A system with one designator. -/
def oneSystem (codecRegexps mediaTypeRegexps : Option (List Text)) : Systems :=
  ⟨"a".toList, some ["d".toList], [], codecRegexps, mediaTypeRegexps⟩

theorem accepts_video : Accepts "video/mp4".toList "video/mp4".toList [] := by
  constructor <;> decide +kernel

theorem isTypeSupported_video :
    AsConfigured (· == ·) [oneSystem (some ["x".toList]) (some ["video/mp4".toList])] "a".toList "video/mp4".toList []
        (isTypeSupported (· == ·) (initializeSystems [⟨"a".toList, 0⟩] false
          [oneSystem (some ["x".toList]) (some ["video/mp4".toList])]) "d".toList "video/mp4".toList) ↔
      ListsFit (· == ·) [oneSystem (some ["x".toList]) (some ["video/mp4".toList])] "a".toList "video/mp4".toList [] :=
  isTypeSupported_iff (· == ·) [⟨"a".toList, 0⟩] false [oneSystem (some ["x".toList]) (some ["video/mp4".toList])]
    (show lookup "d".toList _ = some ⟨"a".toList, 0⟩ by decide +kernel) accepts_video

/-- With a list for media types only, the type listed is supported. -/
theorem mediaType_not_blacklisted :
    lookup "d".toList (initializeSystems [⟨"a".toList, 0⟩] false
      [oneSystem none (some ["video/mp4".toList])]).systemToFactory = some ⟨"a".toList, 0⟩ ∧
    Accepts "video/mp4".toList "video/mp4".toList [] ∧
    ¬ AsConfigured (· == ·) [oneSystem none (some ["video/mp4".toList])] "a".toList "video/mp4".toList []
      (isTypeSupported (· == ·) (initializeSystems [⟨"a".toList, 0⟩] false
        [oneSystem none (some ["video/mp4".toList])]) "d".toList "video/mp4".toList) := by
  refine ⟨by decide +kernel, accepts_video, fun ⟨hmatches, _⟩ => ?_⟩
  have hfalse := hmatches (.inl ⟨"video/mp4".toList, by decide +kernel, by decide +kernel⟩)
  revert hfalse
  decide +kernel

end Ocdm.Server
