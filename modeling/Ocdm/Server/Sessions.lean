/-
The sessions of the server and its view of them (FrameworkRPC.cpp). `CreateSession` and the destructor of a session
keep `_sessionList` to the sessions that are alive (`run_keeps`). But `Sessions` does not ask the accessor: what
`LoadSessions` collects are the designators, as in `LoadDesignators`. So it is right at a moment when the sessions of
the key system happen to have its designators as their ids, and throughout a run exactly when the key system has no
designator, and so no session (`sessions_listed_iff`).
-/
import Mathlib.Data.List.Induction
import Ocdm.Lib.Effects
import Ocdm.Server.KeySystems

namespace Ocdm.Server

open Assoc (lookup)

namespace Sessions

/-! ## The accessor and its sessions -/

/-- A session of a CDM, by its address, and what its `GetSessionId` returns. -/
structure MediaKeySession where
  address : Nat
  sessionId : Text
deriving DecidableEq, Repr

/-- The key system whose sessions are neither run nor asked for their id. -/
def appleFps : Text := "com.apple.fps".toList

/-- `strcmp(keySystem.c_str(), "com.apple.fps") == 0`, which ends at a zero character. -/
def isAppleFps (keySystem : Text) : Bool := keySystem.takeWhile (· != Char.ofNat 0) == appleFps

/-- A `SessionImplementation`, by the number of its construction. -/
structure SessionImplementation where
  number : Nat
  keySystem : Text
  sessionId : Text
  mediaKeySession : Nat
deriving DecidableEq, Repr

/-- The `AccessorOCDM` of an `OCDMImplementation`. The objects are the sessions that are alive: constructed, and not
destructed yet. -/
structure AccessorOCDM where
  parent : OCDMImplementation
  sessionList : List SessionImplementation
  objects : List SessionImplementation
  constructed : Nat
deriving DecidableEq, Repr

/-- `CreateSession`, with what `CreateMediaKeySession` of the CDM leaves if it is called, and the end of a session's
last reference. -/
inductive Call where
  | createSession (keySystem : Text) (result : UInt32) (sessionInterface : Option MediaKeySession)
  | destroy (number : Nat)
deriving DecidableEq, Repr

/-- What the caller or the CDM sees. -/
inductive Event where
  | created (result : UInt32) (sessionId : Option Text) (session : Option Nat)
  | runNull (mediaKeySession : Nat)
  | destroyMediaKeySession (factory mediaKeySession : Nat)
deriving DecidableEq, Repr

def ocdmSuccess : UInt32 := 0
def ocdmSFalse : UInt32 := 1

/-- `CreateSession` -/
def AccessorOCDM.createSession (s : AccessorOCDM) (keySystem : Text) (result : UInt32)
    (sessionInterface : Option MediaKeySession) : AccessorOCDM × List Event :=
  match s.parent.keySystem keySystem, sessionInterface with
  | some _, some cdm =>
    if result = 0 then
      -- the constructor without a callback does not ask the CDM for the id
      let newEntry : SessionImplementation :=
        ⟨s.constructed, keySystem, if isAppleFps keySystem then [] else cdm.sessionId, cdm.address⟩
      ({ s with sessionList := newEntry :: s.sessionList, objects := s.objects ++ [newEntry]
                constructed := s.constructed + 1 },
        [.created ocdmSuccess (some newEntry.sessionId) (some newEntry.number)])
    else (s, [.created ocdmSFalse none none])
  | _, _ => (s, [.created ocdmSFalse none none])

/-- `Remove`, the part for the list and the CDM. -/
def AccessorOCDM.remove (s : AccessorOCDM) (session : SessionImplementation) : AccessorOCDM × List Event :=
  ({ s with sessionList := s.sessionList.eraseP fun entry => entry.number = session.number },
    .runNull session.mediaKeySession ::
      ((s.parent.keySystem session.keySystem).map fun factory =>
        Event.destroyMediaKeySession factory session.mediaKeySession).toList)

/-- The destructor of a session that is alive. -/
def AccessorOCDM.destroy (s : AccessorOCDM) (number : Nat) : AccessorOCDM × List Event :=
  match s.objects.find? fun object => object.number = number with
  -- a session that is not alive has no reference to lose
  | none => (s, [])
  | some session =>
    let removed := s.remove session
    ({ removed.1 with objects := s.objects.eraseP fun object => object.number = number }, removed.2)

def AccessorOCDM.call (s : AccessorOCDM) : Call → AccessorOCDM × List Event
  | .createSession keySystem result sessionInterface => s.createSession keySystem result sessionInterface
  | .destroy number => s.destroy number

end Sessions

namespace OCDMImplementation

/-- The name of the system a key system resolves to. -/
def systemOf (o : OCDMImplementation) (keySystem : Text) : Option Text :=
  if keySystem = [] then none else (lookup keySystem o.registry.systemToFactory).map SystemFactory.name

/-- `Sessions`, as `LoadSessions` collects them. -/
def sessions (o : OCDMImplementation) (keySystem : Text) : List Text :=
  (inOrder o.registry.systemToFactory).foldl (fun designators e =>
    if keySystem = e.2.name then designators ++ [e.1] else designators) []

theorem sessions_eq (o : OCDMImplementation) (keySystem : Text) : o.sessions keySystem = o.designators keySystem := rfl

end OCDMImplementation

namespace Sessions

/-! ## The list -/

/-- The list has the sessions that are alive, and their numbers are different. -/
structure Keeps (parent : OCDMImplementation) (s : AccessorOCDM) : Prop where
  same : s.parent = parent
  list : s.sessionList.Perm s.objects
  nodup : (s.objects.map SessionImplementation.number).Nodup
  numbered : ∀ object ∈ s.objects, object.number < s.constructed
  resolved : ∀ object ∈ s.objects, (parent.keySystem object.keySystem).isSome = true

section

variable {parent : OCDMImplementation} {s : AccessorOCDM}

theorem Keeps.createSession (h : Keeps parent s) (keySystem : Text) (result : UInt32)
    (sessionInterface : Option MediaKeySession) :
    Keeps parent (s.createSession keySystem result sessionInterface).1 := by
  unfold AccessorOCDM.createSession
  split
  · rename_i factory cdm hsystem
    split
    · refine ⟨h.same, ?_, ?_, ?_, ?_⟩
      · exact (List.Perm.cons _ h.list).trans (List.perm_append_singleton _ _).symm
      · -- the number of the new session is larger than those before
        rw [List.map_append, List.nodup_append']
        refine ⟨h.nodup, List.nodup_singleton _, ?_⟩
        rw [List.map_singleton, List.disjoint_singleton]
        intro hmem
        obtain ⟨object, hobject, hnumber⟩ := List.mem_map.1 hmem
        exact absurd (h.numbered object hobject) (by rw [hnumber]; exact Nat.lt_irrefl _)
      · intro object hobject
        rcases List.mem_append.1 hobject with hobject | hobject
        · exact Nat.lt_succ_of_lt (h.numbered object hobject)
        · cases List.mem_singleton.1 hobject
          exact Nat.lt_succ_self _
      · intro object hobject
        rcases List.mem_append.1 hobject with hobject | hobject
        · exact h.resolved object hobject
        · cases List.mem_singleton.1 hobject
          rw [← h.same, hsystem]
          rfl
    · exact h
  · exact h

theorem Keeps.destroy (h : Keeps parent s) (number : Nat) : Keeps parent (s.destroy number).1 := by
  unfold AccessorOCDM.destroy
  split
  · exact h
  · rename_i session hfind
    have hnumber : session.number = number :=
      of_decide_eq_true
        (List.find?_some (p := fun object : SessionImplementation => decide (object.number = number)) hfind)
    have hsub : (s.objects.eraseP fun object => object.number = number).Sublist s.objects := List.eraseP_sublist
    refine ⟨h.same, ?_, h.nodup.sublist (hsub.map _), ?_, ?_⟩
    · show (s.sessionList.eraseP fun entry => entry.number = session.number).Perm
        (s.objects.eraseP fun object => object.number = number)
      rw [hnumber]
      -- no two entries have one number, so either list loses the same one
      refine List.Perm.eraseP _ ?_ h.list
      have hpairwise : (s.sessionList.map SessionImplementation.number).Nodup :=
        (h.list.map _).nodup_iff.2 h.nodup
      rw [List.Nodup, List.pairwise_map] at hpairwise
      refine hpairwise.imp ?_
      intro a b hne ha hb
      exact hne ((of_decide_eq_true ha).trans (of_decide_eq_true hb).symm)
    · exact fun object hobject => h.numbered object (hsub.subset hobject)
    · exact fun object hobject => h.resolved object (hsub.subset hobject)

theorem Keeps.call (h : Keeps parent s) (c : Call) : Keeps parent (s.call c).1 := by
  cases c with
  | createSession keySystem result sessionInterface => exact h.createSession keySystem result sessionInterface
  | destroy number => exact h.destroy number

end

/-- An accessor at the start, and after a run of calls. -/
def start (parent : OCDMImplementation) : AccessorOCDM := ⟨parent, [], [], 0⟩

def after (parent : OCDMImplementation) (calls : List Call) : AccessorOCDM :=
  (Effects.run AccessorOCDM.call (start parent) calls).1

theorem run_keeps (parent : OCDMImplementation) (calls : List Call) : Keeps parent (after parent calls) := by
  induction calls using List.reverseRecOn with
  | nil =>
    exact ⟨rfl, .refl _, List.nodup_nil, fun _ h => absurd h List.not_mem_nil, fun _ h => absurd h List.not_mem_nil⟩
  | append_singleton calls c ih =>
    unfold after at ih ⊢
    rw [Effects.run_concat]
    exact ih.call c

/-! ## What is listed -/

/-- The ids of the sessions alive whose key system resolves to a name. -/
def AccessorOCDM.aliveIds (s : AccessorOCDM) (name : Text) : List Text :=
  (s.objects.filter fun object => s.parent.systemOf object.keySystem = some name).map SessionImplementation.sessionId

/-- `Sessions` gives these ids, each as often. -/
def Listed (s : AccessorOCDM) (name : Text) : Prop := (s.parent.sessions name).Perm (s.aliveIds name)

section

variable (keySystem : Nat → Text) (loaded : List Nat) (openingFailed : Bool) (systems : List Systems)

/-- The first entry that finds a factory and claims the designator has the name. -/
def Designates (name designator : Text) : Prop :=
  ∃ before s after, systems = before ++ s :: after ∧ Initializes keySystem loaded s ∧ s.name = name ∧
    designator ∈ claims s ∧ ∀ s' ∈ before, Initializes keySystem loaded s' → designator ∉ claims s'

/-- The sessions of the name have its designators as their ids: one session for each, and no other session. -/
def IdsDesignate (s : AccessorOCDM) (name : Text) : Prop :=
  ∀ text, (Designates keySystem loaded systems name text → (s.aliveIds name).count text = 1) ∧
    (¬ Designates keySystem loaded systems name text → (s.aliveIds name).count text = 0)

theorem mem_designators_iff_designates {name designator : Text} :
    designator ∈ (initializeAsync keySystem loaded openingFailed systems).designators name ↔
      Designates keySystem loaded systems name designator := by
  rw [mem_designators_iff, lookup_registered]
  constructor
  · rintro ⟨element, hfirst, rfl⟩
    obtain ⟨before, s, after, hsystems, hs, hbefore⟩ := List.findSome?_eq_some_iff.1 hfirst
    split at hs
    · rename_i hclaims
      refine ⟨before, s, after, hsystems, (factoryOf_isSome ..).1 ⟨element, hs⟩,
        (factoryOf_eq_some keySystem loaded hs).1.symm, hclaims, ?_⟩
      intro s' hs' hinitializes hclaims'
      obtain ⟨element', hfactory'⟩ := (factoryOf_isSome ..).2 hinitializes
      have hnone := hbefore s' hs'
      rw [if_pos hclaims', hfactory'] at hnone
      cases hnone
    · cases hs
  · rintro ⟨before, s, after, hsystems, hs, rfl, hclaims, hfree⟩
    obtain ⟨element, hfactory⟩ := (factoryOf_isSome ..).2 hs
    exact ⟨element, findSome_first keySystem loaded hsystems hfactory hclaims hfree,
      (factoryOf_eq_some keySystem loaded hfactory).1.symm⟩

/-- A designator is an entry of the map once. -/
theorem designators_nodup (name : Text) :
    ((initializeAsync keySystem loaded openingFailed systems).designators name).Nodup := by
  rw [OCDMImplementation.designators_eq]
  refine List.Nodup.sublist (List.filter_sublist.map Prod.fst) ?_
  unfold inOrder
  rw [((List.perm_insertionSort _ _).map Prod.fst).nodup_iff]
  exact keys_systemToFactory keySystem loaded openingFailed systems

/-- A key system that resolves to a name is one of its designators. -/
theorem designates_of_systemOf {designator name : Text}
    (h : (initializeAsync keySystem loaded openingFailed systems).systemOf designator = some name) :
    Designates keySystem loaded systems name designator := by
  rw [← mem_designators_iff_designates keySystem loaded openingFailed systems, mem_designators_iff]
  unfold OCDMImplementation.systemOf at h
  split at h
  · cases h
  · obtain ⟨element, hlookup, hname⟩ := Option.map_eq_some_iff.1 h
    exact ⟨element, hlookup, hname.symm⟩

variable {keySystem loaded openingFailed systems}

theorem listed_iff {s : AccessorOCDM} (hs : s.parent = initializeAsync keySystem loaded openingFailed systems)
    (name : Text) : Listed s name ↔ IdsDesignate keySystem loaded systems s name := by
  unfold Listed IdsDesignate
  rw [hs, OCDMImplementation.sessions_eq, List.perm_iff_count]
  refine forall_congr' fun text => ?_
  rw [(designators_nodup keySystem loaded openingFailed systems name).count,
    ← mem_designators_iff_designates keySystem loaded openingFailed systems]
  split
  · rename_i hmem
    exact ⟨fun h => ⟨fun _ => h.symm, fun hno => absurd hmem hno⟩, fun h => (h.1 hmem).symm⟩
  · rename_i hmem
    exact ⟨fun h => ⟨fun hyes => absurd hyes hmem, fun _ => h.symm⟩, fun h => (h.2 hmem).symm⟩

/-- Without designators there are no sessions. -/
theorem aliveIds_of_no_designator {s : AccessorOCDM}
    (hs : s.parent = initializeAsync keySystem loaded openingFailed systems) {name : Text}
    (hno : ∀ designator, ¬ Designates keySystem loaded systems name designator) : s.aliveIds name = [] := by
  unfold AccessorOCDM.aliveIds
  rw [List.map_eq_nil_iff, List.filter_eq_nil_iff]
  intro object _ hresolves
  rw [decide_eq_true_eq, hs] at hresolves
  exact hno _ (designates_of_systemOf keySystem loaded openingFailed systems hresolves)

variable (keySystem loaded openingFailed systems)

/-- For every sequence of libraries, every configuration, every run and every name: at the end of the run `Sessions`
gives the ids of the sessions alive exactly when these are the designators; and it does so throughout the run exactly
when there is no designator. -/
theorem sessions_listed_iff (calls : List Call) (name : Text) :
    (Listed (after (initializeAsync keySystem loaded openingFailed systems) calls) name ↔
      IdsDesignate keySystem loaded systems (after (initializeAsync keySystem loaded openingFailed systems) calls)
        name) ∧
    ((∀ done rest, calls = done ++ rest →
        Listed (after (initializeAsync keySystem loaded openingFailed systems) done) name) ↔
      ∀ designator, ¬ Designates keySystem loaded systems name designator) := by
  have hsame : ∀ calls, (after (initializeAsync keySystem loaded openingFailed systems) calls).parent =
      initializeAsync keySystem loaded openingFailed systems := fun calls => (run_keeps _ calls).same
  refine ⟨listed_iff (hsame calls) name, ?_⟩
  constructor
  · -- before the first call no session is alive
    intro h designator hdesignates
    have hstart := (listed_iff (hsame []) name).1 (h [] calls rfl)
    have hone := (hstart designator).1 hdesignates
    cases hone
  · intro hno done rest _
    refine (listed_iff (hsame done) name).2 fun text => ⟨fun h => absurd h (hno text), fun _ => ?_⟩
    rw [aliveIds_of_no_designator (hsame done) hno]
    rfl

end

/-! ## What goes wrong -/

/-- One system with one designator, and a session for it. -/
def oneSession : AccessorOCDM :=
  after (initializeAsync (fun _ => "a".toList) [1] false [entryOf "a" ["d"]])
    [.createSession "d".toList 0 (some ⟨7, "session".toList⟩)]

/-- The designator is listed, and not the session. -/
theorem oneSession_not_listed : ¬ Listed oneSession "a".toList := by
  intro h
  have hcount := List.perm_iff_count.1 h "session".toList
  revert hcount
  decide +kernel

end Sessions

end Ocdm.Server
