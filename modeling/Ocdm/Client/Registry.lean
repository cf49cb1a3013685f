/-
The accessor's registry of sessions (open_cdm.cpp, open_cdm_impl.cpp): constructing a session registers
it under the id the server gave unless that id is taken, and its destructor removes whatever stands
under that id. An entry always points to a live session with its id, but a session stays findable only
while no other session with its id is destroyed (`registry_sound`); and a failing hook takes the entry of
an older session with it (`construct_iff`).
-/
import Ocdm.Adapter.Subsamples
import Ocdm.Lib.Assoc
import Ocdm.Lib.Trace

namespace Ocdm.Client

open Adapter (OpenCDMError errorNone errorUnknown errorInvalidSession)
open Assoc (lookup insertNew remove)

def errorInvalidAccessor : OpenCDMError := 0x80000001
def errorMethodNotImplemented : OpenCDMError := 0x80000006

/-! ## Sessions and the registry -/

/-- An `OpenCDMSession` at its address: the id the server gave, whether it has a server session, and its
system. `registered` remembers whether `AddSession` entered it. -/
structure ClientSession where
  address : Nat
  sessionId : String
  valid : Bool
  system : Nat
  refCount : Nat
  registered : Bool
deriving DecidableEq, Repr

/-- The live sessions, the next address, and `_sessionKeys`. -/
structure Accessor where
  sessions : List ClientSession
  next : Nat
  sessionKeys : List (String × Nat)
deriving DecidableEq, Repr

def Accessor.start : Accessor := ⟨[], 0, []⟩

/-- `AddSession` on the registry. -/
def addSession (sessionKeys : List (String × Nat)) (sessionId : String) (session : Nat) : List (String × Nat) :=
  insertNew sessionId session sessionKeys

/-- `RemoveSession` on the registry. -/
def removeSession (sessionKeys : List (String × Nat)) (sessionId : String) : List (String × Nat) :=
  remove sessionId sessionKeys

/-- What `CreateSession` of the server side leaves: the id, and whether there is a session. -/
structure Created where
  sessionId : String
  returned : Bool
deriving DecidableEq, Repr

/-- The constructor of `OpenCDMSession`, which cannot fail. -/
def newSession (a : Accessor) (system : Nat) (created : Created) : Accessor where
  sessions := a.sessions ++ [⟨a.next, created.sessionId, created.returned, system, 1,
    created.returned && (lookup created.sessionId a.sessionKeys).isNone⟩]
  next := a.next + 1
  sessionKeys := if created.returned then addSession a.sessionKeys created.sessionId a.next else a.sessionKeys

/-- The destructor. -/
def destroySession (a : Accessor) (x : ClientSession) : Accessor :=
  { a with
    sessions := a.sessions.filter fun y => decide (y.address ≠ x.address)
    sessionKeys := removeSession a.sessionKeys x.sessionId }

def sessionAt (a : Accessor) (address : Nat) : Option ClientSession :=
  a.sessions.find? fun x => decide (x.address = address)

def withRefCount (a : Accessor) (address refCount : Nat) : Accessor :=
  { a with sessions := a.sessions.map fun x => if x.address = address then { x with refCount := refCount } else x }

/-- `AddRef` -/
def addRef (a : Accessor) (x : ClientSession) : Accessor := withRefCount a x.address (x.refCount + 1)

/-- `Release` -/
def release (a : Accessor) (x : ClientSession) : Accessor :=
  if x.refCount - 1 = 0 then destroySession a x else withRefCount a x.address (x.refCount - 1)

/-- `SessionPrivate::Construct`: the hook's result, or nothing when there is no hook. -/
def pvtConstruct : Option UInt32 → OpenCDMError
  | none => errorMethodNotImplemented
  | some hook => if hook = 0 then errorNone else errorUnknown

/-- What a call leaves: its result, the accessor, and the caller's pointer where there is one. -/
structure Opened where
  result : OpenCDMError
  accessor : Accessor
  session : Option (Option Nat)
deriving DecidableEq, Repr

/-- `OpenCDMSession::CreateSession`. `session` is what `*session` was, or nothing for a null `session`. -/
def createSession (a : Accessor) (system : Option Nat) (session : Option (Option Nat)) (created : Created)
    (hook : Option UInt32) : Opened :=
  match system, session with
  | some system, some _ =>
    let opened := newSession a system created
    let pvtResult := pvtConstruct hook
    if pvtResult ≠ errorNone ∧ pvtResult ≠ errorMethodNotImplemented then
      ⟨errorInvalidSession, ((sessionAt opened a.next).map (release opened)).getD opened, some none⟩
    else
      ⟨errorNone, opened, some (some a.next)⟩
  | _, _ => ⟨errorInvalidAccessor, a, session⟩

/-- `opencdm_construct_session` -/
def constructSession (a : Accessor) (system : Option Nat) (session : Option (Option Nat)) (created : Created)
    (hook : Option UInt32) : Opened :=
  if system.isSome ∧ session.isSome then
    createSession a system session created hook
  else
    ⟨errorInvalidSession, a, session⟩

/-! ## Sequences of constructions and destructions -/

inductive RegistryAction where
  | construct (system : Nat) (created : Created)
  | session (sessionId : String)
  | addRef (address : Nat)
  | release (address : Nat)
deriving DecidableEq, Repr

/-- One call. References are added to and released from live sessions only. -/
def registryStep (a : Accessor) : RegistryAction → Option Accessor
  | .construct system created => some (newSession a system created)
  | .session sessionId =>
    match (lookup sessionId a.sessionKeys).bind (sessionAt a) with
    | some x => some (addRef a x)
    | none => some a
  | .addRef address => (sessionAt a address).map (addRef a)
  | .release address => (sessionAt a address).map (release a)

/-- Each entry points to a live session with its id. -/
def EntriesLive (a : Accessor) : Prop :=
  ∀ e ∈ a.sessionKeys, ∃ x ∈ a.sessions, x.address = e.2 ∧ x.sessionId = e.1

/-- Each live session that was registered is found under its id. -/
def Findable (a : Accessor) : Prop :=
  ∀ x ∈ a.sessions, x.registered = true → lookup x.sessionId a.sessionKeys = some x.address

instance (a : Accessor) : Decidable (Findable a) :=
  inferInstanceAs (Decidable (∀ x ∈ a.sessions, x.registered = true →
    lookup x.sessionId a.sessionKeys = some x.address))

/-- The last reference to a session is released only when no other live session registered has its id. -/
def ReleaseOK (a : Accessor) : RegistryAction → Prop
  | .release address => ∀ x, sessionAt a address = some x → x.refCount - 1 = 0 →
      ∀ y ∈ a.sessions, y.address ≠ x.address → y.registered = true → y.sessionId ≠ x.sessionId
  | _ => True

/-! ## The invariant -/

structure RegistryInv (a : Accessor) : Prop where
  fresh : ∀ x ∈ a.sessions, x.address < a.next
  distinct : ∀ x ∈ a.sessions, ∀ y ∈ a.sessions, x.address = y.address → x = y
  live : EntriesLive a

theorem sessionAt_some {a : Accessor} {address : Nat} {x : ClientSession} (h : sessionAt a address = some x) :
    x ∈ a.sessions ∧ x.address = address := by
  unfold sessionAt at h
  have hat := List.find?_some h
  exact ⟨List.mem_of_find?_eq_some h, of_decide_eq_true hat⟩

theorem mem_withRefCount {a : Accessor} {address refCount : Nat} {y : ClientSession} :
    y ∈ (withRefCount a address refCount).sessions ↔
      ∃ x ∈ a.sessions, y = if x.address = address then { x with refCount := refCount } else x := by
  unfold withRefCount
  rw [List.mem_map]
  exact ⟨fun ⟨x, hx, h⟩ => ⟨x, hx, h.symm⟩, fun ⟨x, hx, h⟩ => ⟨x, hx, h.symm⟩⟩

/-- A new count changes nothing else about a session. -/
theorem withRefCount_same {x y : ClientSession} {address refCount : Nat}
    (h : y = if x.address = address then { x with refCount := refCount } else x) :
    y.address = x.address ∧ y.sessionId = x.sessionId ∧ y.registered = x.registered := by
  rw [h]
  split <;> exact ⟨rfl, rfl, rfl⟩

theorem RegistryInv.start : RegistryInv .start :=
  ⟨fun x hx => (by cases hx), fun x hx => (by cases hx), fun e he => (by cases he)⟩

theorem RegistryInv.withRefCount {a : Accessor} (h : RegistryInv a) (address refCount : Nat) :
    RegistryInv (withRefCount a address refCount) := by
  refine ⟨fun y hy => ?_, fun y hy z hz hyz => ?_, fun e he => ?_⟩
  · obtain ⟨x, hx, hyx⟩ := mem_withRefCount.1 hy
    rw [(withRefCount_same hyx).1]
    exact h.fresh x hx
  · obtain ⟨x, hx, hyx⟩ := mem_withRefCount.1 hy
    obtain ⟨w, hw, hzw⟩ := mem_withRefCount.1 hz
    rw [(withRefCount_same hyx).1, (withRefCount_same hzw).1] at hyz
    rw [hyx, hzw, h.distinct x hx w hw hyz]
  · obtain ⟨x, hx, hxa, hxi⟩ := h.live e he
    refine ⟨_, mem_withRefCount.2 ⟨x, hx, rfl⟩, ?_⟩
    obtain ⟨ha, hi, -⟩ := @withRefCount_same x _ address refCount rfl
    rw [ha, hi]
    exact ⟨hxa, hxi⟩

theorem RegistryInv.newSession {a : Accessor} (h : RegistryInv a) (system : Nat) (created : Created) :
    RegistryInv (newSession a system created) := by
  unfold Client.newSession
  refine ⟨fun x hx => ?_, fun x hx y hy hxy => ?_, fun e he => ?_⟩
  · rcases List.mem_append.1 hx with hx | hx
    · exact Nat.lt_succ_of_lt (h.fresh x hx)
    · rw [List.mem_singleton.1 hx]
      exact Nat.lt_succ_self _
  · rcases List.mem_append.1 hx with hx | hx <;> rcases List.mem_append.1 hy with hy | hy
    · exact h.distinct x hx y hy hxy
    · rw [List.mem_singleton.1 hy] at hxy
      exact absurd hxy (Nat.ne_of_lt (h.fresh x hx))
    · rw [List.mem_singleton.1 hx] at hxy
      exact absurd hxy.symm (Nat.ne_of_lt (h.fresh y hy))
    · rw [List.mem_singleton.1 hx, List.mem_singleton.1 hy]
  · dsimp only at he
    have hold : e ∈ a.sessionKeys → ∃ x ∈ a.sessions ++ [(⟨a.next, created.sessionId, created.returned, system, 1,
        created.returned && (lookup created.sessionId a.sessionKeys).isNone⟩ : ClientSession)],
        x.address = e.2 ∧ x.sessionId = e.1 := by
      intro he
      obtain ⟨x, hx, hxe⟩ := h.live e he
      exact ⟨x, List.mem_append_left _ hx, hxe⟩
    split at he
    · rcases Assoc.mem_insertNew he with he | rfl
      · exact hold he
      · exact ⟨_, List.mem_append_right _ (List.mem_singleton_self _), rfl, rfl⟩
    · exact hold he

theorem RegistryInv.destroySession {a : Accessor} (h : RegistryInv a) {x : ClientSession} (hx : x ∈ a.sessions) :
    RegistryInv (destroySession a x) := by
  unfold Client.destroySession
  refine ⟨fun y hy => h.fresh y (List.mem_filter.1 hy).1,
    fun y hy z hz => h.distinct y (List.mem_filter.1 hy).1 z (List.mem_filter.1 hz).1, fun e he => ?_⟩
  obtain ⟨he, hne⟩ := Assoc.mem_remove.1 he
  obtain ⟨y, hy, hya, hyi⟩ := h.live e he
  refine ⟨y, List.mem_filter.2 ⟨hy, decide_eq_true fun heq => ?_⟩, hya, hyi⟩
  -- the entry of the session itself is the one removed
  rw [h.distinct y hy x hx heq] at hyi
  exact hne hyi.symm

theorem RegistryInv.release {a : Accessor} (h : RegistryInv a) {x : ClientSession} (hx : x ∈ a.sessions) :
    RegistryInv (release a x) := by
  unfold Client.release
  split
  · exact h.destroySession hx
  · exact h.withRefCount _ _

theorem RegistryInv.step {a a' : Accessor} {action : RegistryAction} (h : RegistryInv a)
    (hstep : registryStep a action = some a') : RegistryInv a' := by
  cases action with
  | construct system created =>
    cases hstep
    exact h.newSession system created
  | session sessionId =>
    rw [registryStep] at hstep
    split at hstep
    · cases hstep
      exact h.withRefCount _ _
    · cases hstep
      exact h
  | addRef address =>
    obtain ⟨x, -, rfl⟩ := Option.map_eq_some_iff.1 hstep
    exact h.withRefCount _ _
  | release address =>
    obtain ⟨x, hx, rfl⟩ := Option.map_eq_some_iff.1 hstep
    exact h.release (sessionAt_some hx).1

theorem RegistryInv.run {actions : List RegistryAction} {a : Accessor}
    (h : Trace.Run registryStep (fun _ _ => True) .start actions a) : RegistryInv a :=
  h.invariant RegistryInv (fun _ _ _ hs _ hstep => hs.step hstep) .start

/-! ## Who stays findable -/

theorem Findable.withRefCount {a : Accessor} (h : Findable a) (address refCount : Nat) :
    Findable (withRefCount a address refCount) := by
  intro y hy hreg
  obtain ⟨x, hx, hyx⟩ := mem_withRefCount.1 hy
  obtain ⟨haddress, hid, hregistered⟩ := withRefCount_same hyx
  rw [haddress, hid]
  exact h x hx (by rw [← hregistered, hreg])

theorem Findable.newSession {a : Accessor} (h : Findable a) (system : Nat) (created : Created) :
    Findable (newSession a system created) := by
  unfold Client.newSession
  intro x hx hreg
  dsimp only
  rcases List.mem_append.1 hx with hx | hx
  · have hfound := h x hx hreg
    split
    · rw [addSession, Assoc.lookup_insertNew, hfound]
      rfl
    · exact hfound
  · rw [List.mem_singleton.1 hx] at hreg ⊢
    obtain ⟨hreturned, hnone⟩ := Bool.and_eq_true_iff.1 hreg
    dsimp only at hreturned hnone ⊢
    rw [if_pos hreturned, addSession, Assoc.lookup_insertNew, Option.isNone_iff_eq_none.1 hnone, if_pos rfl]
    rfl

/-- Destroying a session keeps the others findable exactly when none of them is registered under its id. -/
theorem findable_destroy {a : Accessor} (h : Findable a) (x : ClientSession) :
    Findable (destroySession a x) ↔
      ∀ y ∈ a.sessions, y.address ≠ x.address → y.registered = true → y.sessionId ≠ x.sessionId := by
  unfold destroySession Findable removeSession
  simp only [List.mem_filter, decide_eq_true_eq, and_imp, Assoc.lookup_remove]
  refine forall₃_congr fun y hy _ => forall_congr' fun hreg => ⟨fun hfound hid => ?_, fun hid => ?_⟩
  · -- the destructor took the entry of `y`, whose id is the same
    rw [if_pos hid] at hfound
    cases hfound
  · rw [if_neg hid]
    exact h y hy hreg

theorem findable_step {a a' : Accessor} {action : RegistryAction} (h : Findable a)
    (hstep : registryStep a action = some a') : Findable a' ↔ ReleaseOK a action := by
  cases action with
  | construct system created =>
    cases hstep
    exact iff_of_true (h.newSession system created) trivial
  | session sessionId =>
    rw [registryStep] at hstep
    split at hstep
    · cases hstep
      exact iff_of_true (h.withRefCount _ _) trivial
    · cases hstep
      exact iff_of_true h trivial
  | addRef address =>
    obtain ⟨x, -, rfl⟩ := Option.map_eq_some_iff.1 hstep
    exact iff_of_true (h.withRefCount _ _) trivial
  | release address =>
    obtain ⟨x, hx, rfl⟩ := Option.map_eq_some_iff.1 hstep
    unfold ReleaseOK release
    by_cases hlast : x.refCount - 1 = 0
    · rw [if_pos hlast, findable_destroy h]
      constructor
      · intro hall x' hx' _
        rw [hx] at hx'
        cases hx'
        exact hall
      · exact fun hall => hall x hx hlast
    · rw [if_neg hlast]
      refine iff_of_true (h.withRefCount _ _) fun x' hx' hlast' => ?_
      rw [hx] at hx'
      cases hx'
      exact absurd hlast' hlast

/-- In every run every entry points to a live session with its id; and every registered session stays findable
throughout exactly when each last release meets the condition. -/
theorem registry_sound (actions : List RegistryAction) (a : Accessor)
    (h : Trace.Run registryStep (fun _ _ => True) .start actions a) :
    EntriesLive a ∧
    (Trace.Run registryStep (fun s action => ∀ s', registryStep s action = some s' → Findable s') .start actions a ↔
      Trace.Run registryStep ReleaseOK .start actions a) := by
  have hstart : Findable .start := fun x hx => by cases hx
  refine ⟨?_, fun hall => ?_, fun hok => ?_⟩
  · exact (RegistryInv.run h).live
  · refine hall.strengthen Findable (fun s action s' hs hok hstep => ?_) hstart
    exact ⟨(findable_step hs hstep).1 (hok s' hstep), hok s' hstep⟩
  · refine hok.strengthen Findable (fun s action s' hs hok hstep => ?_) hstart
    refine ⟨fun s'' hstep' => ?_, (findable_step hs hstep).2 hok⟩
    rw [hstep] at hstep'
    cases hstep'
    exact (findable_step hs hstep).2 hok

theorem registry_sound_two :
    EntriesLive ⟨[⟨1, "b", true, 0, 1, true⟩], 2, [("b", 1)]⟩ ∧
    (Trace.Run registryStep (fun s action => ∀ s', registryStep s action = some s' → Findable s') .start
        [.construct 0 ⟨"a", true⟩, .construct 0 ⟨"b", true⟩, .release 0] ⟨[⟨1, "b", true, 0, 1, true⟩], 2, [("b", 1)]⟩ ↔
      Trace.Run registryStep ReleaseOK .start
        [.construct 0 ⟨"a", true⟩, .construct 0 ⟨"b", true⟩, .release 0]
          ⟨[⟨1, "b", true, 0, 1, true⟩], 2, [("b", 1)]⟩) :=
  registry_sound _ _ (Trace.exec_run (by decide +kernel))

/-- Two sessions under the empty id: destroying the second takes the entry of the first. -/
theorem repeated_id_removed :
    ∃ actions a, Trace.Run registryStep (fun _ _ => True) .start actions a ∧ ¬ Findable a := by
  refine ⟨[.construct 0 ⟨"", true⟩, .construct 0 ⟨"", true⟩, .release 1], ⟨[⟨0, "", true, 0, 1, true⟩], 2, []⟩, ?_, ?_⟩
  · exact Trace.exec_run (by decide +kernel)
  · decide +kernel

/-! ## A failing construction -/

/-- Success with a session of the server, or the pointer null and the registry as it was. -/
def ConstructOK (a : Accessor) (opened : Opened) : Prop :=
  (opened.result = errorNone →
    ∃ p x, opened.session = some (some p) ∧ sessionAt opened.accessor p = some x ∧ x.valid = true) ∧
  (opened.result ≠ errorNone →
    (∀ p, opened.session = some p → p = none) ∧ opened.accessor.sessionKeys = a.sessionKeys)

/-- Without a hook that fails the server must have returned a session; with one no session may stand under the
id it gave. -/
def ConstructFits (a : Accessor) (system : Option Nat) (session : Option (Option Nat)) (created : Created)
    (hook : Option UInt32) : Prop :=
  ∀ p, session = some p →
    if system.isNone then p = none
    else if ∃ r, hook = some r ∧ r ≠ 0 then lookup created.sessionId a.sessionKeys = none
    else created.returned = true

theorem sessionAt_newSession {a : Accessor} (h : RegistryInv a) (system : Nat) (created : Created) :
    sessionAt (newSession a system created) a.next = some ⟨a.next, created.sessionId, created.returned, system, 1,
      created.returned && (lookup created.sessionId a.sessionKeys).isNone⟩ := by
  have hold : a.sessions.find? (fun x => decide (x.address = a.next)) = none := by
    rw [List.find?_eq_none]
    intro x hx heq
    exact Nat.ne_of_lt (h.fresh x hx) (of_decide_eq_true heq)
  unfold sessionAt newSession
  rw [List.find?_append, hold, List.find?_singleton, decide_eq_true rfl]
  rfl

theorem pvtConstruct_failed (hook : Option UInt32) :
    (pvtConstruct hook ≠ errorNone ∧ pvtConstruct hook ≠ errorMethodNotImplemented) ↔ ∃ r, hook = some r ∧ r ≠ 0 := by
  cases hook with
  | none => simp [pvtConstruct]
  | some r =>
    by_cases hr : r = 0
    · simp [pvtConstruct, hr]
    · simp [pvtConstruct, hr, errorNone, errorUnknown, errorMethodNotImplemented]

/-- Removing what stands under the id of a new session leaves the registry as it was exactly when nothing stood
there before. -/
theorem removeSession_newSession (a : Accessor) (system : Nat) (created : Created) :
    removeSession (newSession a system created).sessionKeys created.sessionId = a.sessionKeys ↔
      lookup created.sessionId a.sessionKeys = none := by
  unfold newSession removeSession addSession
  dsimp only
  cases hfound : lookup created.sessionId a.sessionKeys with
  | none =>
    refine iff_of_true ?_ rfl
    split
    · exact Assoc.remove_insertNew hfound _
    · exact Assoc.remove_of_none hfound
  | some other =>
    have hsame : insertNew created.sessionId a.next a.sessionKeys = a.sessionKeys := by
      rw [insertNew, hfound, Option.isSome_some, if_pos rfl]
    rw [hsame, ite_self]
    exact iff_of_false (Assoc.remove_ne hfound) (by simp)

/-- In every accessor reached, constructing a session meets its contract exactly under the condition. -/
theorem construct_iff (actions : List RegistryAction) (a : Accessor)
    (h : Trace.Run registryStep (fun _ _ => True) .start actions a) (system : Option Nat)
    (session : Option (Option Nat)) (created : Created) (hook : Option UInt32) :
    ConstructOK a (constructSession a system session created hook) ↔ ConstructFits a system session created hook := by
  have hinv := RegistryInv.run h
  have hinvalid : errorInvalidSession ≠ errorNone := by decide
  unfold ConstructOK ConstructFits constructSession
  cases session with
  | none =>
    rw [if_neg (by simp)]
    exact iff_of_true ⟨fun hnone => absurd hnone hinvalid, fun _ => ⟨fun p hp => (by cases hp), rfl⟩⟩
      fun p hp => by cases hp
  | some pointer =>
    cases system with
    | none =>
      rw [if_neg (by simp)]
      constructor
      · rintro ⟨-, hnull⟩ p hp
        exact (hnull hinvalid).1 p hp
      · intro hnull
        exact ⟨fun hnone => absurd hnone hinvalid, fun _ => ⟨hnull, rfl⟩⟩
    | some system =>
      rw [if_pos ⟨rfl, rfl⟩]
      unfold createSession
      dsimp only
      rw [sessionAt_newSession hinv]
      by_cases hfailed : ∃ r, hook = some r ∧ r ≠ 0
      · -- a failing hook: the new session is destroyed, and whatever stands under its id goes with it
        rw [if_pos ((pvtConstruct_failed hook).2 hfailed)]
        simp only [Option.isNone_some, Bool.false_eq_true, if_false, if_pos hfailed]
        have hkeys := removeSession_newSession a system created
        constructor
        · rintro ⟨-, hsame⟩ p -
          exact hkeys.1 (hsame hinvalid).2
        · intro hfree
          exact ⟨fun hnone => absurd hnone hinvalid,
            fun _ => ⟨fun p hp => (Option.some.inj hp).symm, hkeys.2 (hfree pointer rfl)⟩⟩
      · -- success, whether the server returned a session or not
        rw [if_neg (mt (pvtConstruct_failed hook).1 hfailed)]
        simp only [Option.isNone_some, Bool.false_eq_true, if_false, if_neg hfailed]
        constructor
        · rintro ⟨hvalid, -⟩ p -
          obtain ⟨p, x, hp, hx, hvalid⟩ := hvalid trivial
          cases hp
          rw [sessionAt_newSession hinv] at hx
          cases hx
          exact hvalid
        · intro hreturned
          exact ⟨fun _ => ⟨_, _, rfl, sessionAt_newSession hinv system created, hreturned pointer rfl⟩,
            fun hne => absurd rfl hne⟩

/-- An accessor with a session. -/
def oneSession : Accessor := ⟨[⟨0, "a", true, 0, 1, true⟩], 1, [("a", 0)]⟩

/-- A hook that fails leaves the entry of the older session, unless the new one has its id. -/
theorem construct_iff_new :
    ConstructOK oneSession (constructSession oneSession (some 0) (some none) ⟨"b", true⟩ (some 1)) ∧
    ¬ ConstructOK oneSession (constructSession oneSession (some 0) (some none) ⟨"a", true⟩ (some 1)) := by
  have hrun : Trace.Run registryStep (fun _ _ => True) .start [.construct 0 ⟨"a", true⟩] oneSession :=
    Trace.exec_run (by decide +kernel)
  have hfails : ∃ r : UInt32, some 1 = some r ∧ r ≠ 0 := ⟨1, rfl, by decide⟩
  constructor
  · refine (construct_iff _ _ hrun (some 0) (some none) ⟨"b", true⟩ (some 1)).2 fun p _ => ?_
    rw [if_neg (by decide), if_pos hfails]
    decide
  · intro h
    have hfits := (construct_iff _ _ hrun (some 0) (some none) ⟨"a", true⟩ (some 1)).1 h none rfl
    rw [if_neg (by decide), if_pos hfails] at hfits
    exact absurd hfits (by decide)

/-- Without a session from the server and without a hook the result is still success. -/
theorem construct_without_session :
    (constructSession .start (some 0) (some none) ⟨"", false⟩ none).result = errorNone ∧
    ¬ ConstructOK .start (constructSession .start (some 0) (some none) ⟨"", false⟩ none) := by
  refine ⟨rfl, fun ⟨hvalid, _⟩ => ?_⟩
  obtain ⟨p, x, hp, hx, hvalid⟩ := hvalid rfl
  cases hp
  cases hx
  cases hvalid

end Ocdm.Client
