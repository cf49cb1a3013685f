/-
References to the registered sessions (open_cdm.cpp, open_cdm_impl.h, open_cdm_impl.cpp).
`opencdm_get_system_session` finds a session under `_adminLock`, gives the lock up, and looks its id up again
without it to take a reference; `Release` runs the destructor once the count is zero, and only that takes the
session out of `_sessionKeys`. So a lookup in between returns a session that is being destroyed, and no
session whose count has been zero is returned exactly when no lookup falls there (`safe_iff`).
-/
import Ocdm.Client.Registry
import Mathlib.Logic.Function.Basic

namespace Ocdm.Client

open Assoc (lookup)

/-! ## Sessions and threads -/

/-- A session: its id, `_refCount`, and whether that count has ever been zero. -/
structure RefSession where
  sessionId : String
  refCount : UInt32
  zeroed : Bool
deriving DecidableEq, Repr

/-- A new count, as `InterlockedIncrement` and `InterlockedDecrement` leave it. -/
def RefSession.count (x : RefSession) (refCount : UInt32) : RefSession :=
  { x with refCount := refCount, zeroed := x.zeroed || decide (refCount = 0) }

/-- Where a thread is: outside, with the id `WaitForKey` found, or in a session's destructor before `RemoveSession`. -/
inductive RefStage where
  | idle
  | found (sessionId : String)
  | destroying (session : Nat)
deriving DecidableEq, Repr

/-- The sessions by their addresses, `_sessionKeys`, the threads, and what `Session` returned: each with
whether its count had been zero by then. -/
structure References (T : Type) where
  sessions : List RefSession
  sessionKeys : List (String × Nat)
  stage : T → RefStage
  returned : List (Nat × Bool)

/-- The atomic steps. `usable` says which sessions have the key with the status, and belong to the system, at
the scan. -/
inductive RefAction (T : Type) where
  | construct (sessionId : String)
  | waitForKey (t : T) (usable : Nat → Bool)
  | session (t : T)
  | release (t : T) (session : Nat)
  | removeSession (t : T)

section

variable {T : Type} [DecidableEq T]

def References.start : References T := ⟨[], [], fun _ => .idle, []⟩

def References.goTo (s : References T) (t : T) (stage : RefStage) : References T :=
  { s with stage := Function.update s.stage t stage }

def References.setCount (s : References T) (session : Nat) (x : RefSession) (refCount : UInt32) : References T :=
  { s with sessions := s.sessions.set session (x.count refCount) }

/-- One step. -/
def refStep (s : References T) : RefAction T → Option (References T)
  | .construct sessionId =>
    some { s with
      sessions := s.sessions ++ [⟨sessionId, 1, false⟩]
      sessionKeys := addSession s.sessionKeys sessionId s.sessions.length }
  | .waitForKey t usable =>
    match s.stage t with
    | .idle =>
      match s.sessionKeys.find? fun e => usable e.2 with
      | some e => some (s.goTo t (.found e.1))
      | none => some s
    | _ => none
  | .session t =>
    match s.stage t with
    | .found sessionId =>
      match lookup sessionId s.sessionKeys with
      | some session =>
        (s.sessions[session]?).map fun x =>
          { (s.setCount session x (x.refCount + 1)).goTo t .idle with
            returned := s.returned ++ [(session, (x.count (x.refCount + 1)).zeroed)] }
      | none => some (s.goTo t .idle)
    | _ => none
  | .release t session =>
    match s.stage t, s.sessions[session]? with
    | .idle, some x =>
      -- who releases holds a reference
      if x.refCount = 0 then none
      else some ((s.setCount session x (x.refCount - 1)).goTo t
        (if x.refCount - 1 = 0 then .destroying session else .idle))
    | _, _ => none
  | .removeSession t =>
    match s.stage t with
    | .destroying session =>
      (s.sessions[session]?).map fun x =>
        { s.goTo t .idle with sessionKeys := removeSession s.sessionKeys x.sessionId }
    | _ => none

theorem References.goTo_self (s : References T) (t : T) (stage : RefStage) : (s.goTo t stage).stage t = stage :=
  Function.update_self ..

theorem References.goTo_ne (s : References T) {t u : T} (stage : RefStage) (h : u ≠ t) :
    (s.goTo t stage).stage u = s.stage u := Function.update_of_ne h ..

/-! ## What is to hold, and when it does -/

/-- No session whose count has been zero was returned, and none of them has a count again. -/
def RefSafe (s : References T) : Prop :=
  (∀ r ∈ s.returned, r.2 = false) ∧ ∀ x ∈ s.sessions, x.zeroed = true → x.refCount = 0

/-- At the lookup, the session registered under the id that was found is not being destroyed, and its count is not the
largest one. -/
def LookupOK (s : References T) : RefAction T → Prop
  | .session t => ∀ sessionId session x, s.stage t = .found sessionId → lookup sessionId s.sessionKeys = some session →
      s.sessions[session]? = some x → (∀ u, s.stage u ≠ .destroying session) ∧ x.refCount + 1 ≠ 0
  | _ => True

/-! ## The invariant -/

/-- A registered session whose count has been zero is being destroyed. -/
structure RefInv (s : References T) : Prop where
  safe : RefSafe s
  entries : ∀ e ∈ s.sessionKeys, ∃ x, s.sessions[e.2]? = some x ∧ x.sessionId = e.1 ∧
    (x.zeroed = true → ∃ u, s.stage u = .destroying e.2)
  zeroed : ∀ u session, s.stage u = .destroying session → ∃ x, s.sessions[session]? = some x ∧ x.zeroed = true

omit [DecidableEq T] in
theorem RefInv.start : RefInv (References.start : References T) :=
  ⟨⟨fun r hr => (by cases hr), fun x hx => (by cases hx)⟩, fun e he => (by cases he), fun u session hu => (by cases hu)⟩

omit [DecidableEq T] in
theorem RefInv.construct {s : References T} (h : RefInv s) (sessionId : String) :
    RefInv { s with
      sessions := s.sessions ++ [⟨sessionId, 1, false⟩]
      sessionKeys := addSession s.sessionKeys sessionId s.sessions.length } := by
  have hold : ∀ {i : Nat} {x : RefSession}, s.sessions[i]? = some x →
      (s.sessions ++ [⟨sessionId, 1, false⟩])[i]? = some x := fun hx => by
    rw [List.getElem?_append_left (List.getElem?_eq_some_iff.1 hx).1]
    exact hx
  refine ⟨⟨h.safe.1, fun x hx hzeroed => ?_⟩, fun e he => ?_, fun u session hu => ?_⟩
  · rcases List.mem_append.1 hx with hx | hx
    · exact h.safe.2 x hx hzeroed
    · rw [List.mem_singleton.1 hx] at hzeroed
      cases hzeroed
  · rcases Assoc.mem_insertNew he with he | rfl
    · obtain ⟨x, hx, hid, hdestroying⟩ := h.entries e he
      exact ⟨x, hold hx, hid, hdestroying⟩
    · exact ⟨⟨sessionId, 1, false⟩, List.getElem?_concat_length, rfl, nofun⟩
  · obtain ⟨x, hx, hzeroed⟩ := h.zeroed u session hu
    exact ⟨x, hold hx, hzeroed⟩

/-- A thread that is in no destructor goes somewhere that is none. -/
theorem RefInv.goTo {s : References T} (h : RefInv s) {t : T} (ht : ∀ session, s.stage t ≠ .destroying session)
    {stage : RefStage} (hstage : ∀ session, stage ≠ .destroying session) : RefInv (s.goTo t stage) := by
  have hsame : ∀ u session, (s.goTo t stage).stage u = .destroying session ↔ s.stage u = .destroying session := by
    intro u session
    by_cases hut : u = t
    · subst hut
      rw [References.goTo_self]
      exact iff_of_false (hstage session) (ht session)
    · rw [References.goTo_ne s stage hut]
  refine ⟨h.safe, fun e he => ?_, fun u session hu => h.zeroed u session ((hsame u session).1 hu)⟩
  obtain ⟨x, hx, hid, hdestroying⟩ := h.entries e he
  refine ⟨x, hx, hid, fun hzeroed => ?_⟩
  obtain ⟨u, hu⟩ := hdestroying hzeroed
  exact ⟨u, (hsame u e.2).2 hu⟩

omit [DecidableEq T] in
/-- A session other than zero gets another count other than zero. -/
theorem RefInv.setCount {s : References T} (h : RefInv s) {session : Nat} {x : RefSession} {refCount : UInt32}
    (hx : s.sessions[session]? = some x) (hlive : x.zeroed = false) (hcount : refCount ≠ 0) :
    RefInv (s.setCount session x refCount) := by
  have hlength : session < s.sessions.length := (List.getElem?_eq_some_iff.1 hx).1
  have hlive' : (x.count refCount).zeroed = false := by simp [RefSession.count, hlive, hcount]
  have hat : ∀ i, (s.setCount session x refCount).sessions[i]? =
      if session = i then some (x.count refCount) else s.sessions[i]? := fun i => by
    rw [References.setCount, List.getElem?_set, if_pos hlength]
  refine ⟨⟨h.safe.1, fun y hy hzeroed => ?_⟩, fun e he => ?_, fun u i hu => ?_⟩
  · rcases List.mem_or_eq_of_mem_set hy with hy | rfl
    · exact h.safe.2 y hy hzeroed
    · rw [hlive'] at hzeroed
      cases hzeroed
  · obtain ⟨y, hy, hid, hdestroying⟩ := h.entries e he
    rw [hat]
    split
    · rename_i heq
      rw [← heq, hx] at hy
      cases hy
      exact ⟨_, rfl, hid, fun hzeroed => by rw [hlive'] at hzeroed; cases hzeroed⟩
    · exact ⟨y, hy, hid, hdestroying⟩
  · obtain ⟨y, hy, hzeroed⟩ := h.zeroed u i hu
    refine ⟨y, ?_, hzeroed⟩
    rw [hat, if_neg]
    · exact hy
    · rintro rfl
      rw [hx] at hy
      cases hy
      rw [hlive] at hzeroed
      cases hzeroed

/-- The last reference is released, and the thread goes into the destructor. -/
theorem RefInv.last {s : References T} (h : RefInv s) {session : Nat} {x : RefSession}
    (hx : s.sessions[session]? = some x) {t : T} (ht : ∀ session, s.stage t ≠ .destroying session) :
    RefInv ((s.setCount session x 0).goTo t (.destroying session)) := by
  have hlength : session < s.sessions.length := (List.getElem?_eq_some_iff.1 hx).1
  have hat : ∀ i, (s.sessions.set session (x.count 0))[i]? = if session = i then some (x.count 0) else s.sessions[i]? :=
    fun i => by rw [List.getElem?_set, if_pos hlength]
  have hzero : (x.count 0).zeroed = true := by simp [RefSession.count]
  have hself := (s.setCount session x 0).goTo_self t (.destroying session)
  have hother : ∀ {u i}, s.stage u = .destroying i →
      ((s.setCount session x 0).goTo t (.destroying session)).stage u = .destroying i := by
    intro u i hu
    rw [References.goTo_ne]
    · exact hu
    · rintro rfl
      exact ht i hu
  refine ⟨⟨h.safe.1, fun y hy hzeroed => ?_⟩, fun e he => ?_, fun u i hu => ?_⟩
  · rcases List.mem_or_eq_of_mem_set hy with hy | rfl
    · exact h.safe.2 y hy hzeroed
    · rfl
  · obtain ⟨y, hy, hid, hdestroying⟩ := h.entries e he
    show ∃ y, (s.sessions.set session (x.count 0))[e.2]? = some y ∧ y.sessionId = e.1 ∧ _
    rw [hat]
    split
    · rename_i heq
      rw [← heq, hx] at hy
      cases hy
      exact ⟨_, rfl, hid, fun _ => ⟨t, by rw [hself, heq]⟩⟩
    · refine ⟨y, hy, hid, fun hzeroed => ?_⟩
      obtain ⟨u, hu⟩ := hdestroying hzeroed
      exact ⟨u, hother hu⟩
  · show ∃ y, (s.sessions.set session (x.count 0))[i]? = some y ∧ y.zeroed = true
    rw [hat]
    by_cases hut : u = t
    · subst hut
      cases hself.symm.trans hu
      exact ⟨_, if_pos rfl, hzero⟩
    · rw [References.goTo_ne _ _ hut] at hu
      obtain ⟨y, hy, hzeroed⟩ := h.zeroed u i hu
      split
      · exact ⟨_, rfl, hzero⟩
      · exact ⟨y, hy, hzeroed⟩

/-- The destructor takes out what stands under the session's id. -/
theorem RefInv.removeSession {s : References T} (h : RefInv s) {t : T} {session : Nat} {x : RefSession}
    (ht : s.stage t = .destroying session) (hx : s.sessions[session]? = some x) :
    RefInv { s.goTo t .idle with sessionKeys := removeSession s.sessionKeys x.sessionId } := by
  refine ⟨h.safe, fun e he => ?_, fun u i hu => ?_⟩
  · obtain ⟨he, hne⟩ := Assoc.mem_remove.1 he
    obtain ⟨y, hy, hid, hdestroying⟩ := h.entries e he
    refine ⟨y, hy, hid, fun hzeroed => ?_⟩
    obtain ⟨u, hu⟩ := hdestroying hzeroed
    refine ⟨u, (s.goTo_ne .idle ?_).trans hu⟩
    -- this thread destroys the session of the entry taken out
    rintro rfl
    rw [ht] at hu
    cases hu
    rw [hx] at hy
    cases hy
    exact hne hid.symm
  · by_cases hut : u = t
    · subst hut
      cases (s.goTo_self u .idle).symm.trans hu
    · exact h.zeroed u i ((s.goTo_ne .idle hut).symm.trans hu)

/-- `session` returns the session registered under the id it found, with one reference more. -/
theorem RefInv.session {s : References T} (h : RefInv s) {t : T} {sessionId : String} {session : Nat} {x : RefSession}
    (ht : s.stage t = .found sessionId) (hlookup : lookup sessionId s.sessionKeys = some session)
    (hx : s.sessions[session]? = some x) (hnobody : ∀ u, s.stage u ≠ .destroying session)
    (hcount : x.refCount + 1 ≠ 0) :
    RefInv { (s.setCount session x (x.refCount + 1)).goTo t .idle with
      returned := s.returned ++ [(session, (x.count (x.refCount + 1)).zeroed)] } := by
  have hlive : x.zeroed = false := by
    obtain ⟨y, hy, -, hdestroying⟩ := h.entries _ (Assoc.lookup_mem hlookup)
    rw [hx] at hy
    cases hy
    refine Bool.eq_false_iff.2 fun hzeroed => ?_
    obtain ⟨u, hu⟩ := hdestroying hzeroed
    exact hnobody u hu
  have hgone : RefInv ((s.setCount session x (x.refCount + 1)).goTo t .idle) :=
    (h.setCount hx hlive hcount).goTo (fun session hd => by cases ht.symm.trans hd) fun session hd => by cases hd
  refine ⟨⟨fun r hr => ?_, hgone.safe.2⟩, hgone.entries, hgone.zeroed⟩
  rcases List.mem_append.1 hr with hr | hr
  · exact h.safe.1 r hr
  · rw [List.mem_singleton.1 hr]
    simp [RefSession.count, hlive, hcount]

/-- `release` gives one reference back; who gives the last one back destroys the session. -/
theorem RefInv.release {s : References T} (h : RefInv s) {t : T} {session : Nat} {x : RefSession}
    (ht : s.stage t = .idle) (hx : s.sessions[session]? = some x) (hcount : x.refCount ≠ 0) :
    RefInv ((s.setCount session x (x.refCount - 1)).goTo t
      (if x.refCount - 1 = 0 then .destroying session else .idle)) := by
  have hnot : ∀ session, s.stage t ≠ .destroying session := fun session hd => by
    cases ht.symm.trans hd
  by_cases hlast : x.refCount - 1 = 0
  · rw [if_pos hlast, hlast]
    exact h.last hx hnot
  · rw [if_neg hlast]
    have hlive : x.zeroed = false := Bool.eq_false_iff.2 fun hzeroed =>
      hcount (h.safe.2 x (List.mem_of_getElem? hx) hzeroed)
    exact (h.setCount hx hlive hlast).goTo hnot fun session hd => by cases hd

/-! ## Every step -/

theorem RefInv.step {s s' : References T} {action : RefAction T} (h : RefInv s) (hok : LookupOK s action)
    (hstep : refStep s action = some s') : RefInv s' := by
  cases action with
  | construct sessionId =>
    cases hstep
    exact h.construct sessionId
  | waitForKey t usable =>
    simp only [refStep] at hstep
    split at hstep
    · rename_i ht
      split at hstep
      · cases hstep
        exact h.goTo (fun session hd => by cases ht.symm.trans hd) fun session hd => by cases hd
      · cases hstep
        exact h
    · cases hstep
  | session t =>
    simp only [refStep] at hstep
    split at hstep
    · rename_i sessionId ht
      split at hstep
      · rename_i session hlookup
        obtain ⟨x, hx, rfl⟩ := Option.map_eq_some_iff.1 hstep
        obtain ⟨hnobody, hcount⟩ := hok sessionId session x ht hlookup hx
        exact h.session ht hlookup hx hnobody hcount
      · cases hstep
        exact h.goTo (fun session hd => by cases ht.symm.trans hd) fun session hd => by cases hd
    · cases hstep
  | release t session =>
    simp only [refStep] at hstep
    split at hstep
    · rename_i x ht hx
      split at hstep
      · cases hstep
      · rename_i hcount
        cases hstep
        exact h.release ht hx hcount
    · cases hstep
  | removeSession t =>
    simp only [refStep] at hstep
    split at hstep
    · rename_i session ht
      obtain ⟨x, hx, rfl⟩ := Option.map_eq_some_iff.1 hstep
      exact h.removeSession ht hx
    · cases hstep

/-- A lookup that does not meet the condition returns a session whose count has been zero. -/
theorem RefInv.unsafe_step {s s' : References T} {action : RefAction T} (h : RefInv s)
    (hstep : refStep s action = some s') (hbad : ¬ LookupOK s action) : ∃ r ∈ s'.returned, r.2 = true := by
  cases action with
  | session t =>
    simp only [LookupOK] at hbad
    push Not at hbad
    obtain ⟨sessionId, session, x, ht, hlookup, hx, hbad⟩ := hbad
    simp only [refStep, ht, hlookup, hx, Option.map_some, Option.some.injEq] at hstep
    subst hstep
    refine ⟨_, List.mem_append_right _ (List.mem_singleton_self _), ?_⟩
    by_cases hnobody : ∀ u, s.stage u ≠ .destroying session
    · simp [RefSession.count, hbad hnobody]
    · push Not at hnobody
      obtain ⟨u, hu⟩ := hnobody
      obtain ⟨y, hy, hzeroed⟩ := h.zeroed u session hu
      rw [hx] at hy
      cases hy
      simp [RefSession.count, hzeroed]
  | _ => exact absurd trivial hbad

/-- What was returned stays returned. -/
theorem refStep_returned {s s' : References T} {action : RefAction T} (hstep : refStep s action = some s') :
    s.returned <+: s'.returned := by
  cases action with
  | construct sessionId =>
    cases hstep
    exact List.prefix_refl _
  | waitForKey t usable =>
    simp only [refStep] at hstep
    split at hstep
    · split at hstep <;> (cases hstep; exact List.prefix_refl _)
    · cases hstep
  | session t =>
    simp only [refStep] at hstep
    split at hstep
    · split at hstep
      · obtain ⟨x, -, rfl⟩ := Option.map_eq_some_iff.1 hstep
        exact List.prefix_append _ _
      · cases hstep
        exact List.prefix_refl _
    · cases hstep
  | release t session =>
    simp only [refStep] at hstep
    split at hstep
    · split at hstep
      · cases hstep
      · cases hstep
        exact List.prefix_refl _
    · cases hstep
  | removeSession t =>
    simp only [refStep] at hstep
    split at hstep
    · obtain ⟨x, -, rfl⟩ := Option.map_eq_some_iff.1 hstep
      exact List.prefix_refl _
    · cases hstep

theorem RefInv.run_iff {s s' : References T} {actions : List (RefAction T)} (hs : RefInv s)
    (h : Trace.Run refStep (fun _ _ => True) s actions s') : RefSafe s' ↔ Trace.Run refStep LookupOK s actions s' := by
  refine ⟨fun hsafe => ?_, fun hok => (hok.invariant RefInv (fun _ _ _ hs hok hstep => hs.step hok hstep) hs).safe⟩
  induction h with
  | nil s => exact .nil s
  | @cons s s1 s' action actions _ hstep hrest ih =>
    by_cases hok : LookupOK s action
    · exact .cons hok hstep (ih (hs.step hok hstep) hsafe)
    · obtain ⟨r, hr, hzeroed⟩ := hs.unsafe_step hstep hok
      have hkept : r ∈ s'.returned :=
        hrest.invariant (fun s => r ∈ s.returned) (fun _ _ _ hr _ hstep => (refStep_returned hstep).subset hr) hr
      rw [hsafe.1 r hkept] at hzeroed
      cases hzeroed

/-- In every interleaving, of any number of threads, no session whose count has been zero is returned or counted again
exactly when every lookup meets the condition. -/
theorem safe_iff (actions : List (RefAction T)) (s : References T)
    (h : Trace.Run refStep (fun _ _ => True) .start actions s) :
    RefSafe s ↔ Trace.Run refStep LookupOK .start actions s :=
  RefInv.start.run_iff h

end

/-- A session is found and returned, and then both references are released. -/
theorem safe_iff_returned : ∃ s : References Nat,
    Trace.Run refStep (fun _ _ => True) .start
      [.construct "a", .waitForKey 0 fun _ => true, .session 0, .release 0 0, .release 1 0, .removeSession 1] s ∧
    s.returned = [(0, false)] ∧
    (RefSafe s ↔ Trace.Run refStep LookupOK .start
      [.construct "a", .waitForKey 0 fun _ => true, .session 0, .release 0 0, .release 1 0, .removeSession 1] s) := by
  have h : (Trace.exec refStep (fun _ _ => True) (.start : References Nat)
      [.construct "a", .waitForKey 0 fun _ => true, .session 0, .release 0 0, .release 1 0, .removeSession 1]).map
        (·.returned) = some [(0, false)] := by decide +kernel
  obtain ⟨s, hs, hreturned⟩ := Option.map_eq_some_iff.1 h
  exact ⟨s, Trace.exec_run hs, hreturned, safe_iff _ s (Trace.exec_run hs)⟩

/-- The last reference is released between the scan and the lookup: the session is returned while it is destroyed. -/
theorem destroyed_returned : ∃ (actions : List (RefAction Nat)) (s : References Nat),
    Trace.Run refStep (fun _ _ => True) .start actions s ∧ ¬ RefSafe s := by
  have h : (Trace.exec refStep (fun _ _ => True) (.start : References Nat)
      [.construct "a", .waitForKey 0 fun _ => true, .release 1 0, .session 0]).map (·.returned) = some [(0, true)] := by
    decide +kernel
  obtain ⟨s, hs, hreturned⟩ := Option.map_eq_some_iff.1 h
  refine ⟨_, s, Trace.exec_run hs, fun hsafe => ?_⟩
  have hzeroed := hsafe.1 (0, true) (by rw [hreturned]; exact List.mem_singleton_self _)
  cases hzeroed

end Ocdm.Client
