/-
The `Sink` of a session (FrameworkRPC.cpp): it hands the events of the CDM on to the callback of the client, which may
be missing from the start or be revoked at any time. All handlers but `OnKeyStatusesUpdated` ask for the callback
first, so a life of the sink is safe exactly when that one comes only while there is a callback (`sink_safe_iff`); a
callback is released once, and left alone afterwards, in every life.
-/
import Ocdm.Lib.Effects
import Ocdm.Session.Status

namespace Ocdm.Session

open Cenc (KeyId updateKeyStatus)

/-! ## The sink -/

/-- What is called on an `ISession::ICallback`. -/
inductive Method (K : Type) where
  | addRef
  | release
  | onKeyMessage (keyMessage : List UInt8) (url : List UInt8)
  | onError (error : Int16) (sysError : UInt32) (errorMessage : List UInt8)
  | onKeyStatusUpdate (keyId : K) (status : KeyStatus)
  | onKeyStatusesUpdated
deriving DecidableEq, Repr

/-- A call and the pointer it goes through. -/
structure Call (K : Type) where
  through : Option Nat
  method : Method K
deriving DecidableEq, Repr

/-- `_callback`, by its address, and the key list of `_parent`. -/
structure Sink (K : Type) where
  callback : Option Nat
  keys : List (KeyId K)

/-- The constructor with the parent only, or the one with a callback. -/
inductive Construction where
  | parentOnly
  | withCallback (callback : Option Nat)
deriving DecidableEq, Repr

/-- What the CDM reports, and `SessionImplementation::Revoke`. -/
inductive SinkEvent where
  | onKeyMessage (f_pbKeyMessage : List UInt8) (f_pszUrl : List UInt8)
  | onError (f_nError : Int16) (f_crSysError : UInt32) (errorMessage : List UInt8)
  | onKeyStatusUpdate (keyMessage : String) (buffer : List UInt8)
  | onKeyStatusesUpdated
  | revoke (callback : Option Nat)
deriving DecidableEq, Repr

section

variable {K : Type}

/-- The constructors; the second one adds a reference to whatever it is given. -/
def construct (keys : List (KeyId K)) : Construction → Sink K × List (Call K)
  | .parentOnly => (⟨none, keys⟩, [])
  | .withCallback callback => (⟨callback, keys⟩, [⟨callback, .addRef⟩])

/-- A call behind `_callback != nullptr`. -/
def Sink.guarded (s : Sink K) (method : Method K) : List (Call K) :=
  if s.callback ≠ none then [⟨s.callback, method⟩] else []

/-- `Sink::Revoke` -/
def Sink.revoke (s : Sink K) (callback : Option Nat) : Sink K × List (Call K) :=
  if s.callback ≠ none ∧ s.callback = callback then ({ s with callback := none }, [⟨s.callback, .release⟩])
  else (s, [])

/-- The destructor. -/
def Sink.destroy (s : Sink K) : List (Call K) := if s.callback ≠ none then (s.revoke s.callback).2 else []

/-! ## Calls through the callback -/

theorem mem_guarded {s : Sink K} {method : Method K} {call : Call K} (h : call ∈ s.guarded method) :
    call.through = s.callback ∧ s.callback ≠ none := by
  unfold Sink.guarded at h
  split at h
  · rename_i hcallback
    rw [List.mem_singleton.1 h]
    exact ⟨rfl, hcallback⟩
  · cases h

theorem mem_revoke {s : Sink K} {callback : Option Nat} {call : Call K} (h : call ∈ (s.revoke callback).2) :
    call.through = s.callback ∧ s.callback ≠ none := by
  unfold Sink.revoke at h
  split at h
  · rename_i hcallback
    rw [List.mem_singleton.1 h]
    exact ⟨rfl, hcallback.1⟩
  · cases h

theorem mem_destroy {s : Sink K} {call : Call K} (h : call ∈ s.destroy) :
    call.through = s.callback ∧ s.callback ≠ none := by
  unfold Sink.destroy at h
  split at h
  · exact mem_revoke h
  · cases h

def Call.releases (callback : Nat) (call : Call K) : Bool :=
  match call.method with
  | .release => call.through == some callback
  | _ => false

/-- What is still to be released. -/
def Sink.holds (s : Sink K) (callback : Nat) : Nat := if s.callback = some callback then 1 else 0

theorem guarded_releases (s : Sink K) (method : Method K) (h : method ≠ .release) (callback : Nat) :
    (s.guarded method).countP (Call.releases callback) + s.holds callback = s.holds callback := by
  have hnone : (s.guarded method).countP (Call.releases callback) = 0 := by
    rw [List.countP_eq_zero]
    intro call hcall hreleases
    unfold Sink.guarded at hcall
    split at hcall
    · rw [List.mem_singleton.1 hcall] at hreleases
      unfold Call.releases at hreleases
      split at hreleases
      · exact h (by assumption)
      · cases hreleases
    · cases hcall
  rw [hnone, Nat.zero_add]

/-- Revoking the callback releases it. -/
theorem revoke_releases (s : Sink K) (revoked : Option Nat) (callback : Nat) :
    (s.revoke revoked).2.countP (Call.releases callback) + (s.revoke revoked).1.holds callback =
      s.holds callback := by
  unfold Sink.revoke
  split
  · show [Call.mk s.callback Method.release].countP (Call.releases callback) + 0 = s.holds callback
    unfold Sink.holds
    rw [List.countP_singleton]
    simp only [Call.releases, beq_iff_eq, Nat.add_zero]
  · exact Nat.zero_add _

theorem destroy_releases (s : Sink K) (callback : Nat) :
    s.destroy.countP (Call.releases callback) = s.holds callback := by
  have hrevoke := revoke_releases s s.callback callback
  unfold Sink.destroy
  split
  · rename_i hcallback
    rw [← hrevoke]
    unfold Sink.revoke
    rw [if_pos ⟨hcallback, rfl⟩]
    rfl
  · rename_i hcallback
    unfold Sink.holds
    rw [not_not.1 hcallback]
    rfl

/-! ## Events -/

variable [Thunder K]

/-- The handlers. -/
def Sink.handle (s : Sink K) : SinkEvent → Sink K × List (Call K)
  | .onKeyMessage f_pbKeyMessage f_pszUrl => (s, s.guarded (.onKeyMessage f_pbKeyMessage f_pszUrl))
  | .onError f_nError f_crSysError errorMessage => (s, s.guarded (.onError f_nError f_crSysError errorMessage))
  | .onKeyStatusUpdate keyMessage buffer =>
    let key := statusOfMessage keyMessage
    let updated := updateKeyStatus s.keys key { id := Thunder.keyId buffer, systems := Cenc.SystemType.common.mask }
    ({ s with keys := updated.1 }, s.guarded (.onKeyStatusUpdate updated.2.id key))
  -- the only handler that does not ask
  | .onKeyStatusesUpdated => (s, [⟨s.callback, .onKeyStatusesUpdated⟩])
  | .revoke callback => s.revoke callback

/-- The calls of the events and of the destructor after them. -/
def Sink.rest (s : Sink K) (events : List SinkEvent) : List (Call K) :=
  (Effects.run Sink.handle s events).2 ++ (Effects.run Sink.handle s events).1.destroy

/-- All calls from the constructor to the destructor. -/
def life (keys : List (KeyId K)) (construction : Construction) (events : List SinkEvent) : List (Call K) :=
  (construct keys construction).2 ++ (construct keys construction).1.rest events

/-- Every call goes through the callback the sink has. -/
theorem handle_through {s : Sink K} {event : SinkEvent} {call : Call K} (h : call ∈ (s.handle event).2) :
    call.through = s.callback := by
  cases event with
  | onKeyMessage _ _ => exact (mem_guarded h).1
  | onError _ _ _ => exact (mem_guarded h).1
  | onKeyStatusUpdate _ _ => exact (mem_guarded h).1
  | onKeyStatusesUpdated => rw [List.mem_singleton.1 h]
  | revoke callback => exact (mem_revoke h).1

/-- A null callback is called for `OnKeyStatusesUpdated` only. -/
theorem handle_null (s : Sink K) (event : SinkEvent) :
    (∃ call ∈ (s.handle event).2, call.through = none) ↔ event = .onKeyStatusesUpdated ∧ s.callback = none := by
  constructor
  · rintro ⟨call, hmem, hnull⟩
    have hcallback := (handle_through hmem).symm.trans hnull
    cases event with
    | onKeyMessage _ _ => exact absurd hcallback (mem_guarded hmem).2
    | onError _ _ _ => exact absurd hcallback (mem_guarded hmem).2
    | onKeyStatusUpdate _ _ => exact absurd hcallback (mem_guarded hmem).2
    | onKeyStatusesUpdated => exact ⟨rfl, hcallback⟩
    | revoke callback => exact absurd hcallback (mem_revoke hmem).2
  · rintro ⟨rfl, hcallback⟩
    exact ⟨_, List.mem_singleton_self _, hcallback⟩

/-- Only revoking the callback takes it away. -/
theorem handle_callback (s : Sink K) (event : SinkEvent) :
    (s.handle event).1.callback = if event = .revoke s.callback then none else s.callback := by
  cases event with
  | onKeyMessage _ _ => rfl
  | onError _ _ _ => rfl
  | onKeyStatusUpdate _ _ => rfl
  | onKeyStatusesUpdated => rfl
  | revoke callback =>
    unfold Sink.handle Sink.revoke
    simp only [SinkEvent.revoke.injEq]
    by_cases heq : callback = s.callback
    · subst heq
      rw [if_pos rfl]
      by_cases hnull : s.callback = none
      · rw [if_neg (fun h => h.1 hnull), hnull]
      · rw [if_pos ⟨hnull, rfl⟩]
    · rw [if_neg heq, if_neg (fun h => heq h.2.symm)]

/-! ## Runs -/

theorem run_callback (s : Sink K) (events : List SinkEvent) :
    (Effects.run Sink.handle s events).1.callback =
      if .revoke s.callback ∈ events then none else s.callback := by
  induction events generalizing s with
  | nil => rfl
  | cons event events ih =>
    rw [Effects.run_cons, ih, handle_callback]
    by_cases hrevoke : event = .revoke s.callback
    · have hmem : SinkEvent.revoke s.callback ∈ event :: events := by
        rw [hrevoke]
        exact List.mem_cons_self ..
      rw [if_pos hrevoke, if_pos hmem]
      split <;> rfl
    · simp only [if_neg hrevoke, List.mem_cons, Ne.symm hrevoke, false_or]

theorem run_callback_none {s : Sink K} (h : s.callback = none) (events : List SinkEvent) :
    (Effects.run Sink.handle s events).1.callback = none := by
  rw [run_callback, h]
  split <;> rfl

/-- Without a callback no call goes through one. -/
theorem rest_of_none {s : Sink K} (h : s.callback = none) (events : List SinkEvent) :
    ∀ call ∈ s.rest events, call.through = none := by
  intro call hcall
  rcases List.mem_append.1 hcall with hcall | hcall
  · obtain ⟨before, event, -, -, hmem⟩ := (Effects.mem_run Sink.handle).1 hcall
    rw [handle_through hmem, run_callback_none h]
  · rw [(mem_destroy hcall).1, run_callback_none h]

/-- An event releases the callback when it takes it away. -/
theorem handle_releases (s : Sink K) (event : SinkEvent) (callback : Nat) :
    (s.handle event).2.countP (Call.releases callback) + (s.handle event).1.holds callback = s.holds callback := by
  cases event with
  | onKeyMessage keyMessage url => exact guarded_releases s (.onKeyMessage keyMessage url) nofun callback
  | onError error sysError message => exact guarded_releases s (.onError error sysError message) nofun callback
  | onKeyStatusUpdate keyMessage buffer => exact guarded_releases s (.onKeyStatusUpdate _ _) nofun callback
  | onKeyStatusesUpdated => exact Nat.zero_add _
  | revoke revoked => exact revoke_releases s revoked callback

theorem rest_releases (s : Sink K) (events : List SinkEvent) (callback : Nat) :
    (s.rest events).countP (Call.releases callback) = s.holds callback := by
  induction events generalizing s with
  | nil => exact destroy_releases s callback
  | cons event events ih =>
    have hrest : s.rest (event :: events) = (s.handle event).2 ++ (s.handle event).1.rest events := by
      unfold Sink.rest
      rw [Effects.run_cons, List.append_assoc]
    rw [hrest, List.countP_append, ih, handle_releases]

/-! ## Lives -/

/-- The life of a sink is as it should be: no call goes through a null callback; once its callback is revoked no call
goes through that one any more; and its callback is released once. -/
structure Safe (keys : List (KeyId K)) (construction : Construction) (events : List SinkEvent) : Prop where
  no_null : ∀ call ∈ life keys construction events, call.through ≠ none
  silent : ∀ callback before after, construction = .withCallback (some callback) →
    events = before ++ .revoke (some callback) :: after →
      ∀ call ∈ (Effects.run Sink.handle (construct keys construction).1 (before ++ [.revoke (some callback)])).1.rest
        after, call.through ≠ some callback
  released : ∀ callback, construction = .withCallback (some callback) →
    (life keys construction events).countP (Call.releases callback) = 1

/-- `OnKeyStatusesUpdated` comes only while there is a callback that is not revoked. -/
structure Guarded (construction : Construction) (events : List SinkEvent) : Prop where
  constructed : construction ≠ .withCallback none
  updated : ∀ before after, events = before ++ .onKeyStatusesUpdated :: after →
    ∃ callback, construction = .withCallback (some callback) ∧ .revoke (some callback) ∉ before

section

variable (keys : List (KeyId K)) (construction : Construction) (events : List SinkEvent)

/-- After the callback is revoked it is left alone. -/
theorem silent_after_revoke {callback : Nat} (hconstruction : construction = .withCallback (some callback))
    (before after : List SinkEvent) :
    ∀ call ∈ (Effects.run Sink.handle (construct keys construction).1 (before ++ [.revoke (some callback)])).1.rest
      after, call.through ≠ some callback := by
  intro call hcall
  have hnone : (Effects.run Sink.handle (construct keys construction).1
      (before ++ [.revoke (some callback)])).1.callback = none := by
    rw [run_callback, hconstruction]
    exact if_pos (List.mem_append_right _ (List.mem_singleton_self _))
  rw [rest_of_none hnone after call hcall]
  exact nofun

/-- The callback is released once, whether it is revoked or not. -/
theorem released_once {callback : Nat} (hconstruction : construction = .withCallback (some callback)) :
    (life keys construction events).countP (Call.releases callback) = 1 := by
  subst hconstruction
  show ([Call.mk (some callback) Method.addRef] ++ _).countP _ = 1
  have hholds : (construct keys (.withCallback (some callback))).1.holds callback = 1 := if_pos rfl
  rw [List.countP_append, rest_releases, hholds]
  rfl

/-- A call of a life goes through a null callback when the constructor gets one, or when `OnKeyStatusesUpdated` comes
without one. -/
theorem life_null : (∃ call ∈ life keys construction events, call.through = none) ↔
    construction = .withCallback none ∨ ∃ before after, events = before ++ .onKeyStatusesUpdated :: after ∧
      (Effects.run Sink.handle (construct keys construction).1 before).1.callback = none := by
  constructor
  · rintro ⟨call, hcall, hnull⟩
    rcases List.mem_append.1 hcall with hcall | hcall
    · left
      cases construction with
      | parentOnly => cases hcall
      | withCallback callback =>
        rw [List.mem_singleton.1 hcall] at hnull
        exact congrArg _ hnull
    · right
      rcases List.mem_append.1 hcall with hcall | hcall
      · obtain ⟨before, event, after, rfl, hmem⟩ := (Effects.mem_run Sink.handle).1 hcall
        obtain ⟨rfl, hcallback⟩ := (handle_null _ event).1 ⟨call, hmem, hnull⟩
        exact ⟨before, after, rfl, hcallback⟩
      · obtain ⟨hthrough, hcallback⟩ := mem_destroy hcall
        exact absurd (hthrough.symm.trans hnull) hcallback
  · rintro (rfl | ⟨before, after, rfl, hcallback⟩)
    · exact ⟨_, List.mem_append_left _ (List.mem_singleton_self _), rfl⟩
    · obtain ⟨call, hmem, hnull⟩ := (handle_null _ _).2 ⟨rfl, hcallback⟩
      exact ⟨call, List.mem_append_right _ (List.mem_append_left _
        ((Effects.mem_run Sink.handle).2 ⟨before, _, after, rfl, hmem⟩)), hnull⟩

/-- There is no callback when there was none, or when it was revoked. -/
theorem construct_run_callback (hconstruction : construction ≠ .withCallback none) :
    (Effects.run Sink.handle (construct keys construction).1 events).1.callback ≠ none ↔
      ∃ callback, construction = .withCallback (some callback) ∧ .revoke (some callback) ∉ events := by
  cases construction with
  | parentOnly =>
    rw [run_callback_none rfl]
    simp
  | withCallback given =>
    cases given with
    | none => exact absurd rfl hconstruction
    | some callback =>
      rw [run_callback]
      show (if SinkEvent.revoke (some callback) ∈ events then none else some callback) ≠ none ↔ _
      by_cases hmem : SinkEvent.revoke (some callback) ∈ events
      · rw [if_pos hmem]
        refine iff_of_false (by simp) ?_
        rintro ⟨_, ⟨⟩, hno⟩
        exact hno hmem
      · rw [if_neg hmem]
        exact iff_of_true nofun ⟨callback, rfl, hmem⟩

/-- For every construction, key list and sequence of events and revocations, the life of the sink is safe exactly when
`OnKeyStatusesUpdated` comes only while there is a callback. -/
theorem sink_safe_iff : Safe keys construction events ↔ Guarded construction events := by
  have hnull : (∀ call ∈ life keys construction events, call.through ≠ none) ↔ Guarded construction events := by
    rw [← not_iff_not]
    push Not
    rw [life_null]
    constructor
    · rintro (hconstruction | ⟨before, after, hevents, hcallback⟩) hguarded
      · exact hguarded.constructed hconstruction
      · exact (construct_run_callback keys construction before hguarded.constructed).2
          (hguarded.updated before after hevents) hcallback
    · intro hguarded
      by_contra hno
      push Not at hno
      refine hguarded ⟨hno.1, fun before after hevents => ?_⟩
      exact (construct_run_callback keys construction before hno.1).1 (hno.2 before after hevents)
  exact ⟨fun h => hnull.1 h.no_null, fun h => ⟨hnull.2 h,
    fun _ before after hconstruction _ => silent_after_revoke keys construction hconstruction before after,
    fun _ hconstruction => released_once keys construction events hconstruction⟩⟩

end

end

/-- The CDM has updated the statuses after the client has revoked its callback. -/
theorem updated_after_revoke : ¬ Safe ([] : List (KeyId Kid)) (.withCallback (some 1))
    [.revoke (some 1), .onKeyStatusesUpdated] := by
  intro h
  have hlife : (⟨none, .onKeyStatusesUpdated⟩ : Call Kid) ∈ life [] (.withCallback (some 1))
      [.revoke (some 1), .onKeyStatusesUpdated] := by decide
  exact h.no_null _ hlife rfl

end Ocdm.Session
