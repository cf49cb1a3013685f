/-
Waiting for a key (open_cdm.cpp, open_cdm_impl.h): `WaitForKey` scans the registered sessions, waits for the
accessor's signal and scans again while its time is not over; `KeyUpdate` raises that signal, but a status
update does not call it. An update that lands while a caller is blocked is seen exactly when the caller's time
is not over at the first test of its loop behind it: then the next scan finds the session (`update_reexamined`).
-/
import Ocdm.Session.Status
import Ocdm.Lib.Assoc

namespace Ocdm.Client

open Session (ClientKey onKeyStatusUpdate clientStatus)

/-! ## Callers and sessions -/

/-- A registered session: its system and the statuses it holds. -/
structure Listed (K : Type) where
  system : Nat
  keyStatuses : List (ClientKey K)
deriving DecidableEq, Repr

/-- Where a call of `WaitForKey` is: before the scan, after it with `_interested` raised, in `Lock` until a
time, after `Lock`, at the test of the loop, or returned with the session found. -/
inductive WaitPhase where
  | scanning
  | interested
  | blocked (deadline : Option Nat)
  | woken
  | testing
  | returned (sessionId : Option String)
deriving DecidableEq, Repr

/-- A call of `WaitForKey`. -/
structure Waiter (K : Type) where
  key : K
  status : KeyStatus
  system : Option Nat
  timeOut : Nat
  phase : WaitPhase
deriving DecidableEq, Repr

/-- The accessor: the clock in ticks, the registered sessions in the order of their ids, `_interested`, whether
`_signal` is set, whether `KeyUpdate` holds `_adminLock`, and the calls of `WaitForKey` so far. -/
structure Waiting (K : Type) where
  clock : Nat
  sessionKeys : List (String × Listed K)
  interested : Nat
  signalled : Bool
  updating : Bool
  waiters : List (Waiter K)
deriving DecidableEq, Repr

def Waiting.start {K : Type} : Waiting K := ⟨0, [], 0, false, false, []⟩

section

variable {K : Type} [Thunder K]

/-- The condition of the scan. -/
def Waiter.wants (w : Waiter K) (session : Listed K) : Bool :=
  (w.system.all fun system => decide (system = session.system)) &&
    decide (clientStatus session.keyStatuses w.key = w.status)

/-- The scan: the first session that has the status. -/
def Waiter.scan (w : Waiter K) (sessionKeys : List (String × Listed K)) : Option String :=
  (sessionKeys.find? fun e => w.wants e.2).map (·.1)

/-- When `Lock` gives up, if ever: the milliseconds left are a `uint32_t`, and the largest one is forever. -/
def lockUntil (ticksPerMillisecond clock timeOut : Nat) : Option Nat :=
  let waitTime := ((timeOut - clock) / ticksPerMillisecond) % 2 ^ 32
  if waitTime = 2 ^ 32 - 1 then none else some (clock + waitTime * ticksPerMillisecond)

/-- The next step of a call, when it can take one: where it is then, and `_interested`. -/
def Waiter.next (ticksPerMillisecond : Nat) (s : Waiting K) (w : Waiter K) : Option (WaitPhase × Nat) :=
  match w.phase with
  | .scanning =>
    -- the scan needs the lock that `KeyUpdate` holds until nobody is interested
    if s.updating then none
    else match w.scan s.sessionKeys with
      | some sessionId => some (.returned (some sessionId), s.interested)
      | none => some (.interested, s.interested + 1)
  | .interested =>
    some (if s.clock < w.timeOut then .blocked (lockUntil ticksPerMillisecond s.clock w.timeOut) else .woken,
      s.interested)
  | .blocked deadline =>
    if s.signalled ∨ ∃ t ∈ deadline, t ≤ s.clock then some (.woken, s.interested) else none
  | .woken => some (.testing, s.interested - 1)
  -- the loop is left without another scan once the time is over
  | .testing => some (if s.clock < w.timeOut then .scanning else .returned none, s.interested)
  | .returned _ => none

def addListed (sessionId : String) (session : Listed K) : List (String × Listed K) → List (String × Listed K)
  | [] => [(sessionId, session)]
  | e :: rest =>
    if sessionId < e.1 then (sessionId, session) :: e :: rest
    else if sessionId = e.1 then e :: rest
    else e :: addListed sessionId session rest

/-- `OnKeyStatusUpdate` of the session with an id. -/
def updateListed (sessionId : String) (m : K × KeyStatus) (sessionKeys : List (String × Listed K)) :
    List (String × Listed K) :=
  sessionKeys.map fun e =>
    if e.1 = sessionId then (e.1, { e.2 with keyStatuses := onKeyStatusUpdate e.2.keyStatuses m }) else e

inductive WaitAction (K : Type) where
  | tick (ticks : Nat)
  | waitForKey (key : K) (waitTime : UInt32) (status : KeyStatus) (system : Option Nat)
  | run (waiter : Nat)
  | addSession (sessionId : String) (session : Listed K)
  | removeSession (sessionId : String)
  | update (sessionId : String) (m : K × KeyStatus)
  | keyUpdate
  | keyUpdateDone

/-- One step of the clock, of a call, of a session or of `KeyUpdate`. -/
def waitStep (ticksPerMillisecond : Nat) (s : Waiting K) : WaitAction K → Option (Waiting K)
  | .tick ticks => some { s with clock := s.clock + ticks }
  | .waitForKey key waitTime status system =>
    let timeOut := s.clock + waitTime.toNat * ticksPerMillisecond
    some { s with waiters := s.waiters ++ [⟨key, status, system, timeOut, .scanning⟩] }
  | .run i =>
    match s.waiters[i]? with
    | none => none
    | some w => (w.next ticksPerMillisecond s).map fun next =>
        { s with waiters := s.waiters.set i { w with phase := next.1 }, interested := next.2 }
  | .addSession sessionId session =>
    if s.updating then none else some { s with sessionKeys := addListed sessionId session s.sessionKeys }
  | .removeSession sessionId =>
    if s.updating then none else some { s with sessionKeys := Assoc.remove sessionId s.sessionKeys }
  | .update sessionId m => some { s with sessionKeys := updateListed sessionId m s.sessionKeys }
  | .keyUpdate =>
    if s.updating then none
    else if s.interested = 0 then some s
    else some { s with signalled := true, updating := true }
  -- the loop until nobody is interested, and what follows it
  | .keyUpdateDone =>
    if s.updating ∧ s.interested = 0 then some { s with signalled := false, updating := false } else none

/-! ## An update that lands while a caller is blocked -/

/-- A registered session of the requested system has the awaited status. -/
def Awaited (w : Waiter K) (sessionId : String) (s : Waiting K) : Prop :=
  ∃ session, (sessionId, session) ∈ s.sessionKeys ∧ w.wants session = true

/-- The call has not returned false. -/
def NotGivenUp (i : Nat) (s : Waiting K) : Prop := ∀ w, s.waiters[i]? = some w → w.phase ≠ .returned none

/-- The step is the call's test of its loop. -/
def testsLoop (i : Nat) (s : Waiting K) : WaitAction K → Bool
  | .run j => decide (j = i) && s.waiters[i]?.any fun w => decide (w.phase = .testing)
  | _ => false

/-- At the first test of its loop that the call comes to in a run, its time is not over. -/
def FirstTestInTime (ticksPerMillisecond i : Nat) : Waiting K → List (WaitAction K) → Prop
  | _, [] => True
  | s, action :: actions =>
    if testsLoop i s action then ∀ w, s.waiters[i]? = some w → s.clock < w.timeOut
    else ∀ s', waitStep ticksPerMillisecond s action = some s' → FirstTestInTime ticksPerMillisecond i s' actions

/-- The call has not returned false after the step, and if the step was its scan, it has returned with a session of
the system that has the status. -/
def Reexamines (ticksPerMillisecond i : Nat) (s : Waiting K) (action : WaitAction K) : Prop :=
  ∀ s', waitStep ticksPerMillisecond s action = some s' → NotGivenUp i s' ∧
    (action = .run i → ∀ w, s.waiters[i]? = some w → w.phase = .scanning →
      ∃ sessionId, s'.waiters[i]? = some { w with phase := .returned (some sessionId) } ∧ Awaited w sessionId s)

/-! ## What a step does to a call -/

variable {ticksPerMillisecond : Nat} {s s' : Waiting K} {i : Nat} {w : Waiter K} {action : WaitAction K}

/-- Only its own steps change a call. -/
theorem waitStep_other (hw : s.waiters[i]? = some w) (hstep : waitStep ticksPerMillisecond s action = some s')
    (hother : action ≠ .run i) : s'.waiters[i]? = some w := by
  unfold waitStep at hstep
  cases action with
  | tick ticks =>
    cases hstep
    exact hw
  | waitForKey key waitTime status system =>
    cases hstep
    exact (List.getElem?_append_left (List.getElem?_eq_some_iff.1 hw).1).trans hw
  | run j =>
    have hji : j ≠ i := fun heq => hother (heq ▸ rfl)
    dsimp only at hstep
    split at hstep
    · cases hstep
    · obtain ⟨next, -, rfl⟩ := Option.map_eq_some_iff.1 hstep
      exact (List.getElem?_set_ne hji).trans hw
  | addSession sessionId session =>
    obtain ⟨-, hstep⟩ := Option.ite_none_left_eq_some.1 hstep
    cases hstep
    exact hw
  | removeSession sessionId =>
    obtain ⟨-, hstep⟩ := Option.ite_none_left_eq_some.1 hstep
    cases hstep
    exact hw
  | update sessionId m =>
    cases hstep
    exact hw
  | keyUpdate =>
    obtain ⟨-, hstep⟩ := Option.ite_none_left_eq_some.1 hstep
    split at hstep <;> cases hstep <;> exact hw
  | keyUpdateDone =>
    obtain ⟨-, hstep⟩ := Option.ite_none_right_eq_some.1 hstep
    cases hstep
    exact hw

theorem waitStep_run (hw : s.waiters[i]? = some w) (hstep : waitStep ticksPerMillisecond s (.run i) = some s') :
    ∃ next, w.next ticksPerMillisecond s = some next ∧ s'.waiters[i]? = some { w with phase := next.1 } := by
  unfold waitStep at hstep
  dsimp only at hstep
  rw [hw] at hstep
  obtain ⟨next, hnext, rfl⟩ := Option.map_eq_some_iff.1 hstep
  exact ⟨next, hnext, List.getElem?_set_self (List.getElem?_eq_some_iff.1 hw).1⟩

/-- A scan finds a session when there is one. -/
theorem Waiter.scan_finds {sessionId : String} (h : Awaited w sessionId s) :
    ∃ found, w.scan s.sessionKeys = some found ∧ Awaited w found s := by
  obtain ⟨session, hmem, hwants⟩ := h
  have hsome : (s.sessionKeys.find? fun e => w.wants e.2).isSome = true := List.find?_isSome.2 ⟨_, hmem, hwants⟩
  obtain ⟨e, he⟩ := Option.isSome_iff_exists.1 hsome
  have hwantsFound := List.find?_some he
  exact ⟨e.1, by rw [Waiter.scan, he, Option.map_some], e.2, List.mem_of_find?_eq_some he, hwantsFound⟩

/-- The phases from the wait step up to the test of the loop. -/
def WaitPhase.BeforeTest : WaitPhase → Prop
  | .blocked _ => True
  | .woken => True
  | .testing => True
  | _ => False

/-- The phases behind a test in time, when there is a session to be found. -/
def WaitPhase.Finds : WaitPhase → Prop
  | .scanning => True
  | .returned sessionId => sessionId ≠ none
  | _ => False

theorem WaitPhase.BeforeTest.cases {phase : WaitPhase} (h : phase.BeforeTest) :
    (∃ deadline, phase = .blocked deadline) ∨ phase = .woken ∨ phase = .testing := by
  cases phase with
  | blocked deadline => exact .inl ⟨deadline, rfl⟩
  | woken => exact .inr (.inl rfl)
  | testing => exact .inr (.inr rfl)
  | scanning => cases h
  | interested => cases h
  | returned sessionId => cases h

theorem WaitPhase.Finds.cases {phase : WaitPhase} (h : phase.Finds) :
    phase = .scanning ∨ ∃ sessionId, phase = .returned sessionId := by
  cases phase with
  | scanning => exact .inl rfl
  | returned sessionId => exact .inr ⟨sessionId, rfl⟩
  | interested => cases h
  | blocked deadline => cases h
  | woken => cases h
  | testing => cases h

/-- Up to the test of its loop a call goes on, and there by its time. -/
theorem Waiter.next_beforeTest {next : WaitPhase × Nat} (hphase : w.phase.BeforeTest)
    (hnext : w.next ticksPerMillisecond s = some next) :
    (w.phase ≠ .testing → next.1.BeforeTest) ∧
      (w.phase = .testing → next.1 = if s.clock < w.timeOut then .scanning else .returned none) := by
  unfold Waiter.next at hnext
  obtain ⟨deadline, hblocked⟩ | hwoken | htesting := hphase.cases
  · rw [hblocked] at hnext
    obtain ⟨-, hnext⟩ := Option.ite_none_right_eq_some.1 hnext
    cases hnext
    exact ⟨fun _ => trivial, fun htesting => by rw [hblocked] at htesting; cases htesting⟩
  · rw [hwoken] at hnext
    cases hnext
    exact ⟨fun _ => trivial, fun htesting => by rw [hwoken] at htesting; cases htesting⟩
  · rw [htesting] at hnext
    cases hnext
    exact ⟨fun hne => absurd htesting hne, fun _ => rfl⟩

/-- Behind the test the next step of a call is its scan, and that finds a session. -/
theorem Waiter.next_finds {sessionId : String} {next : WaitPhase × Nat} (hawaited : Awaited w sessionId s)
    (hphase : w.phase.Finds) (hnext : w.next ticksPerMillisecond s = some next) :
    ∃ found, next.1 = .returned (some found) ∧ Awaited w found s := by
  unfold Waiter.next at hnext
  obtain hscanning | ⟨returned, hreturned⟩ := hphase.cases
  · rw [hscanning] at hnext
    obtain ⟨-, hnext⟩ := Option.ite_none_left_eq_some.1 hnext
    obtain ⟨found, hfound, hfoundAwaited⟩ := w.scan_finds hawaited
    rw [hfound] at hnext
    cases hnext
    exact ⟨found, rfl, hfoundAwaited⟩
  · rw [hreturned] at hnext
    cases hnext

/-! ## From the update to the return -/

/-- The call is in a phase, and its session is there. -/
structure CallIn (i : Nat) (w : Waiter K) (sessionId : String) (phases : WaitPhase → Prop) (s : Waiting K) : Prop where
  awaited : Awaited w sessionId s
  waiter : ∃ phase : WaitPhase, s.waiters[i]? = some { w with phase := phase } ∧ phases phase

variable {sessionId : String} {phases : WaitPhase → Prop}

/-- A step of somebody else leaves the call where it is. -/
theorem CallIn.other (h : CallIn i w sessionId phases s)
    (hstep : waitStep ticksPerMillisecond s action = some s') (hother : action ≠ .run i)
    (hawaited : Awaited w sessionId s') : CallIn i w sessionId phases s' := by
  obtain ⟨phase, hw, hphase⟩ := h.waiter
  exact ⟨hawaited, phase, waitStep_other hw hstep hother, hphase⟩

theorem CallIn.notGivenUp (h : CallIn i w sessionId phases s) (hnone : ¬ phases (.returned none)) : NotGivenUp i s := by
  obtain ⟨phase, hw, hphase⟩ := h.waiter
  intro w' hw' hreturned
  rw [hw] at hw'
  cases hw'
  rw [show phase = _ from hreturned] at hphase
  exact hnone hphase

/-- Behind a test in time the next scan finds a session, and the call returns with it. -/
theorem CallIn.step_finds (h : CallIn i w sessionId WaitPhase.Finds s)
    (hstep : waitStep ticksPerMillisecond s action = some s') (hawaited : Awaited w sessionId s') :
    Reexamines ticksPerMillisecond i s action ∧ CallIn i w sessionId WaitPhase.Finds s' := by
  have hnone : ¬ WaitPhase.Finds (.returned none) := fun hne => hne rfl
  by_cases hrun : action = .run i
  · subst hrun
    obtain ⟨phase, hw, hphase⟩ := h.waiter
    obtain ⟨next, hnext, hw'⟩ := waitStep_run hw hstep
    obtain ⟨found, hfound, hfoundAwaited⟩ := Waiter.next_finds (w := { w with phase := phase }) h.awaited hphase hnext
    rw [hfound] at hw'
    have hgoes : CallIn i w sessionId WaitPhase.Finds s' := ⟨hawaited, _, hw', Option.some_ne_none found⟩
    refine ⟨fun t ht => ?_, hgoes⟩
    cases hstep.symm.trans ht
    refine ⟨hgoes.notGivenUp hnone, fun _ v hv _ => ?_⟩
    cases hw.symm.trans hv
    exact ⟨found, hw', hfoundAwaited⟩
  · have hgoes := h.other hstep hrun hawaited
    refine ⟨fun t ht => ?_, hgoes⟩
    cases hstep.symm.trans ht
    exact ⟨hgoes.notGivenUp hnone, fun heq => absurd heq hrun⟩

/-- A step up to the test of the loop, which is not that test. -/
theorem CallIn.step_beforeTest (h : CallIn i w sessionId WaitPhase.BeforeTest s)
    (hstep : waitStep ticksPerMillisecond s action = some s') (hawaited : Awaited w sessionId s')
    (htest : testsLoop i s action = false) :
    Reexamines ticksPerMillisecond i s action ∧ CallIn i w sessionId WaitPhase.BeforeTest s' := by
  by_cases hrun : action = .run i
  · subst hrun
    obtain ⟨phase, hw, hphase⟩ := h.waiter
    obtain ⟨next, hnext, hw'⟩ := waitStep_run hw hstep
    have hne : phase ≠ .testing := by
      intro htesting
      simp [testsLoop, hw, htesting] at htest
    have hbefore := (Waiter.next_beforeTest (w := { w with phase := phase }) hphase hnext).1 hne
    have hgoes : CallIn i w sessionId WaitPhase.BeforeTest s' := ⟨hawaited, next.1, hw', hbefore⟩
    refine ⟨fun t ht => ?_, hgoes⟩
    cases hstep.symm.trans ht
    refine ⟨hgoes.notGivenUp id, fun _ v hv hscanning => ?_⟩
    cases hw.symm.trans hv
    rw [show phase = _ from hscanning] at hphase
    exact absurd hphase id
  · have hgoes := h.other hstep hrun hawaited
    refine ⟨fun t ht => ?_, hgoes⟩
    cases hstep.symm.trans ht
    exact ⟨hgoes.notGivenUp id, fun heq => absurd heq hrun⟩

/-- At the test itself the call goes on to the scan if its time is not over, and else it has returned false. -/
theorem CallIn.step_test (h : CallIn i w sessionId WaitPhase.BeforeTest s)
    (hstep : waitStep ticksPerMillisecond s action = some s') (hawaited : Awaited w sessionId s')
    (htest : testsLoop i s action = true) :
    (s.clock < w.timeOut → Reexamines ticksPerMillisecond i s action ∧ CallIn i w sessionId WaitPhase.Finds s') ∧
      (¬ s.clock < w.timeOut → ¬ NotGivenUp i s') := by
  obtain ⟨phase, hw, hphase⟩ := h.waiter
  obtain ⟨rfl, htesting⟩ : action = .run i ∧ phase = .testing := by
    unfold testsLoop at htest
    split at htest
    · rw [hw] at htest
      simpa using htest
    · cases htest
  subst htesting
  obtain ⟨next, hnext, hw'⟩ := waitStep_run hw hstep
  have hphase' := (Waiter.next_beforeTest (w := { w with phase := .testing }) hphase hnext).2 rfl
  constructor
  · intro htime
    rw [if_pos htime] at hphase'
    rw [hphase'] at hw'
    have hgoes : CallIn i w sessionId WaitPhase.Finds s' := ⟨hawaited, _, hw', trivial⟩
    refine ⟨fun t ht => ?_, hgoes⟩
    cases hstep.symm.trans ht
    refine ⟨hgoes.notGivenUp fun hne => hne rfl, fun _ v hv hscanning => ?_⟩
    cases hw.symm.trans hv
    cases hscanning
  · intro hlate hgoes
    rw [if_neg hlate] at hphase'
    rw [hphase'] at hw'
    exact hgoes _ hw' rfl

/-- Behind the test every scan finds a session. -/
theorem CallIn.run_finds {actions : List (WaitAction K)} {s'' : Waiting K}
    (h : CallIn i w sessionId WaitPhase.Finds s)
    (hkept : Trace.Run (waitStep ticksPerMillisecond)
      (fun t action => ∀ t', waitStep ticksPerMillisecond t action = some t' → Awaited w sessionId t') s actions s'') :
    Trace.Run (waitStep ticksPerMillisecond) (Reexamines ticksPerMillisecond i) s actions s'' :=
  hkept.strengthen (CallIn i w sessionId WaitPhase.Finds)
    (fun _ _ t' ht hok hstep => ht.step_finds hstep (hok t' hstep)) h

/-- A run up to the first test, and from there on. -/
theorem CallIn.run_iff {actions : List (WaitAction K)} {s'' : Waiting K}
    (h : CallIn i w sessionId WaitPhase.BeforeTest s)
    (hkept : Trace.Run (waitStep ticksPerMillisecond)
      (fun t action => ∀ t', waitStep ticksPerMillisecond t action = some t' → Awaited w sessionId t') s actions s'') :
    Trace.Run (waitStep ticksPerMillisecond) (Reexamines ticksPerMillisecond i) s actions s'' ↔
      FirstTestInTime ticksPerMillisecond i s actions := by
  induction hkept with
  | nil s => exact iff_of_true (.nil s) trivial
  | @cons s t s'' action actions hok hstep hrest ih =>
    obtain ⟨phase, hw, hphase⟩ := h.waiter
    rw [FirstTestInTime]
    cases htest : testsLoop i s action with
    | false =>
      obtain ⟨hre, hgoes⟩ := h.step_beforeTest hstep (hok t hstep) htest
      rw [if_neg Bool.false_ne_true]
      constructor
      · rintro (_ | ⟨-, hstep', hrun⟩) t' ht'
        cases hstep'.symm.trans ht'
        cases hstep.symm.trans ht'
        exact (ih hgoes).1 hrun
      · intro hfirst
        exact .cons hre hstep ((ih hgoes).2 (hfirst t hstep))
    | true =>
      obtain ⟨hin, hlate⟩ := h.step_test hstep (hok t hstep) htest
      rw [if_pos rfl]
      constructor
      · rintro (_ | ⟨hre, hstep', -⟩) v hv
        cases hw.symm.trans hv
        by_contra hover
        exact hlate hover (hre t hstep).1
      · intro hfirst
        obtain ⟨hre, hgoes⟩ := hin (hfirst { w with phase := phase } hw)
        exact .cons hre hstep (hgoes.run_finds hrest)

/-- An update gives a registered session the awaited status while the call is blocked, and the session keeps it:
the call never returns false, and its next scan returns a session that has the status, exactly when its time is not
over at the first test of its loop behind the update. -/
theorem update_reexamined (ticksPerMillisecond : Nat) {s s' s'' : Waiting K} {i : Nat} {w : Waiter K}
    {deadline : Option Nat} (hw : s.waiters[i]? = some w) (hblocked : w.phase = .blocked deadline)
    {sessionId : String} {m : K × KeyStatus} {actions : List (WaitAction K)}
    (hupdate : waitStep ticksPerMillisecond s (.update sessionId m) = some s') (hawaited : Awaited w sessionId s')
    (hkept : Trace.Run (waitStep ticksPerMillisecond)
      (fun t action => ∀ t', waitStep ticksPerMillisecond t action = some t' → Awaited w sessionId t') s' actions s'') :
    Trace.Run (waitStep ticksPerMillisecond) (Reexamines ticksPerMillisecond i) s' actions s'' ↔
      FirstTestInTime ticksPerMillisecond i s' actions := by
  refine CallIn.run_iff (w := w) ⟨hawaited, w.phase, waitStep_other hw hupdate nofun, ?_⟩ hkept
  rw [hblocked]
  trivial

end

/-! ## A call of a tenth of a second -/

def awaitedKey : Kid := [1]

/-- One session and one call, begun at time 0. -/
def oneCall (clock : Nat) (keyStatuses : List (ClientKey Kid)) (interested : Nat) (phase : WaitPhase) :
    Waiting Kid where
  clock := clock
  sessionKeys := [("a", ⟨1, keyStatuses⟩)]
  interested := interested
  signalled := false
  updating := false
  waiters := [⟨awaitedKey, .usable, none, 100000, phase⟩]

theorem awaited_usable {s : Waiting Kid} {phase : WaitPhase}
    (h : s.sessionKeys = [("a", ⟨1, [⟨awaitedKey, .usable⟩]⟩)]) :
    Awaited ⟨awaitedKey, .usable, none, 100000, phase⟩ "a" s := by
  refine ⟨⟨1, [⟨awaitedKey, .usable⟩]⟩, ?_, rfl⟩
  rw [h]
  exact List.mem_singleton_self _

/-- Steps of the clock and of the call leave the session its status. -/
theorem awaited_kept {actions : List (WaitAction Kid)} {s s' : Waiting Kid} {phase : WaitPhase}
    (h : Trace.Run (waitStep 1000) (fun t action => ∀ t' ∈ waitStep 1000 t action,
      t'.sessionKeys = [("a", ⟨1, [⟨awaitedKey, .usable⟩]⟩)]) s actions s') :
    Trace.Run (waitStep 1000) (fun t action => ∀ t', waitStep 1000 t action = some t' →
      Awaited ⟨awaitedKey, .usable, none, 100000, phase⟩ "a" t') s actions s' :=
  h.mono fun _ _ hok t' hstep => awaited_usable (hok t' hstep)

/-- Half a millisecond went by before the call was blocked, so its wait ends in time. -/
theorem update_reexamined_early :
    Trace.Run (waitStep 1000) (Reexamines 1000 0) (oneCall 500 [⟨awaitedKey, .usable⟩] 1 (.blocked (some 99500)))
        [.tick 99000, .run 0, .run 0, .run 0, .run 0]
        (oneCall 99500 [⟨awaitedKey, .usable⟩] 0 (.returned (some "a"))) ↔
      FirstTestInTime 1000 0 (oneCall 500 [⟨awaitedKey, .usable⟩] 1 (.blocked (some 99500)))
        [.tick 99000, .run 0, .run 0, .run 0, .run 0] :=
  update_reexamined 1000 (s := oneCall 500 [] 1 (.blocked (some 99500))) (m := (awaitedKey, .usable)) rfl rfl
    (by decide +kernel) (awaited_usable rfl) (awaited_kept (Trace.exec_run (by decide +kernel)))

/-- The update lands while the call is blocked, the wait ends at the call's time, and the call returns false. -/
theorem update_missed :
    ∃ before after s' s'', ∃ w : Waiter Kid, ∃ deadline,
      Trace.Run (waitStep 1000) (fun _ _ => True) .start before (oneCall 0 [] 1 (.blocked (some 100000))) ∧
      (oneCall 0 [] 1 (.blocked (some 100000))).waiters[0]? = some w ∧ w.phase = .blocked deadline ∧
      waitStep 1000 (oneCall 0 [] 1 (.blocked (some 100000))) (.update "a" (awaitedKey, .usable)) = some s' ∧
      Awaited w "a" s' ∧
      Trace.Run (waitStep 1000) (fun t action => ∀ t', waitStep 1000 t action = some t' → Awaited w "a" t') s'
        after s'' ∧
      ¬ NotGivenUp 0 s'' := by
  refine ⟨[.addSession "a" ⟨1, []⟩, .waitForKey awaitedKey 100 .usable none, .run 0, .run 0],
    [.tick 100000, .run 0, .run 0, .run 0], oneCall 0 [⟨awaitedKey, .usable⟩] 1 (.blocked (some 100000)),
    oneCall 100000 [⟨awaitedKey, .usable⟩] 0 (.returned none),
    ⟨awaitedKey, .usable, none, 100000, .blocked (some 100000)⟩, some 100000, ?_, rfl, rfl, ?_,
      awaited_usable rfl, ?_, ?_⟩
  · exact Trace.exec_run (by decide +kernel)
  · decide +kernel
  · exact awaited_kept (Trace.exec_run (by decide +kernel))
  · exact fun h => h _ rfl rfl

end Ocdm.Client
