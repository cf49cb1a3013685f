/-
The end of a server session (FrameworkRPC.cpp): the destructor calls `Remove`, which destroys the CDM
session, and then deletes the `DataExchange`, whose destructor stops the worker. The worker tests
`IsRunning` before each request, but it is told to stop only after the CDM session is gone, so a
request in hand or produced in between still reaches the CDM. In the runs where none is, the worker
makes no call after `DestroyMediaKeySession` (`no_call_after_destroy`).
-/
import Ocdm.Exchange.Fps
import Ocdm.Exchange.Worker
import Ocdm.Lib.Trace

namespace Ocdm.Server

open Exchange (CdmCall passCalls)

namespace Teardown

/-! ## The parties -/

/-- Where the worker is: at the `while` test, in `RequestConsume`, at the test after it, with the calls of
the request at hand left to make, or out of the loop. -/
inductive Worker where
  | check
  | waiting
  | woken
  | calling (calls : List CdmCall)
  | stopped
deriving DecidableEq, Repr

/-- How far the destructor of the session is: in `Remove` the lock is taken, `Run(nullptr)` called, the
CDM session destroyed, the buffer released, the session taken off the list and the lock released; in
the destructor of the `DataExchange` the thread is told to stop, signalled and waited for. -/
inductive Releaser where
  | alive
  | locked
  | halted
  | destroyed
  | released
  | erased
  | unlocked
  | stopping
  | signalled
  | joined
deriving DecidableEq, Repr

/-- Where a client is in an operation on the buffer. -/
inductive Client where
  | idle
  | filling
  | waiting
  | reading
deriving DecidableEq, Repr

/-- What the CDM session sees. -/
inductive CdmEvent where
  | runNull
  | destroy
  | call (c : CdmCall)
deriving DecidableEq, Repr

/-- A session that is torn down, with its clients by their identity. `slot` and `requests` are the
producer's and the consumer's semaphore; `system` says whether the key system is still known. -/
structure Sys (C : Type) where
  system : Bool
  releaser : Releaser
  running : Bool
  worker : Worker
  slot : Nat
  requests : Nat
  clients : C → Client
  log : List CdmEvent

inductive Act (C : Type) where
  /-- the worker's next step; `calls` are those of the request when it starts on one -/
  | worker (calls : List CdmCall)
  /-- the releasing thread's next step -/
  | releaser
  /-- the next step of a client's operation -/
  | client (c : C)
  /-- the second `RequestProduce` of a client fails -/
  | giveUp (c : C)

variable {C : Type} [DecidableEq C]

def Sys.setClient (s : Sys C) (c : C) (p : Client) : Sys C :=
  { s with clients := fun d => if d = c then p else s.clients d }

/-- The worker's loop. That for com.apple.fps has the same steps, with `Decrypt` as the only call
(`workerStep_fpsPass`). -/
def workerStep (s : Sys C) (calls : List CdmCall) : Option (Sys C) :=
  match s.worker with
  | .check => some { s with worker := if s.running then .waiting else .stopped }
  | .waiting => if s.requests > 0 then some { s with requests := s.requests - 1, worker := .woken } else none
  | .woken =>
    -- the only test of `IsRunning` before the call
    if s.running then if calls ∈ passCalls then some { s with worker := .calling calls } else none
    else some { s with worker := .check }
  | .calling (c :: cs) => some { s with log := s.log ++ [.call c], worker := .calling cs }
  | .calling [] => some { s with slot := s.slot + 1, worker := .check }
  | .stopped => none

/-- The destructor of the session. -/
def releaserStep (s : Sys C) : Option (Sys C) :=
  match s.releaser with
  | .alive => some { s with releaser := .locked }
  | .locked => some { s with releaser := .halted, log := s.log ++ [.runNull] }
  | .halted => some { s with releaser := .destroyed, log := if s.system then s.log ++ [.destroy] else s.log }
  | .destroyed => some { s with releaser := .released }
  | .released => some { s with releaser := .erased }
  | .erased => some { s with releaser := .unlocked }
  | .unlocked => some { s with releaser := .stopping, running := false }
  | .stopping => some { s with releaser := .signalled, requests := s.requests + 1 }
  | .signalled => if s.worker = .stopped then some { s with releaser := .joined } else none
  | .joined => none

/-- An operation of a client. -/
def clientStep (s : Sys C) (c : C) : Option (Sys C) :=
  match s.clients c with
  | .idle => if s.slot > 0 then some ({ s with slot := s.slot - 1 }.setClient c .filling) else none
  | .filling => some ({ s with requests := s.requests + 1 }.setClient c .waiting)
  | .waiting => if s.slot > 0 then some ({ s with slot := s.slot - 1 }.setClient c .reading) else none
  | .reading => some ({ s with slot := s.slot + 1 }.setClient c .idle)

def step (s : Sys C) : Act C → Option (Sys C)
  | .worker calls => workerStep s calls
  | .releaser => releaserStep s
  | .client c => clientStep s c
  | .giveUp c =>
    match s.clients c with
    | .waiting => some (s.setClient c .idle)
    | _ => none

omit [DecidableEq C] in
/-- Whatever a pass over the block makes of it, its calls are some that the worker can have here. -/
theorem workerStep_pass {s : Sys C} (hworker : s.worker = .woken) (hrun : s.running = true) (batch : Bool)
    (cdm : Exchange.Cdm) (b : Exchange.Block) :
    workerStep s (Exchange.workerPass batch cdm b).2 =
      some { s with worker := .calling (Exchange.workerPass batch cdm b).2 } := by
  unfold workerStep
  rw [hworker]
  dsimp only
  rw [if_pos hrun, if_pos (Exchange.workerPass_calls batch cdm b)]

omit [DecidableEq C] in
theorem workerStep_fpsPass {s : Sys C} (hworker : s.worker = .woken) (hrun : s.running = true) (memory : Option Nat)
    (cdm : Exchange.FpsCdm) (b : Exchange.Block) :
    let calls := (Exchange.fpsPass memory cdm b).2.filterMap Exchange.FpsEvent.call?
    workerStep s calls = some { s with worker := .calling calls } := by
  intro calls
  unfold workerStep
  rw [hworker]
  dsimp only
  rw [if_pos hrun, if_pos (Exchange.fpsPass_calls memory cdm b)]

/-- A session with its worker running and no request made. -/
def start (system : Bool) : Sys C := ⟨system, .alive, true, .check, 1, 0, fun _ => .idle, []⟩

/-! ## Calls after the end -/

/-- After the CDM session was destroyed the worker calls it no more. -/
def SafeLog (log : List CdmEvent) : Prop := ∀ pre post, log = pre ++ .destroy :: post → ∀ c, .call c ∉ post

/-- No request is in hand or waiting to be consumed. -/
def Sys.Idle (s : Sys C) : Prop := (s.worker = .check ∨ s.worker = .waiting) ∧ s.requests = 0

/-- The CDM session is destroyed with no request in hand or waiting, and no client produces one from
then on until the worker has been told to stop. -/
def StepOK (s : Sys C) : Act C → Prop
  | .releaser => s.releaser = .halted → s.system = true → s.Idle
  | .client c => s.clients c = .filling → CdmEvent.destroy ∈ s.log → s.running = false
  | _ => True

instance (s : Sys C) : Decidable s.Idle := inferInstanceAs (Decidable (_ ∧ _))

instance (s : Sys C) : (a : Act C) → Decidable (StepOK s a)
  | .releaser => inferInstanceAs (Decidable (_ → _ → _))
  | .client _ => inferInstanceAs (Decidable (_ → _ → _))
  | .worker _ => .isTrue trivial
  | .giveUp _ => .isTrue trivial

/-- Once the CDM session is destroyed, the worker has no request in hand, and until it has been told to
stop there is none waiting either. -/
structure Inv (s : Sys C) : Prop where
  safe : SafeLog s.log
  quiet : CdmEvent.destroy ∈ s.log → ∀ calls, s.worker ≠ .calling calls
  idle : CdmEvent.destroy ∈ s.log → s.running = true → s.Idle
  told : s.releaser = .stopping → s.running = false

theorem safeLog_concat {log : List CdmEvent} (h : SafeLog log) {e : CdmEvent}
    (he : CdmEvent.destroy ∈ log → ∀ c, e ≠ .call c) : SafeLog (log ++ [e]) := by
  intro pre post heq c hc
  rcases List.eq_nil_or_concat post with rfl | ⟨post, x, rfl⟩
  · cases hc
  · rw [List.concat_eq_append] at heq hc
    rw [← List.cons_append, ← List.append_assoc] at heq
    obtain ⟨hlog, hx⟩ := List.append_inj' heq rfl
    cases hx
    rcases List.mem_append.1 hc with hc | hc
    · exact h pre post hlog c hc
    · exact he (by rw [hlog]; simp) c (List.mem_singleton.1 hc).symm

omit [DecidableEq C] in
theorem inv_start (system : Bool) : Inv (start system : Sys C) := by
  refine ⟨fun pre post h => ?_, fun h => ?_, fun h => ?_, fun h => ?_⟩
  · cases pre <;> cases h
  · cases h
  · cases h
  · cases h

omit [DecidableEq C] in
theorem workerStep_inv {s s' : Sys C} {calls : List CdmCall} (h : Inv s) (hstep : workerStep s calls = some s') :
    Inv s' := by
  unfold workerStep at hstep
  split at hstep
  · rename_i hw
    cases hstep
    refine ⟨h.safe, fun _ cs => ?_, fun hd hrun => ?_, h.told⟩
    · dsimp only
      split <;> simp
    · obtain ⟨-, hreq⟩ := h.idle hd hrun
      exact ⟨.inr (if_pos hrun), hreq⟩
  · rename_i hw
    split at hstep
    · rename_i hpos
      cases hstep
      refine ⟨h.safe, fun _ _ => nofun, fun hd hrun => ?_, h.told⟩
      obtain ⟨-, hreq⟩ := h.idle hd hrun
      omega
    · cases hstep
  · rename_i hw
    split at hstep
    · rename_i hrun
      split at hstep
      · cases hstep
        -- a destroyed session that is not told to stop has a worker without a request
        have hlive : CdmEvent.destroy ∉ s.log := by
          intro hd
          obtain ⟨hidle, -⟩ := h.idle hd hrun
          rw [hw] at hidle
          rcases hidle with hidle | hidle <;> cases hidle
        exact ⟨h.safe, fun hd => absurd hd hlive, fun hd => absurd hd hlive, h.told⟩
      · cases hstep
    · rename_i hrun
      cases hstep
      exact ⟨h.safe, fun _ _ => nofun, fun _ hrun' => absurd hrun' hrun, h.told⟩
  · -- a request in hand shows that the session is not destroyed yet
    rename_i c cs hw
    cases hstep
    have hlive : CdmEvent.destroy ∉ s.log := fun hd => h.quiet hd _ hw
    have hlive' : CdmEvent.destroy ∉ s.log ++ [.call c] := by simpa using hlive
    exact ⟨safeLog_concat h.safe fun hd => absurd hd hlive, fun hd => absurd hd hlive',
      fun hd => absurd hd hlive', h.told⟩
  · rename_i hw
    cases hstep
    have hlive : CdmEvent.destroy ∉ s.log := fun hd => h.quiet hd _ hw
    exact ⟨h.safe, fun hd => absurd hd hlive, fun hd => absurd hd hlive, h.told⟩
  · cases hstep

omit [DecidableEq C] in
theorem Idle.not_calling {s : Sys C} (h : s.Idle) (calls : List CdmCall) : s.worker ≠ .calling calls := by
  rcases h.1 with hw | hw <;> rw [hw] <;> simp

omit [DecidableEq C] in
theorem releaserStep_inv {s s' : Sys C} (h : Inv s) (hok : StepOK s .releaser) (hstep : releaserStep s = some s') :
    Inv s' := by
  unfold releaserStep at hstep
  split at hstep
  · cases hstep; exact ⟨h.safe, h.quiet, h.idle, nofun⟩
  · cases hstep
    have hmem : CdmEvent.destroy ∈ s.log ++ [.runNull] → CdmEvent.destroy ∈ s.log := fun hd => by simpa using hd
    exact ⟨safeLog_concat h.safe fun _ _ => nofun, fun hd => h.quiet (hmem hd), fun hd => h.idle (hmem hd),
      nofun⟩
  · rename_i hpc
    cases hstep
    cases hsys : s.system with
    | false => exact ⟨h.safe, h.quiet, h.idle, nofun⟩
    | true =>
      have hidle := hok hpc hsys
      exact ⟨safeLog_concat h.safe fun _ _ => nofun, fun _ => Idle.not_calling hidle, fun _ _ => hidle,
        nofun⟩
  · cases hstep; exact ⟨h.safe, h.quiet, h.idle, nofun⟩
  · cases hstep; exact ⟨h.safe, h.quiet, h.idle, nofun⟩
  · cases hstep; exact ⟨h.safe, h.quiet, h.idle, nofun⟩
  · cases hstep; exact ⟨h.safe, h.quiet, fun _ => nofun, fun _ => rfl⟩
  · rename_i hpc
    cases hstep
    refine ⟨h.safe, h.quiet, fun _ hrun => ?_, nofun⟩
    rw [h.told hpc] at hrun
    cases hrun
  · split at hstep
    · cases hstep; exact ⟨h.safe, h.quiet, h.idle, nofun⟩
    · cases hstep
  · cases hstep

theorem clientStep_inv {s s' : Sys C} {c : C} (h : Inv s) (hok : StepOK s (.client c))
    (hstep : clientStep s c = some s') : Inv s' := by
  unfold clientStep at hstep
  split at hstep
  · split at hstep
    · cases hstep; exact ⟨h.safe, h.quiet, h.idle, h.told⟩
    · cases hstep
  · rename_i hc
    cases hstep
    refine ⟨h.safe, h.quiet, fun hd hrun => ?_, h.told⟩
    have hstopped : s.running = false := hok hc hd
    rw [show s.running = true from hrun] at hstopped
    cases hstopped
  · split at hstep
    · cases hstep; exact ⟨h.safe, h.quiet, h.idle, h.told⟩
    · cases hstep
  · cases hstep; exact ⟨h.safe, h.quiet, h.idle, h.told⟩

theorem step_inv {s s' : Sys C} {a : Act C} (h : Inv s) (hok : StepOK s a) (hstep : step s a = some s') : Inv s' := by
  cases a with
  | worker calls => exact workerStep_inv h hstep
  | releaser => exact releaserStep_inv h hok hstep
  | client c => exact clientStep_inv h hok hstep
  | giveUp c =>
    simp only [step] at hstep
    split at hstep
    · cases hstep; exact ⟨h.safe, h.quiet, h.idle, h.told⟩
    · cases hstep

/-- In every run that destroys the CDM session with no request in hand or waiting, and in which no
client produces one from then on until the worker has been told to stop, the worker makes no call
after `DestroyMediaKeySession`. -/
theorem no_call_after_destroy (system : Bool) (acts : List (Act C)) (s : Sys C)
    (h : Trace.Run step StepOK (start system) acts s) : SafeLog s.log :=
  (h.invariant Inv (fun _ _ _ hi hok hstep => step_inv hi hok hstep) (inv_start system)).safe

/-- A request is served, and the session is torn down while the worker waits for the next one. -/
def quietTeardown : List (Act Nat) :=
  [.client 0, .client 0, .worker [], .worker [], .worker [.decrypt], .worker [], .worker [], .client 0, .client 0,
    .worker []] ++ List.replicate 8 .releaser ++ [.worker [], .worker [], .worker [], .releaser]

theorem no_call_after_quiet_teardown : ∃ s : Sys Nat,
    Trace.Run step StepOK (start true) quietTeardown s ∧ s.releaser = .joined ∧ SafeLog s.log := by
  have h : (Trace.exec step StepOK (start true : Sys Nat) quietTeardown).map Sys.releaser = some .joined := by rfl
  obtain ⟨s, hs, hjoined⟩ := Option.map_eq_some_iff.1 h
  have hrun := Trace.exec_run hs
  exact ⟨s, hrun, hjoined, no_call_after_destroy true quietTeardown s hrun⟩

/-- The worker has taken a request when the CDM session is destroyed, and decrypts it then. -/
theorem decrypt_after_destroy : ∃ s : Sys Nat,
    Trace.Run step (fun _ _ => True) (start true)
      [.client 0, .client 0, .worker [], .worker [], .releaser, .releaser, .releaser, .worker [.decrypt],
        .worker []] s ∧
    s.log = [.runNull, .destroy, .call .decrypt] ∧ ¬ SafeLog s.log := by
  have h : (Trace.exec step (fun _ _ => True) (start true : Sys Nat)
      [.client 0, .client 0, .worker [], .worker [], .releaser, .releaser, .releaser, .worker [.decrypt],
        .worker []]).map
        Sys.log = some [.runNull, .destroy, .call .decrypt] := by rfl
  obtain ⟨s, hs, hlog⟩ := Option.map_eq_some_iff.1 h
  refine ⟨s, Trace.exec_run hs, hlog, fun hsafe => ?_⟩
  exact hsafe [.runNull] [.call .decrypt] hlog .decrypt (List.mem_singleton.2 rfl)

end Teardown

end Ocdm.Server
