/-
The end of a client session against the events of the CDM (open_cdm_impl.h, open_cdm_impl.cpp,
FrameworkRPC.cpp). The destructor of `OpenCDMSession` asks the server to `Revoke` its sink, and is then
free to go. The server's `Sink` tests `_callback` and reads it again for the call, and `Revoke` releases
it before it sets it to null, without a lock in either; nor does `Revoke` wait for a call on its way to
the client. When no event meets the end of the session every event reaches the client's session once,
while it is there (`quiet_delivered`); from any state in which the session is in use an event can also
reach it when it is gone (`late_reachable`).
-/
import Ocdm.Lib.Refine
import Ocdm.Session.Sink
import Mathlib.Logic.Function.Basic

namespace Ocdm.Session.Revocation

/-! ## The parties -/

/-- The handlers of the server's `Sink`. -/
inductive Handler where
  | onKeyMessage
  | onError
  | onKeyStatusUpdate
  | onKeyStatusesUpdated
deriving DecidableEq, Repr

/-- Whether a handler asks for the callback before the call. -/
def Handler.tests : Handler → Bool
  | .onKeyStatusesUpdated => false
  | _ => true

/-- Where a thread of the CDM is: in no handler, before the call through `_callback`, or in the call, which the client
has not run yet. -/
inductive Stage where
  | idle
  | calling (h : Handler)
  | sent (h : Handler)
deriving DecidableEq, Repr

/-- Where the client's session is: in use, in `Revoke` before its test, before `Release`, before `_callback` is set to
null, behind `Revoke`, or gone. -/
inductive Life where
  | alive
  | revoking
  | releasing
  | clearing
  | revoked
  | gone
deriving DecidableEq, Repr

inductive Event (T : Type) where
  /-- a handler goes on to its call -/
  | raised (t : T) (h : Handler)
  /-- a call through a null pointer, and one through a pointer that was released -/
  | nullCall (t : T) (h : Handler)
  | danglingCall (t : T) (h : Handler)
  /-- a call runs on the client's session -/
  | delivered (t : T) (h : Handler) (alive : Bool)
deriving DecidableEq, Repr

/-- `_callback` of the server's sink, whether it was released, the threads, and the client's session. -/
structure Sys (T : Type) where
  callback : Bool
  released : Bool
  threads : T → Stage
  life : Life
  log : List (Event T)

inductive Act (T : Type) where
  /-- the CDM raises an event -/
  | raise (t : T) (h : Handler)
  /-- the next step of the handler a thread is in -/
  | thread (t : T)
  /-- the next step of the destructor of the client's session -/
  | client
deriving DecidableEq, Repr

variable {T : Type} [DecidableEq T]

def Sys.goTo (s : Sys T) (t : T) (stage : Stage) (events : List (Event T)) : Sys T :=
  { s with threads := Function.update s.threads t stage, log := s.log ++ events }

def raiseStep (s : Sys T) (t : T) (h : Handler) : Option (Sys T) :=
  match s.threads t with
  | .idle => if h.tests = false ∨ s.callback then some (s.goTo t (.calling h) [.raised t h]) else some s
  | _ => none

def threadStep (s : Sys T) (t : T) : Option (Sys T) :=
  match s.threads t with
  | .idle => none
  | .calling h =>
    -- the second look at `_callback`
    if s.callback = false then some (s.goTo t .idle [.nullCall t h])
    else if s.released then some (s.goTo t .idle [.danglingCall t h])
    else some (s.goTo t (.sent h) [])
  | .sent h => some (s.goTo t .idle [.delivered t h (s.life ≠ .gone)])

/-- The destructor calls `Revoke` of the server, and goes on when it has returned. -/
def clientStep (s : Sys T) : Option (Sys T) :=
  match s.life with
  | .alive => some { s with life := .revoking }
  | .revoking => some { s with life := if s.callback then .releasing else .revoked }
  | .releasing => some { s with released := true, life := .clearing }
  | .clearing => some { s with callback := false, life := .revoked }
  | .revoked => some { s with life := .gone }
  | .gone => none

def step (s : Sys T) : Act T → Option (Sys T)
  | .raise t h => raiseStep s t h
  | .thread t => threadStep s t
  | .client => clientStep s

/-- A session that was created with a callback. -/
def start : Sys T := ⟨true, false, fun _ => .idle, .alive, []⟩

/-- A run in any order of steps. -/
abbrev Runs (acts : List (Act T)) (s : Sys T) : Prop := Trace.Run step (fun _ _ => True) start acts s

/-! ## Runs in which no event meets the end -/

/-- `Revoke` releases the callback while no handler is before its call, no event is raised until it is null nor an
`OnKeyStatusesUpdated` afterwards, and the session goes while no call is on its way. -/
def Quiet (s : Sys T) : Act T → Prop
  | .raise _ h => s.life ≠ .clearing ∧ (h.tests = false → s.callback = true)
  | .thread _ => True
  | .client => (s.life = .releasing → ∀ t h, s.threads t ≠ .calling h) ∧
      (s.life = .revoked → ∀ t h, s.threads t ≠ .sent h)

/-- Calls that go wrong. -/
def Event.wrong : Event T → Bool
  | .nullCall _ _ => true
  | .danglingCall _ _ => true
  | .delivered _ _ alive => !alive
  | .raised _ _ => false

/-- How often a thread raised an event, and how often one of its calls ran on the client's session. -/
def raisedBy (t : T) (log : List (Event T)) : Nat := log.countP fun
  | .raised u _ => u = t
  | _ => false

def deliveredFor (t : T) (log : List (Event T)) : Nat := log.countP fun
  | .delivered u _ _ => u = t
  | _ => false

/-- How many of its events a thread has in hand. -/
def Stage.inHand : Stage → Nat
  | .idle => 0
  | _ => 1

structure Inv (s : Sys T) : Prop where
  /-- the callback is there until it is cleared, and the session until it is gone -/
  callback : s.callback = true ↔ s.life ≠ .revoked ∧ s.life ≠ .gone
  released : s.released = true ↔ s.life = .clearing ∨ s.life = .revoked ∨ s.life = .gone
  /-- a handler before its call has a callback that was not released -/
  calling : ∀ t h, s.threads t = .calling h → s.callback = true ∧ s.released = false
  sent : ∀ t h, s.threads t = .sent h → s.life ≠ .gone
  right : ∀ e ∈ s.log, e.wrong = false
  counts : ∀ t, raisedBy t s.log = deliveredFor t s.log + (s.threads t).inHand

theorem inv_start : Inv (start : Sys T) :=
  ⟨by simp [start], by simp [start], nofun, nofun, nofun, fun _ => rfl⟩

/-- A thread goes from one stage to another with an event that is not wrong, in which it raises what it then has in
hand, or delivers what it had. -/
theorem Inv.goTo {s : Sys T} (hs : Inv s) {t : T} {stage : Stage} {events : List (Event T)}
    (hcalling : ∀ h, stage = .calling h → s.callback = true ∧ s.released = false)
    (hsent : ∀ h, stage = .sent h → s.life ≠ .gone) (hright : ∀ e ∈ events, e.wrong = false)
    (hcounts : raisedBy t events + (s.threads t).inHand = deliveredFor t events + stage.inHand)
    (hothers : ∀ u, u ≠ t → raisedBy u events = 0 ∧ deliveredFor u events = 0) : Inv (s.goTo t stage events) := by
  refine ⟨hs.callback, hs.released, fun u h hu => ?_, fun u h hu => ?_, fun e he => ?_, fun u => ?_⟩
  · by_cases hut : u = t
    · subst hut
      exact hcalling h ((Function.update_self ..).symm.trans hu)
    · exact hs.calling u h ((Function.update_of_ne hut ..).symm.trans hu)
  · by_cases hut : u = t
    · subst hut
      exact hsent h ((Function.update_self ..).symm.trans hu)
    · exact hs.sent u h ((Function.update_of_ne hut ..).symm.trans hu)
  · rcases List.mem_append.1 he with he | he
    · exact hs.right e he
    · exact hright e he
  · have hbefore := hs.counts u
    show raisedBy u (s.log ++ events) = deliveredFor u (s.log ++ events) + (Function.update s.threads t stage u).inHand
    unfold raisedBy deliveredFor at *
    rw [List.countP_append, List.countP_append]
    by_cases hut : u = t
    · subst hut
      rw [Function.update_self]
      omega
    · obtain ⟨hraised, hdelivered⟩ := hothers u hut
      rw [Function.update_of_ne hut, hraised, hdelivered]
      exact hbefore

theorem raise_inv {s s' : Sys T} {t : T} {h : Handler} (hs : Inv s) (hquiet : Quiet s (.raise t h))
    (hstep : raiseStep s t h = some s') : Inv s' := by
  unfold raiseStep at hstep
  split at hstep
  · rename_i hidle
    split at hstep
    · rename_i hgoes
      obtain rfl := Option.some.inj hstep
      have hcallback : s.callback = true := hgoes.elim hquiet.2 id
      have hthere := hs.callback.1 hcallback
      have hreleased : s.released = false := Bool.eq_false_iff.2 fun hreleased => by
        rcases hs.released.1 hreleased with h | h | h
        · exact hquiet.1 h
        · exact hthere.1 h
        · exact hthere.2 h
      refine hs.goTo (fun _ _ => ⟨hcallback, hreleased⟩) nofun (by simp [Event.wrong]) ?_ fun u hut => ?_
      · rw [hidle]; simp [raisedBy, deliveredFor, Stage.inHand]
      · simp [raisedBy, deliveredFor, hut.symm]
    · obtain rfl := Option.some.inj hstep
      exact hs
  · cases hstep

theorem thread_inv {s s' : Sys T} {t : T} (hs : Inv s) (hstep : threadStep s t = some s') : Inv s' := by
  unfold threadStep at hstep
  split at hstep
  · cases hstep
  · rename_i h hcalling
    obtain ⟨hcallback, hreleased⟩ := hs.calling t h hcalling
    rw [if_neg (by rw [hcallback]; nofun), if_neg (by rw [hreleased]; nofun)] at hstep
    obtain rfl := Option.some.inj hstep
    refine hs.goTo nofun (fun _ _ => (hs.callback.1 hcallback).2) nofun ?_ fun _ _ => ⟨rfl, rfl⟩
    rw [hcalling]
    rfl
  · rename_i h hsent
    obtain rfl := Option.some.inj hstep
    have halive := hs.sent t h hsent
    refine hs.goTo nofun nofun ?_ ?_ fun u hut => ?_
    · simp [Event.wrong, halive]
    · rw [hsent]; simp [raisedBy, deliveredFor, Stage.inHand]
    · simp [raisedBy, deliveredFor, hut.symm]

theorem client_inv {s s' : Sys T} (hs : Inv s) (hquiet : Quiet s .client) (hstep : clientStep s = some s') :
    Inv s' := by
  obtain ⟨hcallback, hreleased, hcalling, hsent, hright, hcounts⟩ := hs
  unfold clientStep at hstep
  split at hstep
  · rename_i hlife
    obtain rfl := Option.some.inj hstep
    rw [hlife] at hcallback hreleased hsent
    exact ⟨by simpa using hcallback, by simpa using hreleased, hcalling, fun _ _ _ => nofun, hright, hcounts⟩
  · rename_i hlife
    rw [hlife] at hcallback hreleased
    have hthere : s.callback = true := hcallback.2 ⟨nofun, nofun⟩
    rw [if_pos hthere] at hstep
    obtain rfl := Option.some.inj hstep
    exact ⟨by simpa using hcallback, by simpa using hreleased, hcalling, fun _ _ _ => nofun, hright, hcounts⟩
  · rename_i hlife
    obtain rfl := Option.some.inj hstep
    rw [hlife] at hcallback
    refine ⟨by simpa using hcallback, by simp, fun t h ht => ?_, fun _ _ _ => nofun, hright, hcounts⟩
    exact absurd ht (hquiet.1 hlife t h)
  · rename_i hlife
    obtain rfl := Option.some.inj hstep
    rw [hlife] at hreleased
    have hgone : s.released = true := hreleased.2 (.inl rfl)
    refine ⟨by simp, by simpa using hreleased, fun t h ht => ?_, fun _ _ _ => nofun, hright, hcounts⟩
    cases hgone.symm.trans (hcalling t h ht).2
  · rename_i hlife
    obtain rfl := Option.some.inj hstep
    rw [hlife] at hcallback hreleased
    refine ⟨by simpa using hcallback, by simpa using hreleased, hcalling, fun t h ht => ?_, hright, hcounts⟩
    exact absurd ht (hquiet.2 hlife t h)
  · cases hstep

theorem step_inv {s s' : Sys T} {a : Act T} (hs : Inv s) (hquiet : Quiet s a) (hstep : step s a = some s') :
    Inv s' := by
  cases a with
  | raise t h => exact raise_inv hs hquiet hstep
  | thread t => exact thread_inv hs hstep
  | client => exact client_inv hs hquiet hstep

/-- In every run in which no event meets the end of the session, no call goes through a null or released callback, and
of every thread each event it raised has run once on the client's session, while that was there, or is in hand. -/
theorem quiet_delivered {acts : List (Act T)} {s : Sys T} (h : Trace.Run step Quiet start acts s) :
    (∀ e ∈ s.log, e.wrong = false) ∧
    ∀ t, raisedBy t s.log = deliveredFor t s.log + (s.threads t).inHand := by
  have hinv := h.invariant Inv (fun _ _ _ hs hok hstep => step_inv hs hok hstep) inv_start
  exact ⟨hinv.right, hinv.counts⟩

/-- An event is delivered, and then the destructor runs to its end. -/
theorem quiet_delivered_once : ∃ s : Sys Unit, s.life = .gone ∧ deliveredFor () s.log = 1 ∧
    (∀ e ∈ s.log, e.wrong = false) ∧ ∀ t, raisedBy t s.log = deliveredFor t s.log + (s.threads t).inHand := by
  have hrun : Trace.Run step Quiet (start : Sys Unit)
      [.raise () .onError, .thread (), .thread (), .client, .client, .client, .client, .client]
      ⟨false, true, fun _ => .idle, .gone, [.raised () .onError, .delivered () .onError true]⟩ :=
    .cons ⟨nofun, nofun⟩ rfl (.cons trivial rfl (.cons trivial rfl (.cons ⟨nofun, nofun⟩ rfl
      (.cons ⟨nofun, nofun⟩ rfl (.cons ⟨fun _ _ _ => nofun, nofun⟩ rfl (.cons ⟨nofun, nofun⟩ rfl
        (.cons ⟨nofun, fun _ _ _ => nofun⟩ rfl (.nil _))))))))
  exact ⟨_, rfl, rfl, quiet_delivered hrun⟩

/-! ## An event at the end -/

/-- The threads of the CDM leave the callback and the session alone. -/
theorem raise_frame {s s' : Sys T} {t : T} {h : Handler} (hstep : raiseStep s t h = some s') :
    s'.life = s.life ∧ s'.callback = s.callback ∧ s'.released = s.released := by
  unfold raiseStep at hstep
  split at hstep
  · split at hstep <;> obtain rfl := Option.some.inj hstep <;> exact ⟨rfl, rfl, rfl⟩
  · cases hstep

theorem thread_frame {s s' : Sys T} {t : T} (hstep : threadStep s t = some s') :
    s'.life = s.life ∧ s'.callback = s.callback ∧ s'.released = s.released := by
  unfold threadStep at hstep
  split at hstep
  · cases hstep
  · split at hstep
    · obtain rfl := Option.some.inj hstep; exact ⟨rfl, rfl, rfl⟩
    · split at hstep <;> obtain rfl := Option.some.inj hstep <;> exact ⟨rfl, rfl, rfl⟩
  · obtain rfl := Option.some.inj hstep; exact ⟨rfl, rfl, rfl⟩

omit [DecidableEq T] in
/-- The destructor does not lead back to a session in use. -/
theorem client_not_alive {s s' : Sys T} (hstep : clientStep s = some s') : s'.life ≠ .alive := by
  unfold clientStep at hstep
  split at hstep
  · obtain rfl := Option.some.inj hstep; nofun
  · obtain rfl := Option.some.inj hstep
    show (if s.callback = true then Life.releasing else .revoked) ≠ .alive
    split <;> nofun
  · obtain rfl := Option.some.inj hstep; nofun
  · obtain rfl := Option.some.inj hstep; nofun
  · obtain rfl := Option.some.inj hstep; nofun
  · cases hstep

theorem runs_alive {acts : List (Act T)} {s : Sys T} (h : Runs acts s) :
    s.life = .alive → s.callback = true ∧ s.released = false := by
  refine h.invariant (fun s => s.life = .alive → s.callback = true ∧ s.released = false)
    (fun s a s' hs _ hstep => ?_) fun _ => ⟨rfl, rfl⟩
  have hframe : s'.life = s.life ∧ s'.callback = s.callback ∧ s'.released = s.released →
      s'.life = .alive → s'.callback = true ∧ s'.released = false := by
    rintro ⟨hlife, hcallback, hreleased⟩
    rw [hlife, hcallback, hreleased]
    exact hs
  cases a with
  | raise t h => exact hframe (raise_frame hstep)
  | thread t => exact hframe (thread_frame hstep)
  | client => exact fun hlife => absurd hlife (client_not_alive hstep)

/-- Every run in which the session is in use, and some thread is in no handler, can go on so that an event of this
thread calls through a null callback, and so that it runs on a session that is gone. -/
theorem late_reachable {acts : List (Act T)} {s : Sys T} (h : Runs acts s) (hlife : s.life = .alive) (t : T)
    (ht : s.threads t = .idle) (handler : Handler) :
    (∃ more s', Runs (acts ++ more) s' ∧ .nullCall t handler ∈ s'.log) ∧
    ∃ more s', Runs (acts ++ more) s' ∧ .delivered t handler false ∈ s'.log := by
  obtain ⟨hcallback, hreleased⟩ := runs_alive h hlife
  have hgo : ∀ {more s'} , Trace.exec step (fun _ _ => True) s more = some s' → Runs (acts ++ more) s' :=
    fun hexec => h.append (Trace.exec_run hexec)
  constructor
  · -- `Revoke` comes between the test and the call
    have : ∃ s', Trace.exec step (fun _ _ => True) s
        [.raise t handler, .client, .client, .client, .client, .thread t] = some s' ∧ .nullCall t handler ∈ s'.log := by
      simp [Trace.exec, step, raiseStep, threadStep, clientStep, Sys.goTo, ht, hlife, hcallback]
    obtain ⟨s', hexec, hlog⟩ := this
    exact ⟨_, s', hgo hexec, hlog⟩
  · -- the destructor ends between the call and its arrival
    have : ∃ s', Trace.exec step (fun _ _ => True) s
        [.raise t handler, .thread t, .client, .client, .client, .client, .client, .thread t] = some s' ∧
        .delivered t handler false ∈ s'.log := by
      simp [Trace.exec, step, raiseStep, threadStep, clientStep, Sys.goTo, ht, hlife, hcallback, hreleased]
    obtain ⟨s', hexec, hlog⟩ := this
    exact ⟨_, s', hgo hexec, hlog⟩

theorem late_reachable_start : (∃ more s', Runs ([] ++ more) s' ∧ .nullCall () .onKeyMessage ∈ s'.log) ∧
    ∃ more s', Runs ([] ++ more) s' ∧ .delivered () .onKeyMessage false ∈ s'.log :=
  late_reachable (.nil start) rfl () rfl .onKeyMessage

end Ocdm.Session.Revocation
