/-
The sessions of the CDMs behind those of the server (FrameworkRPC.cpp). `CreateSession` takes a session from the
factory of its key system, and the constructor gives it the sink, unless the key system is com.apple.fps; `Remove` takes
the sink away and gives the session back to the factory of the key system. Over any run each session of a CDM goes back
once to the factory it came from, when the session of the server goes, and none keeps the sink of a session that is gone
(`cdm_sessions`).
-/
import Ocdm.Lib.Pairing
import Ocdm.Server.Sessions

namespace Ocdm.Server

namespace Sessions

/-! ## What the CDMs see -/

/-- A session comes from a factory, is run with the sink of a session of the server or without one, and goes back. -/
inductive CdmEvent where
  | created (factory mediaKeySession : Nat)
  | run (mediaKeySession : Nat) (sink : Option Nat)
  | destroyed (factory mediaKeySession : Nat)
deriving DecidableEq, Repr

def Event.cdmEvent : Event → Option CdmEvent
  | .created .. => none
  | .runNull mediaKeySession => some (.run mediaKeySession none)
  | .destroyMediaKeySession factory mediaKeySession => some (.destroyed factory mediaKeySession)

/-- What a call does to the CDMs: `CreateMediaKeySession` and the constructor, or the destructor. -/
def AccessorOCDM.cdmEvents (s : AccessorOCDM) : Call → List CdmEvent
  | .createSession keySystem result sessionInterface =>
    match s.parent.keySystem keySystem, sessionInterface with
    | some factory, some cdm =>
      if result = 0 then
        .created factory cdm.address ::
          if isAppleFps keySystem then [] else [.run cdm.address (some s.constructed)]
      else []
    | _, _ => []
  | .destroy number => (s.destroy number).2.filterMap Event.cdmEvent

def AccessorOCDM.cdmCall (s : AccessorOCDM) (c : Call) : AccessorOCDM × List CdmEvent := ((s.call c).1, s.cdmEvents c)

/-- A run, with what it does to the CDMs. -/
abbrev cdmRun (parent : OCDMImplementation) (calls : List Call) : AccessorOCDM × List CdmEvent :=
  Effects.run AccessorOCDM.cdmCall (start parent) calls

/-! ## Sessions that come and go -/

/-- Sessions by the factory they come from. -/
def CdmEvent.op : CdmEvent → Option (Pairing.Op (Nat × Nat))
  | .created factory mediaKeySession => some (.acquire (factory, mediaKeySession))
  | .run .. => none
  | .destroyed factory mediaKeySession => some (.release (factory, mediaKeySession))

/-- The session of the CDM behind a session of the server. -/
def SessionImplementation.cdmSession (parent : OCDMImplementation) (object : SessionImplementation) :
    Option (Nat × Nat) :=
  (parent.keySystem object.keySystem).map fun factory => (factory, object.mediaKeySession)

/-- How many sessions alive have the session of a CDM. -/
def AccessorOCDM.held (s : AccessorOCDM) (session : Nat × Nat) : Nat :=
  s.objects.countP fun object => object.cdmSession s.parent = some session

/-- The sink a session of a CDM was given last. -/
def sinkAfter (mediaKeySession : Nat) (sink : Option Nat) (events : List CdmEvent) : Option Nat :=
  events.foldl (fun sink e => match e with
    | .run m given => if m = mediaKeySession then given else sink
    | _ => sink) sink

theorem sinkAfter_append (mediaKeySession : Nat) (sink : Option Nat) (es es' : List CdmEvent) :
    sinkAfter mediaKeySession sink (es ++ es') = sinkAfter mediaKeySession (sinkAfter mediaKeySession sink es) es' :=
  List.foldl_append

/-- Erasing the element that is found takes it from a count. -/
theorem countP_eraseP_find {α : Type} {p q : α → Bool} {l : List α} {a : α} (h : l.find? q = some a) :
    l.countP p = (l.eraseP q).countP p + if p a then 1 else 0 := by
  induction l with
  | nil => cases h
  | cons b l ih =>
    rw [List.find?_cons] at h
    cases hb : q b with
    | true =>
      rw [hb] at h
      cases h
      rw [List.eraseP_cons_of_pos hb, List.countP_cons]
    | false =>
      rw [hb] at h
      rw [List.eraseP_cons_of_neg (by rw [hb]; exact Bool.false_ne_true), List.countP_cons, List.countP_cons, ih h]
      omega

section

variable {parent : OCDMImplementation} {s : AccessorOCDM}

/-- A destruction takes the sink away, and gives the session of the CDM back to its factory. -/
theorem destroy_cases (h : Keeps parent s) (number : Nat) :
    s.call (.destroy number) = (s, []) ∧ s.cdmEvents (.destroy number) = [] ∨
    ∃ session factory, s.objects.find? (fun object => object.number = number) = some session ∧
      session.cdmSession s.parent = some (factory, session.mediaKeySession) ∧
      (s.call (.destroy number)).1.parent = s.parent ∧
      (s.call (.destroy number)).1.objects = s.objects.eraseP (fun object => object.number = number) ∧
      s.cdmEvents (.destroy number) =
        [.run session.mediaKeySession none, .destroyed factory session.mediaKeySession] := by
  unfold AccessorOCDM.cdmEvents AccessorOCDM.call
  dsimp only
  unfold AccessorOCDM.destroy
  split
  · exact .inl ⟨rfl, rfl⟩
  · rename_i session hfind
    obtain ⟨factory, hfactory⟩ := Option.isSome_iff_exists.1 (h.resolved session (List.mem_of_find?_eq_some hfind))
    rw [← h.same] at hfactory
    refine .inr ⟨session, factory, hfind, ?_, rfl, rfl, ?_⟩
    · rw [SessionImplementation.cdmSession, hfactory]
      rfl
    · dsimp only [AccessorOCDM.remove]
      rw [hfactory]
      rfl

/-- A construction takes a session from a factory, and runs it with the new sink. -/
theorem createSession_cases (s : AccessorOCDM) (keySystem : Text) (result : UInt32)
    (sessionInterface : Option MediaKeySession) :
    (s.call (.createSession keySystem result sessionInterface)).1 = s ∧
      s.cdmEvents (.createSession keySystem result sessionInterface) = [] ∨
    ∃ (object : SessionImplementation) (factory : Nat), object.number = s.constructed ∧
      object.cdmSession s.parent = some (factory, object.mediaKeySession) ∧
      (s.call (.createSession keySystem result sessionInterface)).1.parent = s.parent ∧
      (s.call (.createSession keySystem result sessionInterface)).1.objects = s.objects ++ [object] ∧
      s.cdmEvents (.createSession keySystem result sessionInterface) =
        .created factory object.mediaKeySession ::
          if isAppleFps object.keySystem then [] else [.run object.mediaKeySession (some object.number)] := by
  unfold AccessorOCDM.cdmEvents AccessorOCDM.call
  dsimp only
  unfold AccessorOCDM.createSession
  cases hfactory : s.parent.keySystem keySystem with
  | none => exact .inl ⟨rfl, rfl⟩
  | some factory =>
    cases sessionInterface with
    | none => exact .inl ⟨rfl, rfl⟩
    | some cdm =>
      dsimp only
      split
      · refine .inr ⟨⟨s.constructed, keySystem, if isAppleFps keySystem then [] else cdm.sessionId, cdm.address⟩,
          factory, rfl, ?_, rfl, rfl, rfl⟩
        rw [SessionImplementation.cdmSession, hfactory]
        rfl
      · exact .inl ⟨rfl, rfl⟩

/-- What a call takes and gives back is what the sessions alive have more or less. -/
theorem call_account (h : Keeps parent s) (c : Call) (session : Nat × Nat) :
    Pairing.outstanding session (s.held session) ((s.cdmEvents c).filterMap CdmEvent.op) =
      some ((s.call c).1.held session) := by
  cases c with
  | createSession keySystem result sessionInterface =>
    rcases createSession_cases s keySystem result sessionInterface with
      ⟨hsame, hevents⟩ | ⟨object, factory, -, hsession, hparent, hobjects, hevents⟩
    · rw [hsame, hevents]
      rfl
    · have hheld : (s.call (.createSession keySystem result sessionInterface)).1.held session =
          s.held session + if (factory, object.mediaKeySession) = session then 1 else 0 := by
        unfold AccessorOCDM.held
        rw [hparent, hobjects, List.countP_append, List.countP_singleton, hsession]
        simp only [Option.some.injEq, decide_eq_true_eq]
      have hops : (s.cdmEvents (.createSession keySystem result sessionInterface)).filterMap CdmEvent.op =
          [.acquire (factory, object.mediaKeySession)] := by
        rw [hevents]
        split <;> rfl
      rw [hheld, hops]
      unfold Pairing.outstanding
      split <;> rfl
  | destroy number =>
    rcases destroy_cases h number with
      ⟨hsame, hevents⟩ | ⟨object, factory, hfind, hsession, hparent, hobjects, hevents⟩
    · rw [hsame, hevents]
      rfl
    · have hheld : s.held session = (s.call (.destroy number)).1.held session +
          if (factory, object.mediaKeySession) = session then 1 else 0 := by
        unfold AccessorOCDM.held
        rw [hparent, hobjects, countP_eraseP_find hfind, hsession]
        simp only [Option.some.injEq, decide_eq_true_eq]
      have hops : (s.cdmEvents (.destroy number)).filterMap CdmEvent.op =
          [.release (factory, object.mediaKeySession)] := by
        rw [hevents]
        rfl
      rw [hheld, hops]
      unfold Pairing.outstanding
      split
      · rw [if_neg (Nat.succ_ne_zero _)]
        rfl
      · rfl

/-! ## Sinks -/

/-- The sink a session of a CDM has is that of a session alive. -/
def Sunk (s : AccessorOCDM) (events : List CdmEvent) : Prop :=
  ∀ m n, sinkAfter m none events = some n → ∃ object ∈ s.objects,
    object.number = n ∧ object.mediaKeySession = m ∧ isAppleFps object.keySystem = false

theorem call_sunk (h : Keeps parent s) {events : List CdmEvent} (hsunk : Sunk s events) (c : Call) :
    Sunk (s.call c).1 (events ++ s.cdmEvents c) := by
  intro m n hsink
  rw [sinkAfter_append] at hsink
  cases c with
  | createSession keySystem result sessionInterface =>
    rcases createSession_cases s keySystem result sessionInterface with
      ⟨hsame, hevents⟩ | ⟨new, factory, -, -, -, hobjects, hevents⟩
    · rw [hevents] at hsink
      rw [hsame]
      exact hsunk m n hsink
    · rw [hobjects]
      have hbefore : sinkAfter m none events = some n → ∃ object ∈ s.objects ++ [new],
          object.number = n ∧ object.mediaKeySession = m ∧ isAppleFps object.keySystem = false := by
        intro hsink
        obtain ⟨object, hobject, hrest⟩ := hsunk m n hsink
        exact ⟨object, List.mem_append_left _ hobject, hrest⟩
      rw [hevents] at hsink
      split at hsink
      · exact hbefore hsink
      · rename_i hfps
        by_cases hm : new.mediaKeySession = m
        · have hlast : some new.number = some n := (if_pos hm).symm.trans hsink
          exact ⟨new, List.mem_append_right _ (List.mem_singleton_self _), Option.some.inj hlast, hm,
            Bool.eq_false_iff.2 hfps⟩
        · exact hbefore ((if_neg hm).symm.trans hsink)
  | destroy number =>
    rcases destroy_cases h number with
      ⟨hsame, hevents⟩ | ⟨gone, factory, hfind, -, -, hobjects, hevents⟩
    · rw [hevents] at hsink
      rw [hsame]
      exact hsunk m n hsink
    · rw [hevents] at hsink
      rw [hobjects]
      by_cases hm : gone.mediaKeySession = m
      · have hlast : none = some n := (if_pos hm).symm.trans hsink
        cases hlast
      · obtain ⟨object, hobject, hn, hsession, hfps⟩ := hsunk m n ((if_neg hm).symm.trans hsink)
        refine ⟨object, (List.mem_eraseP_of_neg fun hnumber => ?_).2 hobject, hn, hsession, hfps⟩
        -- a number is that of one session, and this one is behind another session of a CDM
        have hgone : gone.number = number := of_decide_eq_true
          (List.find?_some (p := fun object : SessionImplementation => decide (object.number = number)) hfind)
        have heq := List.inj_on_of_nodup_map h.nodup hobject (List.mem_of_find?_eq_some hfind)
          ((of_decide_eq_true hnumber).trans hgone.symm)
        exact hm (heq ▸ hsession)

end

/-! ## Whole runs -/

theorem cdmRun_state (parent : OCDMImplementation) (calls : List Call) :
    (cdmRun parent calls).1 = after parent calls :=
  Effects.run_state AccessorOCDM.cdmCall AccessorOCDM.call (fun _ _ => rfl) _ _

/-- For every run: how often a session of a CDM was taken from a factory and not given back to it is how many sessions
alive are behind it; and the sink a session of a CDM was given last is that of a session alive that it is behind. -/
theorem cdm_sessions (parent : OCDMImplementation) (calls : List Call) :
    (∀ session, Pairing.outstanding session 0 ((cdmRun parent calls).2.filterMap CdmEvent.op) =
      some ((after parent calls).held session)) ∧
    ∀ m n, sinkAfter m none (cdmRun parent calls).2 = some n → ∃ object ∈ (after parent calls).objects,
      object.number = n ∧ object.mediaKeySession = m ∧ isAppleFps object.keySystem = false := by
  rw [← cdmRun_state]
  show _ ∧ Sunk _ _
  induction calls using List.reverseRecOn with
  | nil => exact ⟨fun _ => rfl, fun _ _ h => nomatch h⟩
  | append_singleton calls c ih =>
    have hkeeps : Keeps parent (cdmRun parent calls).1 := cdmRun_state parent calls ▸ run_keeps parent calls
    unfold cdmRun at ih hkeeps ⊢
    rw [Effects.run_concat]
    refine ⟨fun session => ?_, call_sunk hkeeps ih.2 c⟩
    rw [List.filterMap_append, Pairing.outstanding_append, ih.1 session, Option.bind_some]
    exact call_account hkeeps c session

end Sessions

end Ocdm.Server
