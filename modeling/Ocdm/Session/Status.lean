/-
Key statuses at both ends of a session (FrameworkRPC.cpp, open_cdm_impl.h). The CDM's events update
the server's key list and are then called back to the client, one event at a time; `CreateSession`
calls back a pending status for every key of the init data, after the CDM session is running. What the
client will hold once all callbacks are delivered is what the server holds, as long as no pending status
is called back for a key that the CDM has already reported and called back (`statuses_agree`).
-/
import Ocdm.Cenc.Adds
import Ocdm.Lib.Trace

namespace Ocdm.Session

open Thunder (same)
open Cenc (KeyId updateKeyStatus)

/-! ## The two lists -/

/-- The status of `Sink::OnKeyStatusUpdate` for a message of the CDM. -/
def statusOfMessage (keyMessage : String) : KeyStatus :=
  if keyMessage = "KeyUsable" then .usable
  else if keyMessage = "KeyReleased" then .released
  else if keyMessage = "KeyExpired" then .expired
  else if keyMessage = "KeyOutputRestricted" then .outputRestricted
  else if keyMessage = "KeyOutputDownscaled" then .outputDownscaled
  else if keyMessage = "SEC_RESULT_HW_FAILURE" then .hwError
  else if keyMessage = "KeyOutputRestrictedHDCP22" then .outputRestrictedHDCP22
  else .internalError

/-- An `Exchange::KeyId` in the client's list. -/
structure ClientKey (K : Type) where
  id : K
  status : KeyStatus
deriving DecidableEq, Repr

section

variable {K : Type} [Thunder K]

/-- The status the server's list holds for a key; `statusOf` asks for a valid key first. -/
def heldStatus (keys : List (KeyId K)) (key : K) : KeyStatus :=
  match keys.find? fun e => same e.id key with
  | some e => e.status
  | none => .statusPending

/-- `OpenCDMSession::OnKeyStatusUpdate` on the client's list. -/
def onKeyStatusUpdate (keyStatuses : List (ClientKey K)) (m : K × KeyStatus) : List (ClientKey K) :=
  Upsert.upsert (fun e => same e.id m.1) (fun e => { e with status := m.2 }) ⟨m.1, m.2⟩ keyStatuses

/-- `OpenCDMSession::Status` -/
def clientStatus (keyStatuses : List (ClientKey K)) (key : K) : KeyStatus :=
  match keyStatuses.find? fun e => same e.id key with
  | some e => e.status
  | none => .statusPending

theorem heldStatus_of_pending {keys : List (KeyId K)} (h : Cenc.Pending keys) (key : K) :
    heldStatus keys key = .statusPending := by
  unfold heldStatus
  split
  · rename_i e he
    exact h e (List.mem_of_find?_eq_some he)
  · rfl

section

variable (hr : Upsert.Equiv (same (K := K)))

include hr

/-- An update changes the status of the keys equal to its own. -/
theorem heldStatus_update (keys : List (KeyId K)) (status : KeyStatus) (key : KeyId K) (k : K) :
    heldStatus (updateKeyStatus keys status key).1 k = if same key.id k then status else heldStatus keys k := by
  have h := Upsert.find?_upsert hr KeyId.id (f := fun e : KeyId K => { e with status := status })
    (fun _ => rfl) { key with status := status } keys k
  unfold heldStatus
  show (match (Upsert.upsert (fun e => same e.id key.id) _ _ keys).find? fun e => same e.id k with
    | some e => e.status
    | none => KeyStatus.statusPending) = _
  rw [show (Upsert.upsert (fun e => same e.id key.id) _ _ keys).find? _ = _ from h]
  dsimp only
  cases same key.id k with
  | true => cases keys.find? fun e => same e.id key.id <;> rfl
  | false => rfl

theorem heldStatus_congr {keys : List (KeyId K)} {a b : K} (h : same a b = true) :
    heldStatus keys a = heldStatus keys b := by
  have hp : (fun e : KeyId K => same e.id a) = fun e => same e.id b := by
    funext e
    rw [hr.symm e.id a, hr.congr h, hr.symm]
  unfold heldStatus
  rw [hp]

/-- The entry `UpdateKeyStatus` returns is for an equal key. -/
theorem updateKeyStatus_entry (keys : List (KeyId K)) (status : KeyStatus) (key : KeyId K) :
    same (updateKeyStatus keys status key).2.id key.id = true := by
  unfold updateKeyStatus
  dsimp only
  split
  · rename_i e he
    have hsame := List.find?_some he
    exact hsame
  · exact hr.refl _

theorem clientStatus_update (keyStatuses : List (ClientKey K)) (m : K × KeyStatus) (k : K) :
    clientStatus (onKeyStatusUpdate keyStatuses m) k = if same m.1 k then m.2 else clientStatus keyStatuses k := by
  have h := Upsert.find?_upsert hr ClientKey.id (f := fun e : ClientKey K => { e with status := m.2 })
    (fun _ => rfl) ⟨m.1, m.2⟩ keyStatuses k
  unfold clientStatus onKeyStatusUpdate
  rw [show (Upsert.upsert (fun e => same e.id m.1) _ _ keyStatuses).find? _ = _ from h]
  dsimp only
  cases same m.1 k with
  | true => cases keyStatuses.find? fun e => same e.id m.1 <;> rfl
  | false => rfl

end

/-! ## Creating a session -/

/-- Where `CreateSession` is: before `Run`, at the loop with the keys left to announce, or done. -/
inductive Phase (K : Type) where
  | constructing
  | announcing (rest : List K)
  | returned
deriving DecidableEq, Repr

/-- The CDM session is running. -/
def Phase.running {K : Type} : Phase K → Bool
  | .constructing => false
  | _ => true

/-- A session at both ends: the server's key list, the CDM's event that has updated it and is not yet
called back, the callbacks in flight, oldest first, and the client's list. -/
structure Sys (K : Type) where
  phase : Phase K
  keys : List (KeyId K)
  raised : Option (K × KeyStatus)
  flight : List (K × KeyStatus)
  keyStatuses : List (ClientKey K)

inductive Act (K : Type) where
  /-- `IMediaKeySession::Run` -/
  | run
  /-- the CDM calls `OnKeyStatusUpdate`: the server's list is updated -/
  | event (keyMessage : String) (key : K)
  /-- the callback of that event -/
  | callback
  /-- one pass of the loop of `CreateSession` -/
  | announce
  /-- the loop is over -/
  | finish
  /-- the client takes the oldest callback -/
  | deliver

def step (s : Sys K) : Act K → Option (Sys K)
  | .run =>
    match s.phase with
    | .constructing => some { s with phase := .announcing (s.keys.map KeyId.id) }
    | _ => none
  | .event keyMessage key =>
    match s.raised with
    | none =>
      if s.phase.running then
        let status := statusOfMessage keyMessage
        let r := updateKeyStatus s.keys status { id := key, systems := Cenc.SystemType.common.mask }
        some { s with keys := r.1, raised := some (r.2.id, status) }
      else none
    | some _ => none
  | .callback => s.raised.map fun m => { s with raised := none, flight := s.flight ++ [m] }
  | .announce =>
    match s.phase with
    | .announcing (key :: rest) =>
      some { s with phase := .announcing rest, flight := s.flight ++ [(key, .statusPending)] }
    | _ => none
  | .finish =>
    match s.phase with
    | .announcing [] => some { s with phase := .returned }
    | _ => none
  | .deliver =>
    match s.flight with
    | m :: rest => some { s with flight := rest, keyStatuses := onKeyStatusUpdate s.keyStatuses m }
    | [] => none

/-- A session whose init data gave `keys`. -/
def start (keys : List (KeyId K)) : Sys K := ⟨.constructing, keys, none, [], []⟩

/-- `CreateSession` has returned and no callback is in flight. -/
def Sys.Quiet (s : Sys K) : Prop := s.phase = .returned ∧ s.raised = none ∧ s.flight = []

/-- What the client holds once the callbacks in flight are delivered. -/
def Sys.drained (s : Sys K) : List (ClientKey K) := s.flight.foldl onKeyStatusUpdate s.keyStatuses

/-- A pending status is called back only for a key that is still pending at the server, or that the
CDM's event not yet called back is for. -/
def AnnounceOK (s : Sys K) : Act K → Prop
  | .announce => ∀ key rest, s.phase = .announcing (key :: rest) →
      heldStatus s.keys key = .statusPending ∨ ∃ m, s.raised = some m ∧ same m.1 key = true
  | _ => True

/-- What the client will hold for a key is what the server holds, or what the event not yet called
back will make of it. -/
def Agrees (s : Sys K) : Prop :=
  ∀ k, match s.raised with
    | some m => heldStatus s.keys k = if same m.1 k then m.2 else clientStatus s.drained k
    | none => heldStatus s.keys k = clientStatus s.drained k

theorem agrees_start {keys : List (KeyId K)} (h : Cenc.Pending keys) : Agrees (start keys) :=
  fun k => heldStatus_of_pending h k

section

variable (hr : Upsert.Equiv (same (K := K)))

include hr

/-- Appending a callback decides what the client will hold for its key. -/
theorem clientStatus_drained_concat (s : Sys K) (m : K × KeyStatus) (k : K) :
    clientStatus ((s.flight ++ [m]).foldl onKeyStatusUpdate s.keyStatuses) k =
      if same m.1 k then m.2 else clientStatus s.drained k := by
  rw [List.foldl_append]
  exact clientStatus_update hr s.drained m k

/-- An update raised makes of its key what the callback will make of it. -/
theorem Agrees.raise {s : Sys K} (h : Agrees s) (hraised : s.raised = none) (status : KeyStatus) (key : KeyId K) :
    Agrees { s with
      keys := (updateKeyStatus s.keys status key).1
      raised := some ((updateKeyStatus s.keys status key).2.id, status) } := by
  intro k
  have hk := h k
  rw [hraised] at hk
  show heldStatus (updateKeyStatus s.keys status key).1 k =
    if same (updateKeyStatus s.keys status key).2.id k then status else clientStatus s.drained k
  rw [heldStatus_update hr, hr.congr (updateKeyStatus_entry hr s.keys status key) k, hk]

theorem Agrees.callback {s : Sys K} (h : Agrees s) {m : K × KeyStatus} (hm : s.raised = some m) :
    Agrees { s with raised := none, flight := s.flight ++ [m] } := by
  intro k
  have hk := h k
  rw [hm] at hk
  show heldStatus s.keys k = clientStatus ((s.flight ++ [m]).foldl onKeyStatusUpdate s.keyStatuses) k
  rw [clientStatus_drained_concat hr]
  exact hk

/-- Announcing a key that is pending at the server changes nothing for it. -/
theorem Agrees.announce_pending {s : Sys K} (h : Agrees s) {key : K} (hpend : heldStatus s.keys key = .statusPending)
    (phase : Phase K) : Agrees { s with phase := phase, flight := s.flight ++ [(key, .statusPending)] } := by
  intro k
  have hk := h k
  show match s.raised with
    | some m => heldStatus s.keys k = if same m.1 k then m.2 else clientStatus (List.foldl _ _ _) k
    | none => heldStatus s.keys k = clientStatus (List.foldl _ _ _) k
  rw [clientStatus_drained_concat hr s (key, .statusPending) k]
  cases hsame : same key k with
  | true =>
    have hkp : heldStatus s.keys k = .statusPending := by rw [← heldStatus_congr hr hsame]; exact hpend
    cases hraised : s.raised with
    | none => exact hkp
    | some m =>
      rw [hraised] at hk
      dsimp only at hk ⊢
      cases hmk : same m.1 k with
      | true => rw [hmk] at hk; exact hk
      | false => exact hkp
  | false => exact hk

/-- Announcing a key is made good by the callback of an event for it. -/
theorem Agrees.announce_raised {s : Sys K} (h : Agrees s) {key : K} {m : K × KeyStatus} (hm : s.raised = some m)
    (hmk : same m.1 key = true) (phase : Phase K) :
    Agrees { s with phase := phase, flight := s.flight ++ [(key, .statusPending)] } := by
  intro k
  have hk := h k
  show match s.raised with
    | some m => heldStatus s.keys k = if same m.1 k then m.2 else clientStatus (List.foldl _ _ _) k
    | none => heldStatus s.keys k = clientStatus (List.foldl _ _ _) k
  rw [clientStatus_drained_concat hr s (key, .statusPending) k]
  rw [hm] at hk ⊢
  dsimp only at hk ⊢
  rw [hk]
  cases hmk' : same m.1 k with
  | true => rfl
  | false =>
    have hsame : same key k = false := by rw [← hr.congr hmk k]; exact hmk'
    rw [hsame]; rfl

omit hr in
theorem Agrees.deliver {s : Sys K} (h : Agrees s) {m : K × KeyStatus} {rest : List (K × KeyStatus)}
    (hflight : s.flight = m :: rest) :
    Agrees { s with flight := rest, keyStatuses := onKeyStatusUpdate s.keyStatuses m } := by
  intro k
  have hk := h k
  have hdrain : s.drained = rest.foldl onKeyStatusUpdate (onKeyStatusUpdate s.keyStatuses m) := by
    unfold Sys.drained
    rw [hflight]
    rfl
  rw [hdrain] at hk
  exact hk

theorem step_agrees {s s' : Sys K} {a : Act K} (h : Agrees s) (hok : AnnounceOK s a) (hstep : step s a = some s') :
    Agrees s' := by
  cases a with
  | run =>
    simp only [step] at hstep
    split at hstep
    · cases hstep; exact h
    · cases hstep
  | event keyMessage key =>
    simp only [step] at hstep
    split at hstep
    · rename_i hraised
      split at hstep
      · cases hstep; exact h.raise hr hraised _ _
      · cases hstep
    · cases hstep
  | callback =>
    obtain ⟨m, hm, hs⟩ := Option.map_eq_some_iff.1 hstep
    subst hs
    exact h.callback hr hm
  | announce =>
    simp only [step] at hstep
    split at hstep
    · rename_i key rest hphase
      cases hstep
      rcases hok key rest hphase with hpend | ⟨m, hm, hmk⟩
      · exact h.announce_pending hr hpend _
      · exact h.announce_raised hr hm hmk _
    · cases hstep
  | finish =>
    simp only [step] at hstep
    split at hstep
    · cases hstep; exact h
    · cases hstep
  | deliver =>
    simp only [step] at hstep
    split at hstep
    · rename_i m rest hflight
      cases hstep
      exact h.deliver hflight
    · cases hstep

end

/-- In every run that announces no key the CDM has already reported and called back, once
`CreateSession` has returned and no callback is in flight, client and server hold the same status of
every key. -/
theorem statuses_agree (hr : Upsert.Equiv (same (K := K))) {mem : Bytes.Memory} {data : Nat} {length : UInt16}
    {keys : List (KeyId K)} (hkeys : (Cenc.parse mem data length).Returns keys) {acts : List (Act K)} {s : Sys K}
    (h : Trace.Run step AnnounceOK (start keys) acts s) (hq : s.Quiet) (k : K) :
    clientStatus s.keyStatuses k = heldStatus s.keys k := by
  have hagree : Agrees s :=
    h.invariant Agrees (fun _ _ _ hi hok hstep => step_agrees hr hi hok hstep) (agrees_start (Cenc.parse_pending hkeys))
  obtain ⟨-, hraised, hflight⟩ := hq
  have hk := hagree k
  rw [hraised] at hk
  unfold Sys.drained at hk
  rw [hflight] at hk
  exact hk.symm

end

/-! ## A status overwritten -/

/-- A version 1 common box with one key, sixteen times the byte 7. -/
def commonBox : List UInt8 :=
  Bytes.be32 52 ++ Cenc.psshHeader ++ [1, 0, 0, 0] ++ Cenc.commonEncryption ++ Bytes.be32 1 ++ List.replicate 16 7 ++
    Bytes.be32 0

/-- The key of `commonBox`. -/
def boxKey : Kid := List.replicate 16 7

theorem commonBox_keys : (Cenc.parse (Bytes.place 1 commonBox 0) 1 52).Returns
    [({ id := boxKey, systems := 1 } : KeyId Kid)] :=
  ⟨2, by decide +kernel⟩

/-- The CDM reports the key usable while its pending status is already in flight. -/
theorem statuses_agree_usable : ∃ s : Sys Kid,
    Trace.Run step AnnounceOK (start [{ id := boxKey, systems := 1 }])
      [.run, .announce, .finish, .event "KeyUsable" boxKey, .callback, .deliver, .deliver] s ∧
    clientStatus s.keyStatuses boxKey = heldStatus s.keys boxKey := by
  have h : ∃ s : Sys Kid, Trace.Run step AnnounceOK (start [{ id := boxKey, systems := 1 }])
      [.run, .announce, .finish, .event "KeyUsable" boxKey, .callback, .deliver, .deliver] s ∧ s.Quiet := by
    refine ⟨_, .cons trivial rfl (.cons ?_ rfl (.cons trivial rfl (.cons trivial rfl (.cons trivial rfl
      (.cons trivial rfl (.cons trivial rfl (.nil _))))))), rfl, rfl, rfl⟩
    intro key rest _
    exact .inl (heldStatus_of_pending (Cenc.parse_pending commonBox_keys) key)
  exact h.imp fun s hs => ⟨hs.1, statuses_agree Kid.same_equiv commonBox_keys hs.1 hs.2 boxKey⟩

/-- The CDM reports the key usable before the loop announces it: the client is left with a pending key. -/
theorem usable_key_left_pending : ∃ s : Sys Kid,
    Trace.Run step (fun _ _ => True) (start [{ id := boxKey, systems := 1 }])
      [.run, .event "KeyUsable" boxKey, .callback, .announce, .finish, .deliver, .deliver] s ∧ s.Quiet ∧
    heldStatus s.keys boxKey = .usable ∧ clientStatus s.keyStatuses boxKey = .statusPending := by
  have h : (Trace.exec step (fun _ _ => True) (start [({ id := boxKey, systems := 1 } : KeyId Kid)])
      [.run, .event "KeyUsable" boxKey, .callback, .announce, .finish, .deliver, .deliver]).map
        (fun s => (s.phase, s.raised, s.flight, heldStatus s.keys boxKey, clientStatus s.keyStatuses boxKey)) =
      some (.returned, none, [], .usable, .statusPending) := by rfl
  obtain ⟨s, hs, he⟩ := Option.map_eq_some_iff.1 h
  obtain ⟨hphase, hraised, hflight, hheld, hclient⟩ : s.phase = .returned ∧ s.raised = none ∧ s.flight = [] ∧
      heldStatus s.keys boxKey = .usable ∧ clientStatus s.keyStatuses boxKey = .statusPending := by
    simpa only [Prod.mk.injEq] using he
  exact ⟨s, Trace.exec_run hs, ⟨hphase, hraised, hflight⟩, hheld, hclient⟩

end Ocdm.Session
