/-
From init data to the client's list of keys: `Parse` finds the keys of the boxes (CENCParser.h), `CreateSession`
announces them while the CDM already reports keys of its own (FrameworkRPC.cpp), and the client collects what is called
back (open_cdm_impl.h). In any order of these steps a session that is created has, for `opencdm_session_has_key_id`,
the keys of the boxes and those the CDM reported, and a key the CDM did not report is pending (`client_keys`).
-/
import Ocdm.Cenc.Boxes
import Ocdm.Session.Status

namespace Ocdm.Session

open Thunder (same)
open Cenc (KeyId PsshBox)

variable {K : Type} [Thunder K]

/-- `OpenCDMSession::HasKeyId` -/
def clientHasKeyId (keyStatuses : List (ClientKey K)) (key : K) : Bool :=
  (keyStatuses.find? fun e => same e.id key).isSome

/-- The CDM reports the key. -/
def Act.Reports (k : K) : Act K → Prop
  | .event _ key => same key k = true
  | _ => False

/-- The CDM reports the key in a run. -/
def Reported (acts : List (Act K)) (k : K) : Prop := ∃ a ∈ acts, a.Reports k

/-! ## Where a key can be -/

/-- A key is still to be announced. -/
def Announced (s : Sys K) (k : K) : Prop :=
  match s.phase with
  | .constructing => ∃ e ∈ s.keys, same e.id k = true
  | .announcing rest => ∃ key ∈ rest, same key k = true
  | .returned => False

/-- A key is at the client, or on its way there. -/
def Underway (s : Sys K) (k : K) : Prop :=
  clientHasKeyId s.keyStatuses k = true ∨ (∃ m ∈ s.flight, same m.1 k = true) ∨
    (∃ m ∈ s.raised, same m.1 k = true) ∨ Announced s k

theorem underway_start (keys : List (KeyId K)) (k : K) :
    Underway (start keys) k ↔ ∃ e ∈ keys, same e.id k = true := by
  unfold Underway
  simp [start, clientHasKeyId, Announced]

theorem underway_quiet {s : Sys K} (h : s.Quiet) (k : K) :
    Underway s k ↔ clientHasKeyId s.keyStatuses k = true := by
  obtain ⟨hphase, hraised, hflight⟩ := h
  unfold Underway Announced
  simp [hphase, hraised, hflight]

/-- A callback put in flight. -/
theorem exists_flight_concat (flight : List (K × KeyStatus)) (m : K × KeyStatus) (k : K) :
    (∃ x ∈ flight ++ [m], same x.1 k = true) ↔ (∃ x ∈ flight, same x.1 k = true) ∨ same m.1 k = true := by
  simp only [List.mem_append, List.mem_singleton, or_and_right, exists_or, exists_eq_left]

section

variable (hr : Upsert.Equiv (same (K := K)))

include hr

theorem clientHasKeyId_update (keyStatuses : List (ClientKey K)) (m : K × KeyStatus) (k : K) :
    clientHasKeyId (onKeyStatusUpdate keyStatuses m) k = (same m.1 k || clientHasKeyId keyStatuses k) := by
  have h := Upsert.find?_upsert hr ClientKey.id (f := fun e : ClientKey K => { e with status := m.2 })
    (fun _ => rfl) ⟨m.1, m.2⟩ keyStatuses k
  unfold clientHasKeyId onKeyStatusUpdate
  rw [show (Upsert.upsert (fun e => same e.id m.1) _ _ keyStatuses).find? _ = _ from h]
  dsimp only
  cases same m.1 k <;> rfl

/-- A step brings a key on its way only when the CDM reports it, and loses none. -/
theorem step_underway {s s' : Sys K} {a : Act K} (hstep : step s a = some s') (k : K) :
    Underway s' k ↔ Underway s k ∨ a.Reports k := by
  cases a with
  | run =>
    simp only [step] at hstep
    split at hstep
    · rename_i hphase
      cases hstep
      simp [Underway, Announced, Act.Reports, hphase]
    · cases hstep
  | event keyMessage key =>
    simp only [step] at hstep
    split at hstep
    · rename_i hraised
      split at hstep
      · rename_i hrunning
        cases hstep
        have hentry := hr.congr (updateKeyStatus_entry hr s.keys (statusOfMessage keyMessage)
          { id := key, systems := Cenc.SystemType.common.mask }) k
        have hannounced : ∀ keys raised, Announced { s with keys := keys, raised := raised } k ↔ Announced s k := by
          intro keys raised
          unfold Announced
          cases h : s.phase with
          | constructing => rw [h] at hrunning; cases hrunning
          | announcing rest => rfl
          | returned => rfl
        unfold Underway
        simp only [hannounced, hraised, Option.mem_def, Option.some.injEq, exists_eq_left', reduceCtorEq, false_and,
          exists_false, false_or, hentry, Act.Reports, or_assoc]
        exact or_congr_right (or_congr_right or_comm)
      · cases hstep
    · cases hstep
  | callback =>
    obtain ⟨m, hm, rfl⟩ := Option.map_eq_some_iff.1 hstep
    have hannounced : Announced { s with raised := none, flight := s.flight ++ [m] } k ↔ Announced s k := Iff.rfl
    unfold Underway
    simp only [hannounced, hm, exists_flight_concat, Option.mem_def, Option.some.injEq, exists_eq_left', reduceCtorEq,
      false_and, exists_false, false_or, Act.Reports, or_false, or_assoc]
  | announce =>
    simp only [step] at hstep
    split at hstep
    · rename_i key rest hphase
      cases hstep
      unfold Underway Announced
      simp only [hphase, exists_flight_concat, List.mem_cons, exists_eq_or_imp, Act.Reports, or_false, or_assoc]
      exact or_congr_right (or_congr_right or_left_comm)
    · cases hstep
  | finish =>
    simp only [step] at hstep
    split at hstep
    · rename_i hphase
      cases hstep
      simp [Underway, Announced, Act.Reports, hphase]
    · cases hstep
  | deliver =>
    simp only [step] at hstep
    split at hstep
    · rename_i m rest hflight
      cases hstep
      have hannounced : Announced { s with flight := rest, keyStatuses := onKeyStatusUpdate s.keyStatuses m } k ↔
          Announced s k := Iff.rfl
      unfold Underway
      simp only [hannounced, hflight, clientHasKeyId_update hr, Bool.or_eq_true, List.mem_cons, exists_eq_or_imp,
        Act.Reports, or_false, or_assoc]
      exact or_left_comm
    · cases hstep

/-- What is on its way at the end of a run. -/
theorem run_underway {s s' : Sys K} {acts : List (Act K)} (h : Trace.Run step (fun _ _ => True) s acts s') (k : K) :
    Underway s' k ↔ Underway s k ∨ Reported acts k := by
  induction h with
  | nil s => simp [Reported]
  | cons _ hstep _ ih =>
    rw [ih, step_underway hr hstep, or_assoc]
    simp only [Reported, List.mem_cons, exists_eq_or_imp]

/-! ## Keys the CDM does not report -/

/-- The client holds the key as pending, if at all, and will be called back for it only so. -/
structure Waiting (s : Sys K) (k : K) : Prop where
  flight : ∀ m ∈ s.flight, same m.1 k = true → m.2 = .statusPending
  raised : ∀ m ∈ s.raised, same m.1 k = false
  client : clientStatus s.keyStatuses k = .statusPending

omit hr in
theorem waiting_start (keys : List (KeyId K)) (k : K) : Waiting (start keys) k := ⟨nofun, nofun, rfl⟩

theorem step_waiting {s s' : Sys K} {a : Act K} {k : K} (h : Waiting s k) (ha : ¬ a.Reports k)
    (hstep : step s a = some s') : Waiting s' k := by
  obtain ⟨hflight, hraised, hclient⟩ := h
  have hconcat : ∀ m : K × KeyStatus, (same m.1 k = true → m.2 = .statusPending) →
      ∀ x ∈ s.flight ++ [m], same x.1 k = true → x.2 = .statusPending := by
    intro m hm x hx
    rcases List.mem_append.1 hx with hx | hx
    · exact hflight x hx
    · rw [List.mem_singleton.1 hx]; exact hm
  cases a with
  | run =>
    simp only [step] at hstep
    split at hstep
    · cases hstep; exact ⟨hflight, hraised, hclient⟩
    · cases hstep
  | event keyMessage key =>
    simp only [step] at hstep
    split at hstep
    · split at hstep
      · cases hstep
        refine ⟨hflight, fun m hm => ?_, hclient⟩
        obtain rfl := Option.some.inj hm
        exact (hr.congr (updateKeyStatus_entry hr s.keys _ _) k).trans (Bool.eq_false_iff.2 ha)
      · cases hstep
    · cases hstep
  | callback =>
    obtain ⟨m, hm, rfl⟩ := Option.map_eq_some_iff.1 hstep
    refine ⟨hconcat m fun hk => ?_, fun m hm => ?_, hclient⟩
    · cases (hraised m hm).symm.trans hk
    · cases hm
  | announce =>
    simp only [step] at hstep
    split at hstep
    · cases hstep; exact ⟨hconcat _ fun _ => rfl, hraised, hclient⟩
    · cases hstep
  | finish =>
    simp only [step] at hstep
    split at hstep
    · cases hstep; exact ⟨hflight, hraised, hclient⟩
    · cases hstep
  | deliver =>
    simp only [step] at hstep
    split at hstep
    · rename_i m rest hfirst
      cases hstep
      rw [hfirst] at hflight
      refine ⟨fun x hx => hflight x (List.mem_cons_of_mem _ hx), hraised, ?_⟩
      rw [clientStatus_update hr]
      split
      · exact hflight m (List.mem_cons_self ..) (by assumption)
      · exact hclient
    · cases hstep

theorem run_waiting {s s' : Sys K} {acts : List (Act K)} (h : Trace.Run step (fun _ _ => True) s acts s') {k : K}
    (hs : Waiting s k) (hacts : ¬ Reported acts k) : Waiting s' k := by
  induction h with
  | nil => exact hs
  | cons _ hstep _ ih =>
    exact ih (step_waiting hr hs (fun ha => hacts ⟨_, List.mem_cons_self .., ha⟩) hstep)
      fun ⟨a, hmem, ha⟩ => hacts ⟨a, List.mem_cons_of_mem _ hmem, ha⟩

/-! ## The keys of the init data -/

omit hr in
/-- The list that the run over the boxes ends with. -/
theorem parse_addAll {boxes : List (PsshBox K)} (hne : boxes ≠ []) {mem : Bytes.Memory} {data : Nat} {length : UInt16}
    {trailer : List UInt8} (ht : trailer = [] ∨ 8 ≤ trailer.length ∧ ¬ Cenc.StartsBox trailer)
    (hd : data ≠ Cenc.nullptr) (h : Bytes.Holds mem data (boxes.flatMap PsshBox.bytes ++ trailer))
    (hlen : length.toNat = (boxes.flatMap PsshBox.bytes ++ trailer).length) :
    (Cenc.parse mem data length).Returns (Cenc.addAll [] (boxes.flatMap PsshBox.keys)) := by
  have hpos : 0 < length.toNat := by
    obtain ⟨b, rest, rfl⟩ := List.exists_cons_of_ne_nil hne
    have hb := b.bytes_length
    rw [hlen, List.flatMap_cons, List.append_assoc, List.length_append]
    omega
  have hl : length ≠ 0 := by rintro rfl; exact absurd hpos (lt_irrefl 0)
  have hlt : (0 : UInt16) < length := UInt16.lt_iff_toNat_lt.2 hpos
  rw [Cenc.parse, if_neg (not_or.2 ⟨hd, hl⟩)]
  exact Cenc.loop_boxes boxes ht (fun hnil => absurd hnil hne) hlt h
    (by rw [UInt16.toNat_zero, Nat.zero_add, hlen]) []

/-- What is collected has the keys that were added. -/
theorem exists_addAll (adds : List (KeyId K)) (k : K) :
    (∃ e ∈ Cenc.addAll [] adds, same e.id k = true) ↔ ∃ key ∈ adds, same key.id k = true := by
  have hm : ∀ x a : KeyId K, (x.flag a.systems).id = x.id := fun x a => x.flag_id a.systems
  constructor
  · rintro ⟨e, he, hk⟩
    obtain ⟨a, rest, hrows, hid, -⟩ := Upsert.collect_merged hr hm adds e he
    have ha : a ∈ Upsert.rowsOf same KeyId.id e adds := by rw [hrows]; exact List.mem_cons_self ..
    exact ⟨a, List.mem_of_mem_filter ha, hid ▸ hk⟩
  · rintro ⟨key, hkey, hk⟩
    obtain ⟨e, he, hsame⟩ := Upsert.exists_collect hr hm adds key hkey
    exact ⟨e, he, hr.trans hsame hk⟩

/-- A session whose init data is a list of boxes, with whatever the CDM reports in the meantime and in any order of the
steps: once `CreateSession` has returned and no callback is in flight the client has the keys of the boxes and those
the CDM reported, and those the CDM did not report are pending. -/
theorem client_keys {boxes : List (PsshBox K)} (hne : boxes ≠ []) {mem : Bytes.Memory} {data : Nat} {length : UInt16}
    {trailer : List UInt8} (ht : trailer = [] ∨ 8 ≤ trailer.length ∧ ¬ Cenc.StartsBox trailer)
    (hd : data ≠ Cenc.nullptr) (h : Bytes.Holds mem data (boxes.flatMap PsshBox.bytes ++ trailer))
    (hlen : length.toNat = (boxes.flatMap PsshBox.bytes ++ trailer).length) :
    ∃ keys, (Cenc.parse mem data length).Returns keys ∧
      ∀ acts s, Trace.Run step (fun _ _ => True) (start keys) acts s → s.Quiet → ∀ k,
        (clientHasKeyId s.keyStatuses k = true ↔
          (∃ key ∈ boxes.flatMap PsshBox.keys, same key.id k = true) ∨ Reported acts k) ∧
        (¬ Reported acts k → clientStatus s.keyStatuses k = .statusPending) := by
  refine ⟨_, parse_addAll hne ht hd h hlen, fun acts s hrun hquiet k => ⟨?_, fun hacts => ?_⟩⟩
  · rw [← underway_quiet hquiet, run_underway hr hrun, underway_start, exists_addAll hr]
  · exact (run_waiting hr hrun (waiting_start _ k) hacts).client

end

/-- The init data is a ClearKey box that names one key. -/
theorem client_keys_clearKey :
    let boxes : List (PsshBox Kid) := [.clearKey (some [Vector.replicate 16 3]) [7]]
    ∃ keys, (Cenc.parse (Bytes.place 4096 (boxes.flatMap PsshBox.bytes ++ []) 0) 4096 53).Returns keys ∧
      ∀ acts s, Trace.Run step (fun _ _ => True) (start keys) acts s → s.Quiet → ∀ k : Kid,
        (clientHasKeyId s.keyStatuses k = true ↔
          (∃ key ∈ boxes.flatMap PsshBox.keys, same key.id k = true) ∨ Reported acts k) ∧
        (¬ Reported acts k → clientStatus s.keyStatuses k = .statusPending) :=
  client_keys Kid.same_equiv (by simp) (.inl rfl) (by decide) (Bytes.holds_place ..) (by decide)

end Ocdm.Session
