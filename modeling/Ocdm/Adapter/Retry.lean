/-
The retry loop of the RDK adapter (open_cdm_decrypt.cpp): `decryptWithOutputRestrictedRetry` polls the
status of the key before and after each attempt and tries again while the output is restricted.
`opencdm_gstreamer_session_decrypt_buffer` takes one attempt for repeatable, but an attempt reverses the
IV in place when `initWithLast15` is 1, so the next one hands over the IV as it was before. All
attempts hand over the same when reversing the IV does not change it and the table has room for its
pairs (`attempts_same`).
-/
import Ocdm.Adapter.DecryptBuffer
import Ocdm.Cenc.KeyId
import Ocdm.Lib.Trace

namespace Ocdm.Adapter

open Exchange (SampleInfo SubSampleInfo)

/-! ## The loop -/

def isOutputRestrictedStatus (status : KeyStatus) : Bool :=
  status == .outputRestricted || status == .outputRestrictedHDCP22

def isUsableStatus (status : KeyStatus) : Bool :=
  status == .usable || status == .outputDownscaled || status == .statusPending

/-- `getKeyStatus`; `status` is what `opencdm_session_status` has for the key. -/
def getKeyStatus (session : Bool) (keyId : List UInt8) (status : KeyStatus) : KeyStatus :=
  if session = false ∨ keyId = [] ∨ keyId.length > 255 then .internalError else status

/-- `copyKeyId`: the bytes copied, if they are. -/
def copyKeyId : Option GstBuffer → Option (List UInt8)
  | none => none
  | some keyID => if keyID.mappable then some keyID.bytes else none

def copyKeyIdFromProtectionMeta : Option ProtectionMeta → Option (List UInt8)
  | none => none
  | some info => info.kid.bind copyKeyId

/-- What one round of the loop meets: the clock at its test, what the attempt depends on, and the status
of the key before and after it. -/
structure Round (E : Type) where
  now : Nat
  before : KeyStatus
  env : E
  after : KeyStatus

inductive RetryEvent where
  | poll (status : KeyStatus)
  | attempt (result : OpenCDMError)
  | sleep
deriving DecidableEq, Repr

/-- Where a run is: what the attempts so far have left, their last result, what was called, and the
result of the run when it has one. -/
structure Retry (σ : Type) where
  input : σ
  lastResult : OpenCDMError := errorFail
  log : List RetryEvent := []
  result : Option OpenCDMError := none

section

variable {E σ : Type}

/-- One round of `decryptWithOutputRestrictedRetry`. An attempt gives its result and what it leaves. -/
def retryStep (session : Bool) (keyId : List UInt8) (deadline : Nat) (decryptOnce : E → σ → OpenCDMError × σ)
    (s : Retry σ) (r : Round E) : Option (Retry σ) :=
  match s.result with
  | some _ => none
  | none =>
    let attempt := decryptOnce r.env s.input
    -- without a key id there is one attempt, and its result stands
    if keyId = [] then
      some { s with input := attempt.2, log := s.log ++ [.attempt attempt.1], result := some attempt.1 }
    else if r.now < deadline then
      let preDecryptStatus := getKeyStatus session keyId r.before
      let polled := s.log ++ [.poll preDecryptStatus]
      if isOutputRestrictedStatus preDecryptStatus then some { s with log := polled ++ [.sleep] }
      else if isUsableStatus preDecryptStatus then
        let tried : Retry σ := ⟨attempt.2, attempt.1, polled ++ [.attempt attempt.1], none⟩
        -- a failed attempt is made again only if the output was restricted meanwhile
        if attempt.1 = errorNone then some { tried with result := some attempt.1 }
        else
          let postDecryptStatus := getKeyStatus session keyId r.after
          let polled := tried.log ++ [.poll postDecryptStatus]
          if isOutputRestrictedStatus postDecryptStatus then some { tried with log := polled ++ [.sleep] }
          else some { tried with log := polled, result := some attempt.1 }
      else some { s with log := polled, result := some errorFail }
    else some { s with result := some s.lastResult }

/-- The round makes an attempt. -/
def Round.attempts (session : Bool) (keyId : List UInt8) (deadline : Nat) (r : Round E) : Prop :=
  keyId = [] ∨ r.now < deadline ∧ isUsableStatus (getKeyStatus session keyId r.before) = true

/-- An attempt has been made. -/
def Retry.attempted (s : Retry σ) : Prop := ∃ result, RetryEvent.attempt result ∈ s.log

/-- A round leaves the input alone, or makes one attempt with it. -/
theorem retryStep_cases {session : Bool} {keyId : List UInt8} {deadline : Nat} {decryptOnce : E → σ → OpenCDMError × σ}
    {s s' : Retry σ} {r : Round E} (h : retryStep session keyId deadline decryptOnce s r = some s') :
    (s.attempted → s'.attempted) ∧ (s'.input = s.input ∨
      r.attempts session keyId deadline ∧ s'.attempted ∧ s'.input = (decryptOnce r.env s.input).2) := by
  have hkeep : (∀ e ∈ s.log, e ∈ s'.log) → s.attempted → s'.attempted := by
    rintro hlog ⟨result, hin⟩
    exact ⟨result, hlog _ hin⟩
  unfold retryStep at h
  split at h
  · cases h
  · dsimp only at h
    split at h
    · rename_i hempty
      cases h
      exact ⟨hkeep fun e he => by simp [he], .inr ⟨.inl hempty, ⟨(decryptOnce r.env s.input).1, by simp⟩, rfl⟩⟩
    · split at h
      · rename_i hnow
        split at h
        · cases h
          exact ⟨hkeep fun e he => by simp [he], .inl rfl⟩
        · split at h
          · rename_i husable
            have htry : r.attempts session keyId deadline := .inr ⟨hnow, husable⟩
            split at h
            · cases h
              exact ⟨hkeep fun e he => by simp [he], .inr ⟨htry, ⟨(decryptOnce r.env s.input).1, by simp⟩, rfl⟩⟩
            · split at h
              · cases h
                exact ⟨hkeep fun e he => by simp [he], .inr ⟨htry, ⟨(decryptOnce r.env s.input).1, by simp⟩, rfl⟩⟩
              · cases h
                exact ⟨hkeep fun e he => by simp [he], .inr ⟨htry, ⟨(decryptOnce r.env s.input).1, by simp⟩, rfl⟩⟩
          · cases h
            exact ⟨hkeep fun e he => by simp [he], .inl rfl⟩
      · cases h
        exact ⟨id, .inl rfl⟩

end

/-! ## Decrypting a buffer -/

/-- What the attempts change: the session, the metadata of the buffer, and the calls made so far. -/
structure Attempts where
  session : Option Session
  info : Option ProtectionMeta
  events : List GstEvent

/-- An attempt of `opencdm_gstreamer_session_decrypt_buffer`. -/
def attemptBuffer (buffer : GstBuffer) (caps : Option ParsedCaps) (svp : Svp) (s : Attempts) :
    OpenCDMError × Attempts :=
  let o := decryptBufferOnce svp s.session buffer s.info caps
  (o.result, ⟨o.session, o.info, s.events ++ o.events⟩)

/-- The run of `opencdm_gstreamer_session_decrypt_buffer` over rounds. -/
def bufferStep (session : Option Session) (buffer : GstBuffer) (info : Option ProtectionMeta) (caps : Option ParsedCaps)
    (deadline : Nat) : Retry Attempts → Round Svp → Option (Retry Attempts) :=
  retryStep session.isSome ((copyKeyIdFromProtectionMeta info).getD []) deadline (attemptBuffer buffer caps)

def bufferStart (session : Option Session) (info : Option ProtectionMeta) : Retry Attempts :=
  { input := ⟨session, info, []⟩ }

/-- All calls made hand over the same bytes and the same sample. -/
def SameCalls (events : List GstEvent) : Prop :=
  ∀ call result call' result', .decrypt call result ∈ events → .decrypt call' result' ∈ events →
    call.data = call'.data ∧ call.sampleInfo = call'.sampleInfo

/-- Reversing the IV does not change it, if it is reversed at all, and the table has room for its pairs. -/
structure Repeatable (info : ProtectionMeta) : Prop where
  iv : info.initWithLast15 = some 1 → ∀ iv, info.iv = some (some iv) → iv.bytes.reverse = iv.bytes
  table : ∀ table, info.subSamples = some (some table) →
    6 * (info.subSampleCount.getD 0).toNat ≤ table.bytes.length

/-! ## What an attempt hands over -/

/-- Mapping the inputs leaves metadata as it was, if reversing the IV does. -/
theorem mapInputs_info (buffer : GstBuffer) {info : ProtectionMeta} (hiv : info.initWithLast15 = some 1 →
      ∀ iv, info.iv = some (some iv) → iv.bytes.reverse = iv.bytes) :
    (∀ inputs, mapInputs buffer info = .ok inputs → inputs.info = info) ∧
    ∀ r, mapInputs buffer info = .error r → r.1 = info := by
  have hsame : ∀ {iv e}, mapValue info.iv = .ok (iv, e) →
      { info with iv := some (if info.initWithLast15.getD 0 = 1 then iv.map GstBuffer.swapped else iv) } = info := by
    intro iv e hmap
    have hvalue := (mapValue_ok hmap).1
    rw [swapped_repeatable fun hinit b hb => hiv hinit b (by rw [hvalue, hb]), ← hvalue]
  unfold mapInputs
  dsimp only
  split
  · exact ⟨fun _ h => (by cases h), fun _ h => by cases h; rfl⟩
  · split
    · exact ⟨fun _ h => (by cases h), fun _ h => by cases h; rfl⟩
    · rename_i hmap
      split
      · exact ⟨fun _ h => (by cases h), fun _ h => by cases h; exact hsame hmap⟩
      · exact ⟨fun _ h => (by cases h; exact hsame hmap), fun _ h => by cases h⟩

/-- An attempt leaves repeatable metadata as it was. -/
theorem decryptBufferOnce_info {info : ProtectionMeta} (hinfo : Repeatable info) (svp : Svp) (session : Option Session)
    (buffer : GstBuffer) (caps : Option ParsedCaps) :
    (decryptBufferOnce svp session buffer (some info) caps).info = some info := by
  obtain ⟨hok, herror⟩ := mapInputs_info buffer hinfo.iv
  unfold decryptBufferOnce
  split
  · rfl
  · split
    · dsimp only
      split
      · rename_i hmap
        exact congrArg some (herror _ hmap)
      · rename_i hmap
        split
        · exact congrArg some (hok _ hmap)
        · exact congrArg some (hok _ hmap)
    · rfl

/-- Two maps built of one table with room for its pairs are the same. -/
theorem buildMap_unique {svp svp' : Svp} {frameSize count : UInt32} {subSample : Option GstBuffer}
    {r r' : Option (List SubSampleInfo) × UInt32 × UInt32}
    (hroom : ∀ table, subSample = some table → 6 * count.toNat ≤ table.bytes.length)
    (h : buildMap svp frameSize subSample count = .ok r) (h' : buildMap svp' frameSize subSample count = .ok r') :
    r = r' := by
  cases subSample with
  | none => cases h; cases h'; rfl
  | some table =>
    have hroom := hroom table rfl
    have hfits := table.fits
    unfold buildMap at h h'
    dsimp only at h h'
    rw [readTable_heap svp'.heap svp.heap hroom] at h'
    split at h
    · cases h
    · rename_i hok
      split at h'
      · cases h'
      · rename_i hok'
        cases h; cases h'
        have hlen : (readTable table.bytes svp.heap count.toNat).entries.length = count.toNat := by
          rw [(readTable_eq svp.heap hroom).2.1, List.length_map, List.length_range]
        refine congrArg (fun m : SubMap => (some m.entries, m.count, _)) ?_
        exact validate_unique hlen (by dsimp only; omega) (Prod.ext (not_not.1 hok) rfl) (Prod.ext (not_not.1 hok') rfl)

/-- The calls that attempts with the same metadata make are the same, if one attempt makes both or the table
has room for its pairs. -/
theorem calls_same {svp svp' : Svp} {session session' : Option Session} {buffer : GstBuffer} {info : ProtectionMeta}
    {caps : Option ParsedCaps} {call call' : DecryptCall} {result result' : OpenCDMError}
    (hsame : svp = svp' ∨ Repeatable info)
    (h : .decrypt call result ∈ (decryptBufferOnce svp session buffer (some info) caps).events)
    (h' : .decrypt call' result' ∈ (decryptBufferOnce svp' session' buffer (some info) caps).events) :
    call.data = call'.data ∧ call.sampleInfo = call'.sampleInfo := by
  obtain ⟨_, inputs, hinfo, hmap, hdec⟩ := decryptBufferOnce_call h
  cases hinfo
  obtain ⟨_, inputs', hinfo, hmap', hdec'⟩ := decryptBufferOnce_call h'
  cases hinfo
  rw [hmap] at hmap'
  cases hmap'
  obtain ⟨map, count, encrypted, hbuild, hdata, hsample⟩ := decryptMapped_call hdec
  obtain ⟨map', count', encrypted', hbuild', hdata', hsample'⟩ := decryptMapped_call hdec'
  have hr : (map, count, encrypted) = (map', count', encrypted') := by
    rcases hsame with rfl | hinfo
    · rw [hbuild] at hbuild'
      exact Except.ok.inj hbuild'
    · refine buildMap_unique (fun table htable => ?_) hbuild hbuild'
      obtain ⟨hcount, hsub, -⟩ := mapInputs_ok hmap
      rw [hcount]
      by_cases hpos : info.subSampleCount.getD 0 > 0
      · exact hinfo.table table (by rw [hsub hpos, htable])
      · -- no pairs are read, so any table has room for them
        have hzero : (info.subSampleCount.getD 0).toNat = 0 := by
          rw [gt_iff_lt, UInt32.lt_iff_toNat_lt] at hpos
          exact Nat.eq_zero_of_not_pos hpos
        rw [hzero]
        exact Nat.zero_le _
  cases hr
  exact ⟨by rw [hdata, hdata'], by rw [hsample, hsample']⟩

/-! ## Runs -/

/-- An attempt after the first one is made with repeatable metadata. -/
def AgainRepeatable (session : Option Session) (info : ProtectionMeta) (deadline : Nat) (s : Retry Attempts)
    (r : Round Svp) : Prop :=
  s.attempted → r.attempts session.isSome ((copyKeyIdFromProtectionMeta (some info)).getD []) deadline → Repeatable info

/-- The calls so far are those of attempts with the metadata `info`. -/
def CallsOf (buffer : GstBuffer) (info : ProtectionMeta) (caps : Option ParsedCaps) (events : List GstEvent) : Prop :=
  ∀ call result, .decrypt call result ∈ events →
    ∃ svp session, .decrypt call result ∈ (decryptBufferOnce svp session buffer (some info) caps).events

/-- With repeatable metadata, all calls are those of attempts with it. -/
theorem callsOf_run {session : Option Session} {buffer : GstBuffer} {info : ProtectionMeta} {caps : Option ParsedCaps}
    {deadline : Nat} {ok : Retry Attempts → Round Svp → Prop} {rounds : List (Round Svp)} {s : Retry Attempts}
    (hinfo : Repeatable info)
    (h : Trace.Run (bufferStep session buffer (some info) caps deadline) ok (bufferStart session (some info))
    rounds s) :
    s.input.info = some info ∧ CallsOf buffer info caps s.input.events := by
  refine h.invariant (fun s => s.input.info = some info ∧ CallsOf buffer info caps s.input.events) ?_
    ⟨rfl, fun _ _ hin => by cases hin⟩
  rintro s r s' ⟨hkept, hcalls⟩ - hstep
  rcases (retryStep_cases hstep).2 with hinput | ⟨-, -, hinput⟩
  · rw [hinput]
    exact ⟨hkept, hcalls⟩
  · rw [hinput]
    unfold attemptBuffer
    rw [hkept]
    refine ⟨decryptBufferOnce_info hinfo .., fun call result hin => ?_⟩
    rcases List.mem_append.1 hin with hin | hin
    · exact hcalls call result hin
    · exact ⟨_, _, hin⟩

/-- In every run in which no attempt after the first one meets metadata that is not repeatable, all attempts
hand over the same. -/
theorem attempts_same (session : Option Session) (buffer : GstBuffer) (info : ProtectionMeta) (caps : Option ParsedCaps)
    (deadline : Nat) (rounds : List (Round Svp)) (s : Retry Attempts)
    (h : Trace.Run (bufferStep session buffer (some info) caps deadline) (AgainRepeatable session info deadline)
      (bufferStart session (some info)) rounds s) : SameCalls s.input.events := by
  by_cases hinfo : Repeatable info
  · obtain ⟨-, hcalls⟩ := callsOf_run hinfo h
    intro call result call' result' hin hin'
    obtain ⟨svp, session, hin⟩ := hcalls call result hin
    obtain ⟨svp', session', hin'⟩ := hcalls call' result' hin'
    exact calls_same (.inr hinfo) hin hin'
  · -- at most one attempt is made
    refine (h.invariant (fun s => SameCalls s.input.events ∧
      (¬ s.attempted → s.input.events = [] ∧ s.input.info = some info)) ?_
      ⟨fun _ _ _ _ hin => (by cases hin), fun _ => ⟨rfl, rfl⟩⟩).1
    rintro s r s' ⟨hsame, hnone⟩ hok hstep
    obtain ⟨hkeep, hinput | ⟨htry, hdone, hinput⟩⟩ := retryStep_cases hstep
    · rw [hinput]
      exact ⟨hsame, fun hnot => hnone fun hdone => hnot (hkeep hdone)⟩
    · obtain ⟨hevents, hkept⟩ := hnone fun hdone => hinfo (hok hdone htry)
      refine ⟨?_, fun hnot => absurd hdone hnot⟩
      rw [hinput]
      unfold attemptBuffer
      rw [hevents, hkept]
      exact fun call result call' result' hin hin' => calls_same (.inl rfl) hin hin'

/-! ## Two attempts -/

/-- The metadata of a frame without subsamples and the given IV. -/
def ivInfo (iv : GstBuffer) : ProtectionMeta :=
  ⟨none, none, some (some iv), some (some frameKey), some 1, none, none, none⟩

/-- A round in which the decryptor fails and the output is restricted afterwards. -/
def restrictedRound : Round Svp := ⟨0, .usable, { plainSvp with decrypt := fun _ => 1 }, .outputRestricted⟩

def palindromeIV : GstBuffer := ⟨2, [7, 8, 7], true, by decide⟩

def counterIV : GstBuffer := ⟨2, [1, 2], true, by decide⟩

/-- The run of the two rounds. -/
def twoAttempts (iv : GstBuffer) : Option (Retry Attempts) :=
  Trace.exec (bufferStep (some ⟨false, false⟩) frame (some (ivInfo iv)) none 10) (fun _ _ => True)
    (bufferStart (some ⟨false, false⟩) (some (ivInfo iv))) [restrictedRound, restrictedRound]

/-- The call of an attempt that hands over the given IV. -/
def ivCall (iv : List UInt8) : DecryptCall :=
  ⟨[1, 2, 3, 4], 4, ⟨.aesCtrCenc, ⟨0, 0⟩, ⟨2, some iv⟩, ⟨1, some [9]⟩, ⟨0, none⟩⟩, ⟨0, 0, .unknown⟩⟩

theorem palindrome_repeatable : Repeatable (ivInfo palindromeIV) := by
  refine ⟨fun _ iv hiv => ?_, fun table htable => by cases htable⟩
  cases hiv
  rfl

theorem attempts_same_twice : ∃ s, twoAttempts palindromeIV = some s ∧ SameCalls s.input.events := by
  obtain ⟨s, hs⟩ := Option.isSome_iff_exists.1 (show (twoAttempts palindromeIV).isSome by decide +kernel)
  exact ⟨s, hs, attempts_same (some ⟨false, false⟩) frame (ivInfo palindromeIV) none 10
    [restrictedRound, restrictedRound] s ((Trace.exec_run hs).mono fun _ _ _ _ _ => palindrome_repeatable)⟩

/-- The second attempt hands over the IV that the first one reversed, as it was. -/
theorem iv_reversed_again : ¬ ∀ rounds s,
    Trace.Run (bufferStep (some ⟨false, false⟩) frame (some (ivInfo counterIV)) none 10)
    (fun _ _ => True) (bufferStart (some ⟨false, false⟩) (some (ivInfo counterIV))) rounds s →
      SameCalls s.input.events := by
  intro h
  have hcall : ∀ iv, iv ∈ [[1, 2], [2, 1]] → .decrypt (ivCall iv) 1 ∈
      ((twoAttempts counterIV).get (by decide +kernel)).input.events := by decide +kernel
  have hsame := h _ _ (Trace.exec_run (Option.some_get (by decide +kernel)).symm) _ _ _ _
    (hcall [2, 1] (by simp)) (hcall [1, 2] (by simp))
  exact absurd hsame.2 (by decide)

end Ocdm.Adapter
