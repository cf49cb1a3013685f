/-
The lengths of the extended calls and of `opencdm_session_decrypt` (open_cdm_ext.cpp, open_cdm.cpp, open_cdm_impl.h,
FrameworkRPC.cpp). They are 32 or 16 bits wide at the client's interface, and 16 or 8 further on; nothing checks them
on the way, in either direction. So a call that succeeds was made with what the caller passed exactly when the lengths
fit, or the other side refuses what arrives (`lengths_arrive_iff`).
-/
import Ocdm.Adapter.Subsamples
import Ocdm.Exchange.Client

namespace Ocdm.Client

namespace Lengths

open Adapter (OpenCDMError errorNone errorInvalidSession)
open Exchange (Block EncryptionPattern EncryptionScheme Outcome Request SampleInfo)

def errorInvalidAccessor : OpenCDMError := 0x80000001
def errorInvalidArg : OpenCDMError := 0x80070057

/-- `Exchange::OCDM_RESULT` -/
def ocdmSFalse : UInt32 := 1
def ocdmInvalidAccessor : UInt32 := 0x80000001

/-! ## The CDM's side -/

/-- A call of the server to `IMediaKeySessionExt` or `IMediaKeysExt`, with the bytes that come with a length. -/
inductive CdmCall where
  | setDrmHeader (drmHeader : List UInt8) (drmHeaderLength : UInt32)
  | getChallengeDataExt (challengeSize : UInt32) (isLDL : UInt32)
  | storeLicenseData (licenseData : List UInt8) (licenseDataSize : UInt32)
  | getSecureStop (sessionID : List UInt8) (sessionIDLength : UInt32) (rawSize : UInt16)
  | commitSecureStop (sessionID : List UInt8) (sessionIDLength : UInt32) (serverResponse : List UInt8)
      (serverResponseLength : UInt32)
deriving DecidableEq, Repr

/-- The CDM's result, the bytes it leaves, and the sizes it leaves in the references it is given. -/
structure CdmAnswer where
  result : UInt32
  data : List UInt8
  challengeSize : UInt32
  rawSize : UInt16
deriving DecidableEq, Repr

abbrev Cdm := CdmCall → CdmAnswer

/-- What the caller has in the end: the result, the call that arrived if there was one, the bytes, and the sizes. -/
structure Reply where
  result : OpenCDMError
  call : Option CdmCall
  data : List UInt8
  challengeSize : UInt32
  rawSize : UInt16
deriving DecidableEq, Repr

/-- A call that does not get to the CDM leaves the sizes alone. -/
def Reply.failed (result : OpenCDMError) (challengeSize : UInt32) (rawSize : UInt16) : Reply :=
  ⟨result, none, [], challengeSize, rawSize⟩

/-- The CDM's answer as it is. -/
def forward (cdm : Cdm) (call : CdmCall) : Reply :=
  ⟨(cdm call).result, some call, (cdm call).data, (cdm call).challengeSize, (cdm call).rawSize⟩

/-! ## The session's calls -/

/-- A session, with what is behind its `ISessionExt` if it has one. The calls assert that it has, and go through the
pointer: without it they do not return. -/
structure Session where
  sessionExt : Option Cdm

/-- A call of a session that leaves no size. -/
def sessionCall (session : Option Session) (call : CdmCall) : Option Reply :=
  match session with
  | none => some (.failed errorInvalidSession 0 0)
  | some session => session.sessionExt.map (forward · call)

/-- `opencdm_session_set_drm_header`; `ISessionExt::SetDrmHeader` takes a `uint16_t`. -/
def setDrmHeader (session : Option Session) (drmHeader : List UInt8) (drmHeaderSize : UInt32) : Option Reply :=
  let drmHeaderLength := drmHeaderSize.toUInt16
  sessionCall session (.setDrmHeader (drmHeader.take drmHeaderLength.toNat) drmHeaderLength.toUInt32)

/-- `opencdm_session_store_license_data`; `OpenCDMSession::StoreLicenseData` takes a `uint16_t`. -/
def storeLicenseData (session : Option Session) (licenseData : List UInt8) (licenseDataSize : UInt32) : Option Reply :=
  let licenseDataSize := licenseDataSize.toUInt16
  sessionCall session (.storeLicenseData (licenseData.take licenseDataSize.toNat) licenseDataSize.toUInt32)

/-- `SessionImplementation::GetChallengeDataExt` of the server. -/
def getChallengeDataExt (cdm : Cdm) (challengeSize : UInt16) (isLDL : UInt32) : Reply × UInt16 :=
  let outcome := forward cdm (.getChallengeDataExt challengeSize.toUInt32 isLDL)
  (outcome, (outcome.challengeSize &&& 0xFFFF).toUInt16)

/-- `opencdm_session_get_challenge_data`; the size may be null. -/
def getChallengeData (session : Option Session) (challengeSize : Option UInt32) (isLDL : UInt32) : Option Reply :=
  match session, challengeSize with
  | some session, some challengeSize => session.sessionExt.map fun cdm =>
    let realLength := challengeSize.toUInt16
    let outcome := getChallengeDataExt cdm realLength isLDL
    { outcome.1 with challengeSize := outcome.2.toUInt32 }
  | _, _ => some (.failed errorInvalidSession (challengeSize.getD 0) 0)

/-! ## The system's calls -/

/-- The client's accessor: the server behind it, if there is one, gives the `IMediaKeysExt` of a key system. -/
structure Accessor where
  remote : Option (String → Option Cdm)

/-- The CDM behind an accessor, or the error on the way. -/
def Accessor.systemExt (accessor : Accessor) (keySystem : String) : Except UInt32 Cdm :=
  match accessor.remote with
  | none => .error ocdmInvalidAccessor
  | some server =>
    match server keySystem with
    | none => .error ocdmSFalse
    | some cdm => .ok cdm

/-- What both calls ask for first. -/
def reach (accessor : Option Accessor) (system : Option String) : Except OpenCDMError Cdm :=
  match accessor with
  | none => .error errorInvalidAccessor
  | some accessor =>
    match system with
    | none => .error errorInvalidArg
    | some keySystem => accessor.systemExt keySystem

/-- `opencdm_system_ext_get_secure_stop`; `GetSecureStop` of the accessor takes a `uint16_t`. -/
def getSecureStop (accessor : Option Accessor) (system : Option String) (sessionID : List UInt8)
    (sessionIDLength : UInt32) (rawSize : UInt16) : Reply :=
  match reach accessor system with
  | .error result => .failed result 0 rawSize
  | .ok cdm =>
    let sessionIDLength := sessionIDLength.toUInt16
    forward cdm (.getSecureStop (sessionID.take sessionIDLength.toNat) sessionIDLength.toUInt32 rawSize)

/-- `opencdm_system_ext_commit_secure_stop`; `CommitSecureStop` of the accessor takes two of them. -/
def commitSecureStop (accessor : Option Accessor) (system : Option String) (sessionID : List UInt8)
    (sessionIDLength : UInt32) (serverResponse : List UInt8) (serverResponseLength : UInt32) : Reply :=
  match reach accessor system with
  | .error result => .failed result 0 0
  | .ok cdm =>
    let sessionIDLength := sessionIDLength.toUInt16
    let serverResponseLength := serverResponseLength.toUInt16
    forward cdm (.commitSecureStop (sessionID.take sessionIDLength.toNat) sessionIDLength.toUInt32
      (serverResponse.take serverResponseLength.toNat) serverResponseLength.toUInt32)

/-! ## Decrypt -/

/-- The sample of `opencdm_session_decrypt`. -/
def sampleOf (encScheme : EncryptionScheme) (pattern : EncryptionPattern) (IV : Option (List UInt8))
    (IVLength : UInt16) (keyId : Option (List UInt8)) (keyIdLength : UInt16) : SampleInfo where
  scheme := encScheme
  pattern := pattern
  iv := ⟨IVLength.toUInt8, IV⟩
  keyId := ⟨keyIdLength.toUInt8, keyId⟩
  subSample := ⟨0, none⟩

/-- `opencdm_session_decrypt`, with what its session meets and the block they share, which is missing when the buffer
could not be created: the result, and the block as it is handed to the server, if it is. -/
def decrypt (session : Option (Outcome × Option Block)) (encrypted : List UInt8) (encryptedLength : UInt32)
    (sampleInfo : SampleInfo) (initWithLast15 : UInt32) : OpenCDMError × Option Block :=
  match session with
  | none => (errorInvalidSession, none)
  | some (o, decryptSession) =>
    if encryptedLength > 0 then
      let request := Request.decrypt encrypted encryptedLength (some sampleInfo) initWithLast15 none
      (Exchange.sessionPerform (.request request) o decryptSession,
        if o.first = Exchange.errorNone then decryptSession.map request.fill else none)
    else (errorNone, none)

/-! ## What a call has to do -/

/-- A call that succeeds got to the CDM as it was made. -/
def Arrives (passed : CdmCall) (r : Option Reply) : Prop :=
  ∀ reply ∈ r, reply.result = errorNone → reply.call = some passed

/-- The CDM answers a call with an error. -/
def Refuses (cdm : Cdm) (call : CdmCall) : Prop := (cdm call).result ≠ errorNone

/-- One that leaves a size comes back with the size the CDM left. -/
def ArrivesAndReturns (cdm : Cdm) (passed : CdmCall) (r : Option Reply) : Prop :=
  ∀ reply ∈ r, reply.result = errorNone →
    reply.call = some passed ∧ reply.challengeSize = (cdm passed).challengeSize

/-- The lengths in the block that is handed over are the ones passed. -/
def BlockArrives (IVLength keyIdLength : UInt16) (r : OpenCDMError × Option Block) : Prop :=
  r.1 = errorNone → ∀ b ∈ r.2, b.iv.length.toUInt16 = IVLength ∧ b.keyId.length.toUInt16 = keyIdLength

/-! ## Narrowing -/

theorem narrow32_iff (n : UInt32) : n.toUInt16.toUInt32 = n ↔ n.toNat < 65536 := by
  rw [← UInt32.toNat_inj]
  simp only [UInt16.toNat_toUInt32, UInt32.toNat_toUInt16]
  omega

theorem narrow16_iff (n : UInt16) : n.toUInt8.toUInt16 = n ↔ n.toNat < 256 := by
  rw [← UInt16.toNat_inj]
  simp only [UInt8.toNat_toUInt16, UInt16.toNat_toUInt8]
  omega

/-- The bytes that come with a narrowed length are all when the length is. -/
theorem take_narrow {n : UInt32} (h : n.toUInt16.toUInt32 = n) (bytes : List UInt8) :
    bytes.take n.toUInt16.toNat = bytes.take n.toNat := by
  have hnat := congrArg UInt32.toNat h
  rw [UInt16.toNat_toUInt32] at hnat
  rw [hnat]

theorem forall_mem_some {α : Type} {a : α} {p : α → Prop} : (∀ x ∈ some a, p x) ↔ p a :=
  ⟨fun h => h a rfl, fun h x hx => by cases hx; exact h⟩

/-- A call without a session fails. -/
theorem invalidSession_ne_none : errorInvalidSession ≠ errorNone := by decide

theorem arrives_iff (cdm : Cdm) (passed call : CdmCall) :
    Arrives passed (some (forward cdm call)) ↔ call = passed ∨ Refuses cdm call := by
  unfold Arrives
  rw [forall_mem_some]
  show ((cdm call).result = errorNone → some call = some passed) ↔ _
  rw [Option.some.injEq, imp_iff_or_not]
  rfl

/-- A call that fails does not have to arrive. -/
theorem arrives_failed {result : OpenCDMError} (h : result ≠ errorNone) (passed : CdmCall) (challengeSize : UInt32)
    (rawSize : UInt16) : Arrives passed (some (.failed result challengeSize rawSize)) := by
  unfold Arrives
  rw [forall_mem_some]
  exact fun hnone => absurd hnone h

theorem sessionCall_iff (session : Option Session) (passed call : CdmCall) :
    Arrives passed (sessionCall session call) ↔
      ∀ s ∈ session, ∀ cdm ∈ s.sessionExt, call = passed ∨ Refuses cdm call := by
  cases session with
  | none =>
    exact iff_of_true (arrives_failed invalidSession_ne_none _ _ _) fun s hs => absurd hs (Option.not_mem_none _)
  | some s =>
    rw [forall_mem_some]
    unfold sessionCall
    dsimp only
    cases s.sessionExt with
    | none =>
      exact iff_of_true (fun _ h => absurd h (Option.not_mem_none _)) fun _ h => absurd h (Option.not_mem_none _)
    | some cdm =>
      rw [forall_mem_some]
      exact arrives_iff cdm passed call

/-! ## Each call -/

theorem setDrmHeader_iff (session : Option Session) (drmHeader : List UInt8) (n : UInt32) :
    Arrives (.setDrmHeader (drmHeader.take n.toNat) n) (setDrmHeader session drmHeader n) ↔
      ∀ s ∈ session, ∀ cdm ∈ s.sessionExt, n.toNat < 65536 ∨
        Refuses cdm (.setDrmHeader (drmHeader.take n.toUInt16.toNat) n.toUInt16.toUInt32) := by
  refine (sessionCall_iff ..).trans (forall₂_congr fun s _ => forall₂_congr fun cdm _ => ?_)
  rw [← narrow32_iff]
  refine or_congr_left ⟨fun h => ?_, fun h => ?_⟩
  · injection h
  · rw [h, take_narrow h]

theorem storeLicenseData_iff (session : Option Session) (licenseData : List UInt8) (n : UInt32) :
    Arrives (.storeLicenseData (licenseData.take n.toNat) n) (storeLicenseData session licenseData n) ↔
      ∀ s ∈ session, ∀ cdm ∈ s.sessionExt, n.toNat < 65536 ∨
        Refuses cdm (.storeLicenseData (licenseData.take n.toUInt16.toNat) n.toUInt16.toUInt32) := by
  refine (sessionCall_iff ..).trans (forall₂_congr fun s _ => forall₂_congr fun cdm _ => ?_)
  rw [← narrow32_iff]
  refine or_congr_left ⟨fun h => ?_, fun h => ?_⟩
  · injection h
  · rw [h, take_narrow h]

/-- The errors on the way to a system's CDM. -/
theorem reach_error {accessor : Option Accessor} {system : Option String} {result : OpenCDMError}
    (h : reach accessor system = .error result) : result ≠ errorNone := by
  unfold reach at h
  split at h
  · cases h
    decide
  · split at h
    · cases h
      decide
    · unfold Accessor.systemExt at h
      split at h
      · cases h
        decide
      · split at h
        · cases h
          decide
        · cases h

theorem getSecureStop_iff (accessor : Option Accessor) (system : Option String) (sessionID : List UInt8) (n : UInt32)
    (rawSize : UInt16) :
    Arrives (.getSecureStop (sessionID.take n.toNat) n rawSize)
        (some (getSecureStop accessor system sessionID n rawSize)) ↔
      ∀ cdm, reach accessor system = .ok cdm → n.toNat < 65536 ∨
        Refuses cdm (.getSecureStop (sessionID.take n.toUInt16.toNat) n.toUInt16.toUInt32 rawSize) := by
  unfold getSecureStop
  cases hreach : reach accessor system with
  | error result => exact iff_of_true (arrives_failed (reach_error hreach) _ _ _) nofun
  | ok cdm =>
    rw [← narrow32_iff]
    refine (arrives_iff ..).trans ?_
    have hcall : CdmCall.getSecureStop (sessionID.take n.toUInt16.toNat) n.toUInt16.toUInt32 rawSize =
        .getSecureStop (sessionID.take n.toNat) n rawSize ↔ n.toUInt16.toUInt32 = n :=
      ⟨fun h => by injection h, fun h => by rw [h, take_narrow h]⟩
    rw [hcall]
    exact ⟨fun h cdm' hcdm => by cases hcdm; exact h, fun h => h cdm rfl⟩

theorem commitSecureStop_iff (accessor : Option Accessor) (system : Option String) (sessionID : List UInt8)
    (n : UInt32) (serverResponse : List UInt8) (m : UInt32) :
    Arrives (.commitSecureStop (sessionID.take n.toNat) n (serverResponse.take m.toNat) m)
        (some (commitSecureStop accessor system sessionID n serverResponse m)) ↔
      ∀ cdm, reach accessor system = .ok cdm → (n.toNat < 65536 ∧ m.toNat < 65536) ∨
        Refuses cdm (.commitSecureStop (sessionID.take n.toUInt16.toNat) n.toUInt16.toUInt32
          (serverResponse.take m.toUInt16.toNat) m.toUInt16.toUInt32) := by
  unfold commitSecureStop
  cases hreach : reach accessor system with
  | error result => exact iff_of_true (arrives_failed (reach_error hreach) _ _ _) nofun
  | ok cdm =>
    rw [← narrow32_iff, ← narrow32_iff]
    refine (arrives_iff ..).trans ?_
    have hcall : CdmCall.commitSecureStop (sessionID.take n.toUInt16.toNat) n.toUInt16.toUInt32
        (serverResponse.take m.toUInt16.toNat) m.toUInt16.toUInt32 =
        .commitSecureStop (sessionID.take n.toNat) n (serverResponse.take m.toNat) m ↔
          n.toUInt16.toUInt32 = n ∧ m.toUInt16.toUInt32 = m :=
      ⟨fun h => by injection h with _ hn _ hm; exact ⟨hn, hm⟩,
        fun h => by rw [h.1, h.2, take_narrow h.1, take_narrow h.2]⟩
    rw [hcall]
    exact ⟨fun h cdm' hcdm => by cases hcdm; exact h, fun h => h cdm rfl⟩

/-- The size that comes back, masked and narrowed, is the CDM's when it fits. -/
theorem masked_iff (n : UInt32) : (n &&& 0xFFFF).toUInt16.toUInt32 = n ↔ n.toNat < 65536 := by
  have hmask : (n &&& 0xFFFF).toUInt16 = n.toUInt16 := by
    rw [← UInt16.toNat_inj]
    simp only [UInt32.toNat_toUInt16, UInt32.toNat_and]
    show (n.toNat &&& (2 ^ 16 - 1)) % 65536 = _
    rw [Nat.and_two_pow_sub_one_eq_mod]
    omega
  rw [hmask, narrow32_iff]

theorem getChallengeData_iff (session : Option Session) (challengeSize : Option UInt32) (isLDL : UInt32) :
    (∀ s ∈ session, ∀ cdm ∈ s.sessionExt, ∀ n ∈ challengeSize, ArrivesAndReturns cdm (.getChallengeDataExt n isLDL)
        (getChallengeData session challengeSize isLDL)) ↔
      ∀ s ∈ session, ∀ cdm ∈ s.sessionExt, ∀ n ∈ challengeSize,
        (n.toNat < 65536 ∧ (cdm (.getChallengeDataExt n isLDL)).challengeSize.toNat < 65536) ∨
          Refuses cdm (.getChallengeDataExt n.toUInt16.toUInt32 isLDL) := by
  refine forall₂_congr fun s hs => forall₂_congr fun cdm hcdm => forall₂_congr fun n hn => ?_
  cases hs
  cases hn
  have hcall : getChallengeData (some s) (some n) isLDL = some { (getChallengeDataExt cdm n.toUInt16 isLDL).1 with
      challengeSize := (getChallengeDataExt cdm n.toUInt16 isLDL).2.toUInt32 } :=
    Option.map_eq_some_iff.2 ⟨cdm, hcdm, rfl⟩
  unfold ArrivesAndReturns
  rw [hcall, forall_mem_some]
  show ((cdm (.getChallengeDataExt n.toUInt16.toUInt32 isLDL)).result = errorNone →
    some (CdmCall.getChallengeDataExt n.toUInt16.toUInt32 isLDL) = some (.getChallengeDataExt n isLDL) ∧
    ((cdm (.getChallengeDataExt n.toUInt16.toUInt32 isLDL)).challengeSize &&& 0xFFFF).toUInt16.toUInt32 =
      (cdm (.getChallengeDataExt n isLDL)).challengeSize) ↔ _
  rw [imp_iff_or_not]
  refine or_congr_left ?_
  rw [Option.some.injEq, CdmCall.getChallengeDataExt.injEq, and_iff_left rfl, ← narrow32_iff n]
  refine and_congr_right fun hn => ?_
  rw [hn, masked_iff]

theorem decrypt_iff (session : Option (Outcome × Option Block)) (encrypted : List UInt8) (encryptedLength : UInt32)
    (encScheme : EncryptionScheme) (pattern : EncryptionPattern) (IV : Option (List UInt8)) (IVLength : UInt16)
    (keyId : Option (List UInt8)) (keyIdLength : UInt16) (initWithLast15 : UInt32) :
    BlockArrives IVLength keyIdLength (decrypt session encrypted encryptedLength
        (sampleOf encScheme pattern IV IVLength keyId keyIdLength) initWithLast15) ↔
      ∀ s ∈ session, ∀ b ∈ s.2, encryptedLength > 0 → s.1.first = Exchange.errorNone →
        (IVLength.toNat < 256 ∧ keyIdLength.toNat < 256) ∨
          (s.1.second = Exchange.errorNone ∧
            (s.1.serve (Exchange.fillDecrypt encrypted encryptedLength
              (some (sampleOf encScheme pattern IV IVLength keyId keyIdLength)) initWithLast15 none b)).status ≠
                0) := by
  cases session with
  | none =>
    exact iff_of_true (fun h => absurd h invalidSession_ne_none) fun _ hs => absurd hs (Option.not_mem_none _)
  | some session =>
    obtain ⟨o, decryptSession⟩ := session
    rw [forall_mem_some]
    unfold BlockArrives decrypt
    dsimp only
    by_cases hlength : encryptedLength > 0
    · rw [if_pos hlength]
      by_cases hfirst : o.first = Exchange.errorNone
      · rw [if_pos hfirst]
        cases decryptSession with
        | none =>
          exact iff_of_true (fun _ _ hb => absurd hb (Option.not_mem_none _))
            fun _ hb => absurd hb (Option.not_mem_none _)
        | some b =>
          rw [Option.map_some, forall_mem_some, forall_mem_some]
          show (Exchange.sessionPerform _ o (some b) = 0 → _) ↔ _
          rw [Exchange.sessionPerform_zero_iff, Exchange.Op.perform_ret, imp_iff_or_not, ← narrow16_iff, ← narrow16_iff]
          refine Iff.trans (or_congr Iff.rfl ?_) ⟨fun h _ _ => h, fun h => h hlength hfirst⟩
          by_cases hsecond : o.second = Exchange.errorNone
          · rw [if_pos ⟨hfirst, hsecond⟩, and_iff_right hsecond]
            rfl
          · rw [if_neg fun h => hsecond h.2]
            exact iff_of_false (fun h => h rfl) (fun h => hsecond h.1)
      · rw [if_neg hfirst]
        exact iff_of_true (fun _ _ hb => absurd hb (Option.not_mem_none _)) fun _ _ _ h => absurd h hfirst
    · rw [if_neg hlength]
      exact iff_of_true (fun _ _ hb => absurd hb (Option.not_mem_none _)) fun _ _ h => absurd h hlength

/-- For every length, each call that succeeds got to the other side as it was made, and came back as it was answered,
exactly when its lengths fit the narrower types, or the other side refuses what arrives. -/
theorem lengths_arrive_iff (session : Option Session) (accessor : Option Accessor) (system : Option String)
    (bytes : List UInt8) (n : UInt32) (serverResponse : List UInt8) (m : UInt32) (rawSize : UInt16)
    (challengeSize : Option UInt32) (isLDL : UInt32) (exchange : Option (Outcome × Option Block))
    (encrypted : List UInt8) (encryptedLength : UInt32) (encScheme : EncryptionScheme)
    (pattern : EncryptionPattern) (IV : Option (List UInt8))
    (IVLength : UInt16) (keyId : Option (List UInt8)) (keyIdLength : UInt16) (initWithLast15 : UInt32) :
    (Arrives (.setDrmHeader (bytes.take n.toNat) n) (setDrmHeader session bytes n) ↔
      ∀ s ∈ session, ∀ cdm ∈ s.sessionExt, n.toNat < 65536 ∨
        Refuses cdm (.setDrmHeader (bytes.take n.toUInt16.toNat) n.toUInt16.toUInt32)) ∧
    (Arrives (.storeLicenseData (bytes.take n.toNat) n) (storeLicenseData session bytes n) ↔
      ∀ s ∈ session, ∀ cdm ∈ s.sessionExt, n.toNat < 65536 ∨
        Refuses cdm (.storeLicenseData (bytes.take n.toUInt16.toNat) n.toUInt16.toUInt32)) ∧
    (Arrives (.commitSecureStop (bytes.take n.toNat) n (serverResponse.take m.toNat) m)
        (some (commitSecureStop accessor system bytes n serverResponse m)) ↔
      ∀ cdm, reach accessor system = .ok cdm → (n.toNat < 65536 ∧ m.toNat < 65536) ∨
        Refuses cdm (.commitSecureStop (bytes.take n.toUInt16.toNat) n.toUInt16.toUInt32
          (serverResponse.take m.toUInt16.toNat) m.toUInt16.toUInt32)) ∧
    (Arrives (.getSecureStop (bytes.take n.toNat) n rawSize)
        (some (getSecureStop accessor system bytes n rawSize)) ↔
      ∀ cdm, reach accessor system = .ok cdm → n.toNat < 65536 ∨
        Refuses cdm (.getSecureStop (bytes.take n.toUInt16.toNat) n.toUInt16.toUInt32 rawSize)) ∧
    ((∀ s ∈ session, ∀ cdm ∈ s.sessionExt, ∀ size ∈ challengeSize,
        ArrivesAndReturns cdm (.getChallengeDataExt size isLDL) (getChallengeData session challengeSize isLDL)) ↔
      ∀ s ∈ session, ∀ cdm ∈ s.sessionExt, ∀ size ∈ challengeSize,
        (size.toNat < 65536 ∧ (cdm (.getChallengeDataExt size isLDL)).challengeSize.toNat < 65536) ∨
          Refuses cdm (.getChallengeDataExt size.toUInt16.toUInt32 isLDL)) ∧
    (BlockArrives IVLength keyIdLength (decrypt exchange encrypted encryptedLength
        (sampleOf encScheme pattern IV IVLength keyId keyIdLength) initWithLast15) ↔
      ∀ s ∈ exchange, ∀ b ∈ s.2, encryptedLength > 0 → s.1.first = Exchange.errorNone →
        (IVLength.toNat < 256 ∧ keyIdLength.toNat < 256) ∨
          (s.1.second = Exchange.errorNone ∧
            (s.1.serve (Exchange.fillDecrypt encrypted encryptedLength
              (some (sampleOf encScheme pattern IV IVLength keyId keyIdLength)) initWithLast15 none b)).status ≠ 0)) :=
  ⟨setDrmHeader_iff .., storeLicenseData_iff .., commitSecureStop_iff .., getSecureStop_iff .., getChallengeData_iff ..,
    decrypt_iff ..⟩

/-- A header of 65536 bytes arrives as an empty one, and the call succeeds. -/
theorem drmHeader_lost :
    ¬ Arrives (.setDrmHeader ((List.replicate 65536 0).take (65536 : UInt32).toNat) 65536)
      (setDrmHeader (some ⟨some fun _ => ⟨errorNone, [], 0, 0⟩⟩) (List.replicate 65536 0) 65536) := by
  intro h
  have hcall := Option.some.inj (h _ rfl rfl)
  injection hcall with _ hlength
  exact absurd hlength (by decide)

end Lengths

end Ocdm.Client
