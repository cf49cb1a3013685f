/-
`opencdm_gstreamer_session_decrypt_buffer_multi` of the RDK adapter (open_cdm_decrypt.cpp). The status that is polled
is that of the key id that the scan over the array finds first, the samples carry that of the first buffer with
something to decrypt. They are the same when no buffer without anything to decrypt has another key id in front of it
(`sent_polled`).
-/
import Ocdm.Adapter.MultiDecrypt
import Ocdm.Adapter.Retry

namespace Ocdm.Adapter

open Exchange (SampleInfo)

def errorMethodNotImplemented : OpenCDMError := 0x80000006
def errorInvalidArg : OpenCDMError := 0x80070057

/-! ## The function -/

/-- What the attempts change: the session, and the calls made so far. -/
structure MultiAttempts where
  session : Option Session
  events : List MultiEvent

/-- The scan over the array, which stops at the first key id it can read. -/
def scanKeyId (buffers : List (Option Frame)) : List UInt8 :=
  (buffers.findSome? fun buffer => copyKeyIdFromProtectionMeta (buffer.bind fun f =>
    f.info.map MultiMeta.toProtectionMeta)).getD []

/-- An attempt of `opencdm_gstreamer_session_decrypt_buffer_multi`. -/
def attemptMulti (buffers : Option (List (Option Frame))) (caps : Option (Option ParsedCaps)) (svp : MultiSvp)
    (s : MultiAttempts) : OpenCDMError × MultiAttempts :=
  let o := decryptBufferMultiOnce svp s.session buffers caps
  (o.result, ⟨o.session, s.events ++ o.events⟩)

/-- `opencdm_gstreamer_session_decrypt_buffer_multi` up to the loop. Without support for several buffers, or without
any, it has returned. -/
def multiStart (supported : Bool) (session : Option Session) (buffers : Option (List (Option Frame))) :
    Retry MultiAttempts :=
  { input := ⟨session, []⟩
    result :=
      if supported = false then some errorMethodNotImplemented
      else if buffers.getD [] = [] then some errorInvalidArg
      else none }

/-- The run of `opencdm_gstreamer_session_decrypt_buffer_multi` over rounds. -/
def multiStep (session : Option Session) (buffers : Option (List (Option Frame))) (caps : Option (Option ParsedCaps))
    (deadline : Nat) : Retry MultiAttempts → Round MultiSvp → Option (Retry MultiAttempts) :=
  retryStep session.isSome (scanKeyId (buffers.getD [])) deadline (attemptMulti buffers caps)

/-! ## The key ids of the samples -/

/-- The sample carries the key id. -/
def Carries (keyId : List UInt8) (sample : SampleInfo) : Prop :=
  sample.keyId.bytes = some keyId ∧ sample.keyId.length.toNat = keyId.length

/-- All samples of all calls carry the key id that was polled, if one was. -/
def SentPolled (keyId : List UInt8) (events : List MultiEvent) : Prop :=
  keyId ≠ [] → ∀ call result, .decryptV3 call result ∈ events → ∀ sample ∈ call.samples, Carries keyId sample

/-- The first buffer with something to decrypt, if there is one, carries the key id that the scan finds. -/
def FirstScanned (buffers : Option (List (Option Frame))) (r : Round MultiSvp) : Prop :=
  ∀ frames f, entriesOf buffers = some frames → frames.find? (Frame.encrypted r.env.hasMemory) = some f →
    copyKeyIdFromProtectionMeta (f.info.map MultiMeta.toProtectionMeta) = some (scanKeyId (buffers.getD []))

/-- The pointer and the size of a key id that is copied. -/
theorem copyKeyId_mapped (hasMemory : GstBuffer → Bool) {f : Frame} {keyId : List UInt8} (hne : keyId ≠ [])
    (h : copyKeyIdFromProtectionMeta (f.info.map MultiMeta.toProtectionMeta) = some keyId) :
    mapped hasMemory (entryOf f).keyIdGstBuf = some keyId ∧
      mappedSize (entryOf f).keyIdGstBuf = UInt32.ofNat keyId.length := by
  unfold entryOf
  cases hinfo : f.info with
  | none =>
    rw [hinfo] at h
    cases h
  | some protection =>
    rw [hinfo, Option.map_some, copyKeyIdFromProtectionMeta] at h
    obtain ⟨kid, hkid, hcopy⟩ := Option.bind_eq_some_iff.1 h
    cases kid with
    | none => cases hcopy
    | some b =>
      rw [copyKeyId] at hcopy
      split at hcopy
      · rename_i hmappable
        cases hcopy
        dsimp only
        rw [hkid, Option.join_some, mapped, Option.bind_some, if_pos ⟨hmappable, .inl hne⟩]
        exact ⟨rfl, rfl⟩
      · cases hcopy

/-- A key id is at most 255 bytes long when its status is usable. -/
theorem attempts_length {session : Bool} {keyId : List UInt8} {deadline : Nat} {r : Round MultiSvp} (hne : keyId ≠ [])
    (h : r.attempts session keyId deadline) : keyId.length ≤ 255 := by
  rcases h with hempty | ⟨-, husable⟩
  · exact absurd hempty hne
  · by_contra hlong
    rw [getKeyStatus, if_pos (.inr (.inr (by omega)))] at husable
    exact absurd husable (by decide)

/-- What an attempt sends. -/
theorem attempt_sent {session : Option Session} {buffers : Option (List (Option Frame))}
    {caps : Option (Option ParsedCaps)} {r : Round MultiSvp} {call : DecryptV3Call} {result : OpenCDMError}
    (hne : scanKeyId (buffers.getD []) ≠ []) (hlength : (scanKeyId (buffers.getD [])).length ≤ 255)
    (hfirst : FirstScanned buffers r)
    (h : .decryptV3 call result ∈ (decryptBufferMultiOnce r.env session buffers caps).events) :
    ∀ sample ∈ call.samples, Carries (scanKeyId (buffers.getD [])) sample := by
  cases hframes : entriesOf buffers with
  | none =>
    unfold decryptBufferMultiOnce at h
    rw [hframes] at h
    cases session <;> exact absurd h List.not_mem_nil
  | some frames =>
    obtain ⟨p, hp, href, hcall⟩ := decryptMultiOnce_call hframes h
    intro sample hin
    rw [hcall.2.2] at hin
    obtain ⟨f, hf, hsample⟩ := forall₂_exists hp.samples hin
    -- the reference of all samples is the first buffer to decrypt
    have hsome : (frames.find? (Frame.encrypted r.env.hasMemory)).isSome := by
      obtain ⟨hmem, henc⟩ := List.mem_filter.1 hf
      exact List.find?_isSome.2 ⟨f, hmem, henc⟩
    obtain ⟨f0, hfirst0⟩ := Option.isSome_iff_exists.1 hsome
    obtain ⟨hbytes, hsize⟩ := copyKeyId_mapped r.env.hasMemory hne (hfirst frames f0 hframes hfirst0)
    have hkey := hsample.keyId
    rw [href, hfirst0, Option.map_some, Option.getD_some, hbytes, hsize] at hkey
    rw [Carries, hkey]
    refine ⟨rfl, ?_⟩
    rw [UInt32.toNat_toUInt8, UInt32.toNat_ofNat_of_lt' (show _ < 4294967296 by omega)]
    exact Nat.mod_eq_of_lt (by omega)

/-! ## Runs -/

/-- In every run in which no buffer without anything to decrypt has another key id in front, the key id whose status
was polled is that of all samples. -/
theorem sent_polled (supported : Bool) (session : Option Session) (buffers : Option (List (Option Frame)))
    (caps : Option (Option ParsedCaps)) (deadline : Nat) (rounds : List (Round MultiSvp)) (s : Retry MultiAttempts)
    (h : Trace.Run (multiStep session buffers caps deadline) (fun _ r => FirstScanned buffers r)
      (multiStart supported session buffers) rounds s) :
    SentPolled (scanKeyId (buffers.getD [])) s.input.events := by
  refine h.invariant (fun s => SentPolled (scanKeyId (buffers.getD [])) s.input.events) ?_ fun _ _ _ hin => by cases hin
  intro s r s' hsent hfirst hstep hne call result hin
  rcases (retryStep_cases hstep).2 with hinput | ⟨htry, -, hinput⟩
  · rw [hinput] at hin
    exact hsent hne call result hin
  · rw [hinput] at hin
    rcases List.mem_append.1 hin with hin | hin
    · exact hsent hne call result hin
    · exact attempt_sent hne (attempts_length hne htry) hfirst hin

/-! ## A clear buffer in front -/

/-- A buffer with a table of clear bytes and the key id `[8]`. -/
def clearTable : Frame :=
  ⟨⟨5, [6, 7], true, by decide⟩, some ⟨⟨some 1, some (some ⟨6, [0, 2, 0, 0, 0, 0], true, by decide⟩),
    some (some ⟨7, [4], true, by decide⟩), some (some ⟨8, [8], true, by decide⟩), none, none, none, none⟩,
    "application/x-cenc"⟩⟩

/-- A round in which everything succeeds. -/
def plainRound : Round MultiSvp := ⟨0, .usable, plainMultiSvp, .usable⟩

/-- The run of one round. -/
def oneRound (frames : List Frame) : Option (Retry MultiAttempts) :=
  Trace.exec (multiStep (some ⟨false, false⟩) (some (frames.map some)) none 10) (fun _ _ => True)
    (multiStart true (some ⟨false, false⟩) (some (frames.map some))) [plainRound]

/-- The buffer without metadata carries no key id. -/
theorem clear_first (r : Round MultiSvp) : FirstScanned (some ([clearFrame, multiFrame 1 goodTable].map some)) r := by
  intro frames f hframes hf
  cases hframes
  obtain rfl : multiFrame 1 goodTable = f := Option.some.inj hf
  rfl

theorem sent_polled_second : ∃ s, oneRound [clearFrame, multiFrame 1 goodTable] = some s ∧
    SentPolled [9] s.input.events := by
  obtain ⟨s, hs⟩ := Option.isSome_iff_exists.1
    (show (oneRound [clearFrame, multiFrame 1 goodTable]).isSome by decide +kernel)
  exact ⟨s, hs, sent_polled true (some ⟨false, false⟩) (some ([clearFrame, multiFrame 1 goodTable].map some)) none 10
    [plainRound] s ((Trace.exec_run hs).mono fun _ r _ => clear_first r)⟩

/-- The status of the key id `[8]` is polled, and the sample carries `[9]`. -/
theorem other_key_sent : ¬ ∀ rounds s,
    Trace.Run (multiStep (some ⟨false, false⟩) (some ([clearTable, multiFrame 1 goodTable].map some)) none 10)
      (fun _ _ => True) (multiStart true (some ⟨false, false⟩) (some ([clearTable, multiFrame 1 goodTable].map some)))
      rounds s →
      SentPolled (scanKeyId ([clearTable, multiFrame 1 goodTable].map some)) s.input.events := by
  intro h
  have hcall : .decryptV3 (multiCallOf [⟨0, 4⟩]) 0 ∈
      ((oneRound [clearTable, multiFrame 1 goodTable]).get (by decide +kernel)).input.events := by decide +kernel
  have hcarries := h [plainRound] _ (Trace.exec_run (Option.some_get (by decide +kernel)).symm) (by decide) _ _ hcall _
    (List.mem_cons_self ..)
  exact absurd hcarries.1 (by decide)

end Ocdm.Adapter
