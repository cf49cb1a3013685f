/-
From the adapter to the CDM. For one buffer: what `opencdm_gstreamer_session_decrypt_buffer` hands to
`opencdm_session_decrypt_v2` is what the CDM gets, whatever was decrypted on the session before
(`cdm_gets_frame`). For an array of buffers: what `opencdm_gstreamer_session_decrypt_buffer_multi`
hands to `opencdm_session_decrypt_v3`, `DecryptMulti` writes into the shared block and the server's worker
reads again. The block has room for one key id, scheme and pattern only, those of the first sample; since
the adapter refuses buffers that differ in them, the CDM gets for every buffer the metadata of that buffer
(`cdm_gets_own`).
-/
import Ocdm.Adapter.MultiDecrypt
import Ocdm.Exchange.Requests

namespace Ocdm.Adapter

open Exchange (SubSampleInfo SampleInfo SampleParams Params Turn Request)

variable {hasMemory : GstBuffer → Bool}

/-! ## The samples the adapter sends -/

/-- `opencdm_session_decrypt_v3` with a call of the adapter: the samples by their index, and the data block with
what the header of secure memory makes of it. -/
def DecryptV3Call.request (call : DecryptV3Call) (svpData : List UInt8) : Request :=
  .decryptMulti svpData call.dataBlockSize (some fun i => call.samples.getD i Exchange.noSampleInfo)
    (UInt16.ofNat call.samples.length) (some call.streamProperties)

/-- What was mapped is what the metadata holds; the initialisation vector is swapped when the metadata asks for it. -/
theorem mapInputs_own {buffer : GstBuffer} {info : ProtectionMeta} {inputs : Inputs}
    (h : mapInputs buffer info = .ok inputs) :
    info.kid = some inputs.keyId ∧ (¬ info.subSampleCount.getD 0 > 0 → inputs.subSample = none) ∧
    ∃ iv, info.iv = some iv ∧ inputs.iv = (if info.initWithLast15.getD 0 = 1 then iv.map GstBuffer.swapped else iv) ∧
      inputs.info = { info with iv := some inputs.iv } := by
  unfold mapInputs at h
  dsimp only at h
  split at h
  · cases h
  · rename_i subSample e1 hsub
    split at h
    · cases h
    · rename_i iv e2 hiv
      split at h
      · cases h
      · rename_i keyId e3 hkid
        cases h
        refine ⟨(mapValue_ok hkid).1, fun hzero => ?_, iv, (mapValue_ok hiv).1, rfl, rfl⟩
        rw [if_neg hzero] at hsub
        cases hsub
        rfl

/-- `opencdm_session_decrypt_v2` with a call of the adapter. -/
def DecryptCall.request (call : DecryptCall) (svpData : List UInt8) : Request :=
  .decrypt svpData call.dataBlockSize (some call.sampleInfo) 0 (some call.streamProperties)

/-- The CDM gets the frame's own key id and initialisation vector, the scheme and the pattern of its metadata, and a
map of its subsamples: the one of its table when that fits, none for a count of zero, and no more than the count for a
null table. -/
structure GetsFrame (buffer : GstBuffer) (info : ProtectionMeta) (sample : SampleParams) : Prop where
  keyId : ∃ kid, info.kid = some kid ∧ sample.keyId = blobOf kid
  iv : ∃ iv, info.iv = some iv ∧
    sample.iv = blobOf (if info.initWithLast15.getD 0 = 1 then iv.map GstBuffer.swapped else iv)
  scheme : sample.scheme = if info.cipherMode = some "cbcs" then 4 else 1
  pattern : sample.pattern = ⟨info.cryptByteBlock.getD 0, info.skipByteBlock.getD 0⟩
  whole : ¬ info.subSampleCount.getD 0 > 0 → sample.subSample = ⟨0, none⟩
  nullTable : ∀ n, n > 0 → info.subSampleCount = some n → info.subSamples = some none →
    sample.subSample = ⟨n.toUInt8, none⟩
  subSample : ∀ n table, n > 0 → info.subSampleCount = some n → info.subSamples = some (some table) →
    TableFits table.bytes n.toNat buffer.bytes.length →
    MapOK table.bytes n.toNat buffer.bytes.length sample.subSample

/-- A table that fits is handed over as a map that covers the frame. -/
theorem buildMap_fits {svp : Svp} {buffer table : GstBuffer} {n : UInt32} (hframe : buffer.bytes ≠ []) (hn : n > 0)
    {map : Option (List SubSampleInfo)} {count totalEncryptedBytes : UInt32}
    (hfits : TableFits table.bytes n.toNat buffer.bytes.length)
    (h : buildMap svp buffer.size (some table) n = .ok (map, count, totalEncryptedBytes)) :
    MapOK table.bytes n.toNat buffer.bytes.length ⟨count.toUInt8, map⟩ := by
  obtain ⟨ps, hps, hsum⟩ := hfits
  obtain ⟨extra, rfl, hcount, hle, hextra, hclear, htotal⟩ := buildMap_ok hframe hn hps h
  have hlen : ps.length = n.toNat := by rw [(pairs_some hps).2]; simp
  obtain ⟨rest, htake, hrest⟩ := (counted_iff hlen buffer.fits hle hextra hclear htotal).2 hsum
  refine ⟨ps, ps ++ extra, rest, hps, rfl, ?_, hrest⟩
  rw [UInt32.toNat_toUInt8, hcount]
  exact htake

/-- Whenever the adapter hands a frame to the decryptor, on a session that any requests were made on before, the CDM
gets the frame's own metadata, and the stream of the caps. -/
theorem cdm_gets_frame (svp : Svp) (session : Option Session) (buffer : GstBuffer) (info : ProtectionMeta)
    (caps : Option ParsedCaps) (call : DecryptCall) (result : OpenCDMError) (hframe : buffer.bytes ≠ [])
    (hcall : .decrypt call result ∈ (decryptBufferOnce svp session buffer (some info) caps).events)
    (svpData : List UInt8) (batch : Bool) (b : Exchange.Block) (hb : b.sampleLength = 0) (earlier : List Turn) :
    ∃ sample, Exchange.paramsAfter batch b earlier (call.request svpData) =
        .decrypt sample ⟨(caps.getD (.none svp.garbage)).height, (caps.getD (.none svp.garbage)).width,
          (caps.getD (.none svp.garbage)).mediaType⟩ ∧
      GetsFrame buffer info sample := by
  obtain ⟨_, inputs, ⟨⟩, hmap, hdec⟩ := decryptBufferOnce_call hcall
  obtain ⟨hcount, htable, -⟩ := mapInputs_ok hmap
  obtain ⟨hkid, hnone, iv, hiv, hswap, hinfo⟩ := mapInputs_own hmap
  obtain ⟨map, count, totalEncryptedBytes, hbuild, rfl⟩ := decryptMapped_made hdec
  have hb := Exchange.run_sampleLength batch earlier hb
  refine ⟨_, Exchange.params_decrypt batch _ _ (some _) 0 (some _) hb,
    ⟨_, hkid, rfl⟩, ⟨iv, hiv, ?_⟩, ?_, ?_, ?_, ?_, ?_⟩
  · rw [← hswap]
    rfl
  · show (sampleInfoOf inputs map count).scheme.code = _
    unfold sampleInfoOf
    rw [hinfo]
    dsimp only
    split <;> rfl
  · show (sampleInfoOf inputs map count).pattern = _
    unfold sampleInfoOf
    rw [hinfo]
  · -- nothing is mapped for a count of zero
    intro hzero
    rw [hnone hzero, hcount] at hbuild
    cases hbuild
    have hcount : info.subSampleCount.getD 0 = 0 := by
      rw [gt_iff_lt, UInt32.lt_iff_toNat_lt] at hzero
      exact UInt32.toNat_inj.1 (Nat.eq_zero_of_not_pos hzero)
    show Exchange.SubSampleMap.mk (info.subSampleCount.getD 0).toUInt8 none = _
    rw [hcount]
    rfl
  · intro n hn hcnt hsub
    rw [hcnt, Option.getD_some] at hcount htable
    rw [hsub] at htable
    rw [hcount, ← Option.some.inj (htable hn)] at hbuild
    cases hbuild
    rfl
  · intro n table hn hcnt hsub hfits
    rw [hcnt, Option.getD_some] at hcount htable
    rw [hsub] at htable
    rw [hcount, ← Option.some.inj (htable hn)] at hbuild
    exact buildMap_fits hframe hn hfits hbuild

/-- A frame with all its bytes encrypted, behind another request of the session. -/
theorem cdm_gets_frame_good : ∃ sample,
    Exchange.paramsAfter false Exchange.Block.zero [Exchange.leaving .aesCbcCbcs ⟨1080, 1920, .video⟩]
      ((callOf [⟨0, 4⟩]).request [1, 2, 3, 4]) = .decrypt sample ⟨0, 0, .unknown⟩ ∧
    GetsFrame frame (infoOf 1 goodTable) sample :=
  cdm_gets_frame plainSvp (some ⟨false, false⟩) frame (infoOf 1 goodTable) none (callOf [⟨0, 4⟩]) 0 (by decide)
    good_call [1, 2, 3, 4] false Exchange.Block.zero rfl [Exchange.leaving .aesCbcCbcs ⟨1080, 1920, .video⟩]

end Ocdm.Adapter
