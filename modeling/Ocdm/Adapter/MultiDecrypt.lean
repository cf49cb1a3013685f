/-
`opencdm_gstreamer_session_decrypt_buffer_multi_once` of the RDK adapter (open_cdm_adapter.cpp): reading
the protection metadata of all buffers, the loop that prepares a sample for each buffer with something to
decrypt, the data block these buffers are copied to, and the call of `opencdm_session_decrypt_v3`. Buffers
without anything to decrypt are left out of the call and transformed as clear data. The samples cover
their buffers exactly when no table's pairs add up to 2^32 or more: the sum that is checked wraps
(`samples_cover_iff`).
-/
import Ocdm.Adapter.DecryptBuffer
import Mathlib.Algebra.BigOperators.Group.List.Lemmas
import Mathlib.Algebra.Order.BigOperators.Group.List
import Mathlib.Algebra.Order.Group.Nat
import Mathlib.Data.List.Forall2

namespace Ocdm.Adapter

open Exchange (SubSampleInfo SampleInfo MediaProperties MediaType EncryptionScheme EncryptionPattern Blob SubSampleMap)

/-! ## Buffers -/

/-- The fields of a `GstProtectionMeta` with the name of its structure. -/
structure MultiMeta extends ProtectionMeta where
  name : String

/-- A buffer of the array, with its metadata if it has any. -/
structure Frame where
  buffer : GstBuffer
  info : Option MultiMeta

/-- The arguments of `opencdm_session_decrypt_v3`: what was copied into the data block, the size the block
was asked for with and its own size, the samples and the stream. -/
structure DecryptV3Call where
  data : List UInt8
  requested : UInt32
  dataBlockSize : UInt32
  samples : List SampleInfo
  streamProperties : MediaProperties
deriving DecidableEq, Repr

inductive MultiEvent where
  | map (buffer : Nat) (ok : Bool)
  | unmap (buffer : Nat)
  | setDecryptToHost (value ok : Bool)
  | setInPlace
  | decryptV3 (call : DecryptV3Call) (result : OpenCDMError)
  | appendTransform (buffers : List Nat) (size : UInt32) (ok : Bool)
  | transformFromClear (buffer : Nat) (mediaType : MediaType)
deriving DecidableEq, Repr

/-- The surroundings of the multi-frame path. Mapping an empty buffer gives a null pointer unless it has
memory. -/
structure MultiSvp extends Svp where
  hasMemory : GstBuffer → Bool
  decryptV3 : DecryptV3Call → OpenCDMError
  arrayAppendTransform : Bool

/-! ## Reading the metadata -/

structure ProtectionMetaInfo where
  encrypted : Bool := false
  dataBuf : Option GstBuffer := none
  ivGstBuf : Option GstBuffer := none
  keyIdGstBuf : Option GstBuffer := none
  subSamplesGstBuf : Option GstBuffer := none
  subSamplesCount : UInt32 := 0
  pattern : EncryptionPattern := ⟨0, 0⟩
  encScheme : EncryptionScheme := .clear

/-- A buffer is there and can be mapped. -/
def canMap : Option GstBuffer → Bool
  | none => false
  | some b => b.mappable

/-- The call of `mapBuffer`, for a buffer that is there. -/
def mapEvent : Option GstBuffer → List MultiEvent
  | none => []
  | some b => [.map b.id b.mappable]

def schemeOf (info : MultiMeta) : EncryptionScheme :=
  if info.name = "application/x-cbcs" ∨ info.cipherMode = some "cbcs" then .aesCbcCbcs else .aesCtrCenc

/-- The buffer of the table, which is looked for only when there are subsamples. -/
def tableBuffer (protection : ProtectionMeta) : Option GstBuffer :=
  if protection.subSampleCount.getD 0 > 0 then protection.subSamples.join else none

/-- One pass of `extractProtectionMetaMulti`: the result, what it has filled in, and the mappings. -/
def extractProtectionMeta (buffer : GstBuffer) (protection : MultiMeta) :
    OpenCDMError × ProtectionMetaInfo × List MultiEvent :=
  let info : ProtectionMetaInfo := { subSamplesCount := protection.subSampleCount.getD 0 }
  if info.subSamplesCount > 255 then (errorInvalidDecryptBuffer, info, [])
  else
    let info := { info with subSamplesGstBuf := tableBuffer protection.toProtectionMeta }
    let e1 := mapEvent info.subSamplesGstBuf
    if info.subSamplesCount > 0 ∧ canMap info.subSamplesGstBuf = false then (errorInvalidDecryptBuffer, info, e1)
    else
      let info := { info with ivGstBuf := protection.iv.join }
      let e2 := e1 ++ mapEvent info.ivGstBuf
      if canMap info.ivGstBuf = false then (errorInvalidDecryptBuffer, info, e2)
      else
        let e3 := e2 ++ [.map buffer.id buffer.mappable]
        if buffer.mappable = false then (errorInvalidDecryptBuffer, info, e3)
        else
          let info := { info with dataBuf := some buffer, keyIdGstBuf := protection.kid.join }
          let e4 := e3 ++ mapEvent info.keyIdGstBuf
          if canMap info.keyIdGstBuf = false then (errorInvalidDecryptBuffer, info, e4)
          else
            let pattern : EncryptionPattern := ⟨protection.cryptByteBlock.getD 0, protection.skipByteBlock.getD 0⟩
            (errorNone, { info with encScheme := schemeOf protection, pattern := pattern }, e4)

def extractFrame (frame : Frame) : OpenCDMError × ProtectionMetaInfo × List MultiEvent :=
  match frame.info with
  | some protection => extractProtectionMeta frame.buffer protection
  | none => (errorNone, {}, [])

/-- `extractProtectionMetaMulti`; the entries behind the buffer it stops at are as they were made. -/
def extractProtectionMetaMulti : List Frame → OpenCDMError × List ProtectionMetaInfo × List MultiEvent
  | [] => (errorNone, [], [])
  | frame :: frames =>
    let r := extractFrame frame
    if r.1 = errorNone then
      let rest := extractProtectionMetaMulti frames
      (rest.1, r.2.1 :: rest.2.1, r.2.2 ++ rest.2.2)
    else (r.1, r.2.1 :: frames.map fun _ => {}, r.2.2)

/-! ## Preparing the samples -/

section

variable (hasMemory : GstBuffer → Bool)

/-- The pointer of a mapping. -/
def mapped (b : Option GstBuffer) : Option (List UInt8) :=
  b.bind fun b => if b.mappable ∧ (b.bytes ≠ [] ∨ hasMemory b) then some b.bytes else none

def mappedSize (b : Option GstBuffer) : UInt32 := (b.map GstBuffer.size).getD 0

/-- The loop that looks for a pair with encrypted bytes, if the table can be read so far. -/
def findEncrypted (table : List UInt8) : Nat → Nat → Option Bool
  | 0, _ => some false
  | count + 1, pos =>
    match getUint16BE table pos with
    | (none, _) => none
    | (some _, pos) =>
      match getUint32BE table pos with
      | (none, _) => none
      | (some inEncrypted, pos) => if inEncrypted > 0 then some true else findEncrypted table count pos

/-- Is there anything to decrypt in the sample? -/
def toDecrypt (info : ProtectionMetaInfo) : Except OpenCDMError Bool :=
  if info.subSamplesGstBuf.isNone && info.ivGstBuf.isNone && info.keyIdGstBuf.isNone then .ok false
  else
    match mapped hasMemory info.subSamplesGstBuf with
    | some table =>
      match findEncrypted table info.subSamplesCount.toNat 0 with
      | none => .error errorInvalidDecryptBuffer
      | some encrypted => .ok (encrypted && decide (mappedSize info.dataBuf ≠ 0))
    | none => .ok (decide (mappedSize info.dataBuf ≠ 0))

/-- The loop that reads all pairs of a table, with their sum. -/
def readPairs (table : List UInt8) : Nat → Nat → List SubSampleInfo → UInt32 → Option (List SubSampleInfo × UInt32)
  | 0, _, subSamples, totalSubSampleBytes => some (subSamples, totalSubSampleBytes)
  | count + 1, pos, subSamples, totalSubSampleBytes =>
    match getUint16BE table pos with
    | (none, _) => none
    | (some inClear, pos) =>
      match getUint32BE table pos with
      | (none, _) => none
      | (some inEncrypted, pos) =>
        readPairs table count pos (subSamples ++ [⟨inClear, inEncrypted⟩])
          (totalSubSampleBytes + (inClear.toUInt32 + inEncrypted))

/-- The loop of `extend_subsample_map_multi`; `fuel` bounds its passes. -/
def extendSubsampleMapMulti : Nat → UInt32 → List SubSampleInfo → List SubSampleInfo
  | 0, _, subSamples => subSamples
  | fuel + 1, additionalBytes, subSamples =>
    if additionalBytes > 0 then
      let clearBytes : UInt16 := if additionalBytes > 0xFFFF then 0xFFFF else additionalBytes.toUInt16
      extendSubsampleMapMulti fuel (additionalBytes - clearBytes.toUInt32) (subSamples ++ [⟨clearBytes, 0⟩])
    else subSamples

/-- `validate_subsample_map_multi` -/
def validateSubsampleMapMulti (subSamples : List SubSampleInfo) (frameSize totalSubsampleBytes : UInt32) :
    Except OpenCDMError (List SubSampleInfo) :=
  if frameSize = totalSubsampleBytes then .ok subSamples
  else if frameSize > totalSubsampleBytes then
    .ok (extendSubsampleMapMulti (frameSize - totalSubsampleBytes).toNat (frameSize - totalSubsampleBytes) subSamples)
  else .error errorInvalidDecryptBuffer

/-- The subsamples of a sample. -/
def subSamplesOf (info : ProtectionMetaInfo) : Except OpenCDMError (List SubSampleInfo) :=
  match mapped hasMemory info.subSamplesGstBuf with
  | some table =>
    match readPairs table info.subSamplesCount.toNat 0 [] 0 with
    | none => .error errorInvalidDecryptBuffer
    | some (subSamples, totalSubSampleBytes) =>
      validateSubsampleMapMulti subSamples (mappedSize info.dataBuf) totalSubSampleBytes
  | none => .ok [⟨0, mappedSize info.dataBuf⟩]

/-- `keyIdsEqual`; two null pointers are not equal. -/
def keyIdsEqual (lhs rhs : Option (List UInt8)) : Bool := lhs.isSome && decide (lhs = rhs)

/-- What the loop over the buffers has prepared; `ref` is the entry at `refIdx`. -/
structure Prepared where
  infos : List ProtectionMetaInfo := []
  samples : List SampleInfo := []
  buffToDecrypt : List GstBuffer := []
  totalBytesToDecrypt : UInt32 := 0
  ref : Option ProtectionMetaInfo := none

def sampleInfoMulti (info : ProtectionMetaInfo) (subSamples : List SubSampleInfo) : SampleInfo where
  scheme := info.encScheme
  pattern := info.pattern
  iv := ⟨(mappedSize info.ivGstBuf).toUInt8, mapped hasMemory info.ivGstBuf⟩
  keyId := ⟨(mappedSize info.keyIdGstBuf).toUInt8, mapped hasMemory info.keyIdGstBuf⟩
  subSample := ⟨UInt8.ofNat subSamples.length, some subSamples⟩

/-- One pass of the loop over the buffers. -/
def prepareSample (p : Prepared) (frame : GstBuffer × ProtectionMetaInfo) : Except OpenCDMError Prepared :=
  let info := frame.2
  match toDecrypt hasMemory info with
  | .error e => .error e
  | .ok false => .ok { p with infos := p.infos ++ [info] }
  | .ok true =>
    match subSamplesOf hasMemory info with
    | .error e => .error e
    | .ok subSamples =>
      let ref := p.ref.getD info
      if keyIdsEqual (mapped hasMemory ref.keyIdGstBuf) (mapped hasMemory info.keyIdGstBuf) = false then
        .error errorInvalidDecryptBuffer
      else if ref.encScheme ≠ info.encScheme then .error errorInvalidDecryptBuffer
      else if ref.pattern ≠ info.pattern then .error errorInvalidDecryptBuffer
      else if subSamples.length > 255 then .error errorInvalidDecryptBuffer
      else .ok {
        infos := p.infos ++ [{ info with encrypted := true }]
        samples := p.samples ++ [sampleInfoMulti hasMemory info subSamples]
        buffToDecrypt := p.buffToDecrypt ++ [frame.1]
        totalBytesToDecrypt := p.totalBytesToDecrypt + mappedSize info.dataBuf
        ref := some ref }

end

/-! ## Decrypting -/

/-- `extractMediaInfoMulti` and `toMediaTypeMulti`: the stream, whether secure memory is disabled, and the
`media_type`. The caps may be null, and may not convert to a string. -/
def mediaInfoMulti : Option (Option ParsedCaps) → MediaProperties × Bool × MediaType
  | none => (⟨0, 0, .unknown⟩, false, .data)
  | some none => (⟨0, 0, .unknown⟩, false, .unknown)
  | some (some caps) =>
    (⟨caps.height, caps.width, caps.mediaType⟩, decide (caps.mediaType = .video) && caps.secureMemoryDisabled,
      caps.mediaType)

/-- The loop that copies the buffers to decrypt one behind the other. -/
def copyEncrypted (infos : List ProtectionMetaInfo) : List UInt8 :=
  infos.foldl (fun data info => if info.encrypted then data ++ (info.dataBuf.map GstBuffer.bytes).getD [] else data) []

/-- The call of `opencdm_session_decrypt_v3`, unless the memory allocated for it was revoked. -/
def callDecryptV3 (svp : MultiSvp) (isSecureMemoryDisabled : Bool) (call : DecryptV3Call) :
    OpenCDMError × List MultiEvent :=
  let needSecureMemoryPrealloc := decide (call.streamProperties.mediaType = .video) && svp.supportsMemoryPrealloc &&
    !isSecureMemoryDisabled
  let tokenType := svp.headerType.getD .inPlace
  if needSecureMemoryPrealloc && decide (tokenType = .other) then (errorNone, [])
  else (svp.decryptV3 call,
    (if isSecureMemoryDisabled then [.setInPlace] else []) ++ [.decryptV3 call (svp.decryptV3 call)])

/-- The data block, the call, and the transform of what it decrypted. -/
def decryptPrepared (svp : MultiSvp) (p : Prepared) (stream : MediaProperties) (isSecureMemoryDisabled : Bool) :
    OpenCDMError × List MultiEvent :=
  if svp.dataBlockSize > 0 then
    let r := callDecryptV3 svp isSecureMemoryDisabled
      ⟨copyEncrypted p.infos, p.totalBytesToDecrypt, svp.dataBlockSize, p.samples, stream⟩
    if r.1 = errorNone then
      (if svp.arrayAppendTransform then errorNone else errorFail,
        r.2 ++ [.appendTransform (p.buffToDecrypt.map GstBuffer.id) p.totalBytesToDecrypt svp.arrayAppendTransform])
    else r
  else (errorOutOfMemory, [])

/-- The update of `decryptToHost` in the SVP context. -/
def updateDecryptToHostMulti (svp : MultiSvp) (session : Session) (isSecureMemoryDisabled : Bool) :
    Session × List MultiEvent :=
  match svp.setValue with
  | some setValue =>
    let r := session.needsDecryptToHostUpdate isSecureMemoryDisabled
    (r.2, if r.1 then [.setDecryptToHost isSecureMemoryDisabled (setValue isSecureMemoryDisabled)] else [])
  | none => (session, [])

/-- The unmapping of what an entry has mapped. -/
def unmapEntry (hasMemory : GstBuffer → Bool) (info : ProtectionMetaInfo) : List MultiEvent :=
  ([info.dataBuf, info.ivGstBuf, info.keyIdGstBuf, info.subSamplesGstBuf].filter
    fun b => (mapped hasMemory b).isSome).filterMap fun b => b.map fun b => .unmap b.id

/-- The transform of the buffers without anything to decrypt. -/
def transformClear (buffers : List GstBuffer) (infos : List ProtectionMetaInfo) (mediaType : MediaType) :
    List MultiEvent :=
  ((buffers.zip infos).filter fun entry => !entry.2.encrypted).map fun entry => .transformFromClear entry.1.id mediaType

structure MultiOutcome where
  result : OpenCDMError
  events : List MultiEvent
  session : Option Session

/-- The buffers, if the array is there, not empty, and none of them is null. -/
def entriesOf (buffers : Option (List (Option Frame))) : Option (List Frame) :=
  buffers.bind fun buffers => if buffers = [] then none else buffers.mapM id

/-- `opencdm_gstreamer_session_decrypt_buffer_multi_once` -/
def decryptBufferMultiOnce (svp : MultiSvp) (session : Option Session) (buffers : Option (List (Option Frame)))
    (caps : Option (Option ParsedCaps)) : MultiOutcome :=
  match session, entriesOf buffers with
  | some session, some frames =>
    let (result, infos, mappings) := extractProtectionMetaMulti frames
    let cleanup := infos.flatMap (unmapEntry svp.hasMemory)
    if result = errorNone then
      let (stream, isSecureMemoryDisabled, mediaType) := mediaInfoMulti caps
      let (session, update) := updateDecryptToHostMulti svp session isSecureMemoryDisabled
      match ((frames.map Frame.buffer).zip infos).foldlM (prepareSample svp.hasMemory) {} with
      | .error e => ⟨e, mappings ++ update ++ cleanup, some session⟩
      | .ok p =>
        let r := if p.totalBytesToDecrypt > 0 then decryptPrepared svp p stream isSecureMemoryDisabled
          else (errorNone, [])
        let clear := if r.1 = errorNone then transformClear (frames.map Frame.buffer) p.infos mediaType else []
        ⟨r.1, mappings ++ update ++ r.2 ++ clear ++ cleanup, some session⟩
    else ⟨result, mappings ++ cleanup, some session⟩
  | session, _ => ⟨errorInvalidSession, [], session⟩

/-! ## Reading the table of a buffer -/

/-- Pairs of a table from a position on. -/
def pairsFrom (table : List UInt8) : Nat → Nat → List SubSampleInfo
  | 0, _ => []
  | count + 1, pos => pairAt table pos :: pairsFrom table count (pos + 6)

theorem pairsFrom_eq (table : List UInt8) (count pos : Nat) :
    pairsFrom table count pos = (List.range count).map fun i => pairAt table (pos + 6 * i) := by
  induction count generalizing pos with
  | zero => rfl
  | succ count ih =>
    rw [pairsFrom, ih, List.range_succ_eq_map, List.map_cons, List.map_map]
    refine congrArg (pairAt table (pos + 6 * 0) :: ·) (List.map_congr_left fun i _ => ?_)
    show pairAt table (pos + 6 + 6 * i) = pairAt table (pos + 6 * (i + 1))
    rw [show pos + 6 + 6 * i = pos + 6 * (i + 1) by omega]

theorem pairs_pairsFrom {table : List UInt8} {count : Nat} (h : count = 0 ∨ 6 * count ≤ table.length) :
    pairs table count = some (pairsFrom table count 0) := by
  unfold pairs
  rw [if_pos (by omega), pairsFrom_eq]
  simp

/-- One pair is read when six bytes are left. -/
theorem read_pair {table : List UInt8} {pos p1 p2 : Nat} {clear : UInt16} {encrypted : UInt32}
    (h1 : getUint16BE table pos = (some clear, p1)) (h2 : getUint32BE table p1 = (some encrypted, p2)) :
    pos + 6 ≤ table.length ∧ p2 = pos + 6 ∧ pairAt table pos = ⟨clear, encrypted⟩ := by
  have h16 : pos + 2 ≤ table.length := by
    by_contra hlt
    rw [getUint16BE, if_neg hlt] at h1
    cases h1
  rw [getUint16BE_some h16] at h1
  cases h1
  have h32 : pos + 2 + 4 ≤ table.length := by
    by_contra hlt
    rw [getUint32BE, if_neg hlt] at h2
    cases h2
  rw [getUint32BE_some h32] at h2
  cases h2
  exact ⟨by omega, rfl, rfl⟩

theorem readPairs_some {table : List UInt8} {count pos : Nat} {acc subSamples : List SubSampleInfo} {sum sum' : UInt32}
    (h : readPairs table count pos acc sum = some (subSamples, sum')) :
    (count = 0 ∨ pos + 6 * count ≤ table.length) ∧ subSamples = acc ++ pairsFrom table count pos ∧
      sum'.toNat = (sum.toNat + total (pairsFrom table count pos)) % 4294967296 := by
  induction count generalizing pos acc sum with
  | zero =>
    cases h
    refine ⟨.inl rfl, (List.append_nil _).symm, ?_⟩
    rw [pairsFrom, total_nil, Nat.add_zero, Nat.mod_eq_of_lt sum'.toNat_lt]
  | succ count ih =>
    rw [readPairs] at h
    split at h
    · cases h
    · rename_i clear p1 h1
      split at h
      · cases h
      · rename_i encrypted p2 h2
        obtain ⟨hroom, rfl, hpair⟩ := read_pair h1 h2
        obtain ⟨hrest, hsub, hsum⟩ := ih h
        refine ⟨.inr (by omega), ?_, ?_⟩
        · rw [hsub, pairsFrom, hpair, List.append_assoc]
          rfl
        · rw [hsum, pairsFrom, hpair, total_cons, UInt32.toNat_add, UInt32.toNat_add, UInt16.toNat_toUInt32, span]
          dsimp only
          omega

/-- What the search for encrypted bytes says about a table that it reads. -/
theorem findEncrypted_some {table : List UInt8} {count pos : Nat} {found : Bool}
    (h : findEncrypted table count pos = some found) :
    (found = true → ∃ e ∈ pairsFrom table count pos, e.encryptedBytes > 0) ∧
    (found = false → (count = 0 ∨ pos + 6 * count ≤ table.length) ∧
      ∀ e ∈ pairsFrom table count pos, ¬ e.encryptedBytes > 0) := by
  induction count generalizing pos with
  | zero =>
    cases h
    exact ⟨fun hf => (by cases hf), fun _ => ⟨.inl rfl, fun e he => by cases he⟩⟩
  | succ count ih =>
    rw [findEncrypted] at h
    split at h
    · cases h
    · rename_i clear p1 h1
      split at h
      · cases h
      · rename_i encrypted p2 h2
        obtain ⟨hroom, rfl, hpair⟩ := read_pair h1 h2
        rw [pairsFrom, hpair]
        split at h
        · rename_i hpos
          cases h
          exact ⟨fun _ => ⟨_, List.mem_cons_self .., hpos⟩, fun hf => by cases hf⟩
        · rename_i hzero
          obtain ⟨htrue, hfalse⟩ := ih h
          constructor
          · intro hf
            obtain ⟨e, he, hpos⟩ := htrue hf
            exact ⟨e, List.mem_cons_of_mem _ he, hpos⟩
          · intro hf
            obtain ⟨hrest, hall⟩ := hfalse hf
            refine ⟨.inr (by omega), fun e he => ?_⟩
            rcases List.mem_cons.1 he with rfl | he
            · exact hzero
            · exact hall e he

/-- Extending appends the clear entries that cover the bytes missing. -/
theorem extendMulti_extra {fuel : Nat} {additionalBytes : UInt32} {subSamples : List SubSampleInfo}
    (hfuel : additionalBytes.toNat ≤ fuel) (hpos : 0 < additionalBytes.toNat) :
    extendSubsampleMapMulti fuel additionalBytes subSamples = subSamples ++ extraEntries additionalBytes.toNat := by
  induction fuel generalizing additionalBytes subSamples with
  | zero => omega
  | succ fuel ih =>
    have hgt : additionalBytes > 0 := UInt32.lt_iff_toNat_lt.2 hpos
    rw [extendSubsampleMapMulti, if_pos hgt]
    dsimp only
    split
    · rename_i hbig
      have hbig : 65535 < additionalBytes.toNat := UInt32.lt_iff_toNat_lt.1 hbig
      have hsub : (additionalBytes - (0xFFFF : UInt16).toUInt32).toNat = additionalBytes.toNat - 65535 :=
        UInt32.toNat_sub_of_le _ _ (UInt32.le_iff_toNat_le.2 (by show 65535 ≤ _; omega))
      rw [ih (by omega) (by omega), hsub, extraEntries_big hbig, List.append_assoc]
      rfl
    · rename_i hsmall
      rw [gt_iff_lt, UInt32.lt_iff_toNat_lt, not_lt] at hsmall
      have hsmall : additionalBytes.toNat ≤ 65535 := hsmall
      have hclear : additionalBytes.toUInt16.toUInt32 = additionalBytes := by
        apply UInt32.toNat_inj.1
        rw [UInt16.toNat_toUInt32, UInt32.toNat_toUInt16]
        omega
      -- this entry is the last one
      have hstop : ∀ subSamples, extendSubsampleMapMulti fuel 0 subSamples = subSamples := by
        intro subSamples
        cases fuel <;> rfl
      rw [hclear, UInt32.sub_self, hstop, extraEntries_small hpos hsmall]
      rfl

/-- They are as many as that takes, and cover these bytes. -/
theorem extendMulti_eq {fuel : Nat} {additionalBytes : UInt32} {subSamples : List SubSampleInfo}
    (hfuel : additionalBytes.toNat ≤ fuel) : ∃ extra, extendSubsampleMapMulti fuel additionalBytes subSamples =
      subSamples ++ extra ∧ extra.length = entriesFor additionalBytes.toNat ∧ total extra = additionalBytes.toNat := by
  rcases Nat.eq_zero_or_pos additionalBytes.toNat with hzero | hpos
  · refine ⟨[], ?_, by rw [hzero]; rfl, by rw [hzero]; rfl⟩
    obtain rfl : additionalBytes = 0 := UInt32.toNat_inj.1 hzero
    cases fuel <;> exact (List.append_nil _).symm
  · exact ⟨_, extendMulti_extra hfuel hpos, extraEntries_length hpos, extraEntries_total hpos⟩

/-! ## What a buffer contributes -/

/-- The entry of a buffer whose metadata could be read. -/
def entryOf (frame : Frame) : ProtectionMetaInfo :=
  match frame.info with
  | none => {}
  | some protection =>
    { dataBuf := some frame.buffer
      ivGstBuf := protection.iv.join
      keyIdGstBuf := protection.kid.join
      subSamplesGstBuf := tableBuffer protection.toProtectionMeta
      subSamplesCount := protection.subSampleCount.getD 0
      pattern := ⟨protection.cryptByteBlock.getD 0, protection.skipByteBlock.getD 0⟩
      encScheme := schemeOf protection }

/-- The metadata of a buffer can be read. -/
structure Readable (buffer : GstBuffer) (protection : MultiMeta) : Prop where
  count : ¬ protection.subSampleCount.getD 0 > 255
  subSamples : protection.subSampleCount.getD 0 > 0 → canMap (tableBuffer protection.toProtectionMeta) = true
  iv : canMap protection.iv.join = true
  buffer : buffer.mappable = true
  kid : canMap protection.kid.join = true

theorem extractProtectionMeta_cases (buffer : GstBuffer) (protection : MultiMeta) :
    (Readable buffer protection ∧ (extractProtectionMeta buffer protection).1 = errorNone ∧
      (extractProtectionMeta buffer protection).2.1 = entryOf ⟨buffer, some protection⟩) ∨
    (¬ Readable buffer protection ∧ (extractProtectionMeta buffer protection).1 = errorInvalidDecryptBuffer) := by
  unfold extractProtectionMeta
  dsimp only
  split
  · rename_i h
    exact .inr ⟨fun hr => hr.count h, rfl⟩
  · rename_i hcount
    split
    · rename_i h
      exact .inr ⟨fun hr => absurd (hr.subSamples h.1) (by rw [h.2]; exact Bool.false_ne_true), rfl⟩
    · rename_i hsub
      split
      · rename_i h
        exact .inr ⟨fun hr => absurd hr.iv (by rw [h]; exact Bool.false_ne_true), rfl⟩
      · rename_i hiv
        split
        · rename_i h
          exact .inr ⟨fun hr => absurd hr.buffer (by rw [h]; exact Bool.false_ne_true), rfl⟩
        · rename_i hbuffer
          split
          · rename_i h
            exact .inr ⟨fun hr => absurd hr.kid (by rw [h]; exact Bool.false_ne_true), rfl⟩
          · rename_i hkid
            refine .inl ⟨⟨hcount, fun hpos => ?_, Bool.eq_true_of_not_eq_false hiv,
              Bool.eq_true_of_not_eq_false hbuffer, Bool.eq_true_of_not_eq_false hkid⟩, rfl, rfl⟩
            exact Bool.eq_true_of_not_eq_false fun hfalse => hsub ⟨hpos, hfalse⟩

theorem extractFrame_ok {frame : Frame} (h : (extractFrame frame).1 = errorNone) :
    (extractFrame frame).2.1 = entryOf frame ∧
    ∀ protection, frame.info = some protection → Readable frame.buffer protection := by
  obtain ⟨buffer, info⟩ := frame
  cases info with
  | none => exact ⟨rfl, fun _ hinfo => by cases hinfo⟩
  | some protection =>
    rcases extractProtectionMeta_cases buffer protection with ⟨hread, -, hentry⟩ | ⟨-, herror⟩
    · exact ⟨hentry, fun _ hinfo => by cases hinfo; exact hread⟩
    · exact absurd (herror.symm.trans h) (by decide)

theorem extractMulti_ok {frames : List Frame} (h : (extractProtectionMetaMulti frames).1 = errorNone) :
    (extractProtectionMetaMulti frames).2.1 = frames.map entryOf ∧
    ∀ f ∈ frames, ∀ protection, f.info = some protection → Readable f.buffer protection := by
  induction frames with
  | nil => exact ⟨rfl, fun f hf => by cases hf⟩
  | cons frame frames ih =>
    rw [extractProtectionMetaMulti] at h ⊢
    dsimp only at h ⊢
    by_cases hok : (extractFrame frame).1 = errorNone
    · rw [if_pos hok] at h ⊢
      obtain ⟨hentry, hread⟩ := extractFrame_ok hok
      obtain ⟨hentries, hall⟩ := ih h
      refine ⟨by rw [List.map_cons, ← hentry, ← hentries], fun f hf => ?_⟩
      rcases List.mem_cons.1 hf with rfl | hf
      · exact hread
      · exact hall f hf
    · rw [if_neg hok] at h
      exact absurd h hok

section

variable (hasMemory : GstBuffer → Bool)

/-- The mapped table of a buffer. -/
def Frame.table (f : Frame) : Option (List UInt8) := mapped hasMemory (entryOf f).subSamplesGstBuf

/-- The buffer has metadata, data, and encrypted bytes in its table, if it has one. -/
def Frame.encrypted (f : Frame) : Bool :=
  f.info.isSome && decide (f.buffer.bytes ≠ []) &&
    match f.table hasMemory with
    | none => true
    | some table => ((pairs table (entryOf f).subSamplesCount.toNat).getD []).any fun e => decide (e.encryptedBytes > 0)

/-- The pairs of the table, if there is one, do not add up to 2^32 or more. -/
def Frame.Fits (f : Frame) : Prop :=
  ∀ table ps, f.table hasMemory = some table → pairs table (entryOf f).subSamplesCount.toNat = some ps →
    total ps < 4294967296

/-- The subsamples of a buffer: as many as fit eight bits, covering it exactly if its table fits. -/
def SubSamplesOf (f : Frame) (subSamples : List SubSampleInfo) : Prop :=
  subSamples.length ≤ 255 ∧ (total subSamples = f.buffer.bytes.length ↔ f.Fits hasMemory)

variable {hasMemory}

theorem mappedSize_data {f : Frame} {protection : MultiMeta} (h : f.info = some protection) :
    (mappedSize (entryOf f).dataBuf).toNat = f.buffer.bytes.length ∧
    decide (mappedSize (entryOf f).dataBuf ≠ 0) = decide (f.buffer.bytes ≠ []) := by
  have hsize : mappedSize (entryOf f).dataBuf = f.buffer.size := by
    unfold entryOf
    rw [h]
    rfl
  rw [hsize, f.buffer.size_toNat]
  refine ⟨rfl, ?_⟩
  rw [decide_eq_decide, not_iff_not, ← UInt32.toNat_inj, f.buffer.size_toNat]
  exact List.length_eq_zero_iff

/-- Which buffers have something to decrypt. -/
theorem toDecrypt_ok {f : Frame} {b : Bool}
    (hread : ∀ protection, f.info = some protection → Readable f.buffer protection)
    (h : toDecrypt hasMemory (entryOf f) = .ok b)
    (htable : b = true → ∀ table, f.table hasMemory = some table →
      6 * (entryOf f).subSamplesCount.toNat ≤ table.length) : f.encrypted hasMemory = b := by
  unfold toDecrypt at h
  unfold Frame.encrypted
  cases hinfo : f.info with
  | none =>
    have hnone : ((entryOf f).subSamplesGstBuf.isNone && (entryOf f).ivGstBuf.isNone &&
        (entryOf f).keyIdGstBuf.isNone) = true := by
      unfold entryOf
      rw [hinfo]
      rfl
    rw [if_pos hnone] at h
    cases h
    rfl
  | some protection =>
    have hsome : ¬ ((entryOf f).subSamplesGstBuf.isNone && (entryOf f).ivGstBuf.isNone &&
        (entryOf f).keyIdGstBuf.isNone) = true := by
      have hiv := (hread protection hinfo).iv
      unfold entryOf
      rw [hinfo]
      cases hj : protection.iv.join with
      | none => rw [hj] at hiv; exact absurd hiv Bool.false_ne_true
      | some iv => simp [hj]
    obtain ⟨-, hdata⟩ := mappedSize_data hinfo
    rw [if_neg hsome, hdata] at h
    change (match f.table hasMemory with | some table => _ | none => _) = _ at h
    cases htab : f.table hasMemory with
    | none =>
      rw [htab] at h
      cases h
      simp
    | some table =>
      rw [htab] at h
      dsimp only at h
      split at h
      · cases h
      · rename_i found hfound
        cases h
        obtain ⟨htrue, hfalse⟩ := findEncrypted_some hfound
        cases found with
        | false =>
          obtain ⟨hroom, hall⟩ := hfalse rfl
          rw [Nat.zero_add] at hroom
          dsimp only
          rw [pairs_pairsFrom hroom, Option.getD_some, Bool.false_and, List.any_eq_false.2, Bool.and_false]
          intro e he
          simpa using hall e he
        | true =>
          obtain ⟨e, he, hpos⟩ := htrue rfl
          dsimp only
          rw [Bool.true_and]
          by_cases hempty : f.buffer.bytes = []
          · simp [hempty]
          · have hroom := htable (by simpa using hempty) table htab
            rw [pairs_pairsFrom (.inr hroom), Option.getD_some, List.any_eq_true.2 ⟨e, he, by simpa using hpos⟩]
            simp

/-- A buffer with something to decrypt has metadata. -/
theorem toDecrypt_info {f : Frame} (h : toDecrypt hasMemory (entryOf f) = .ok true) :
    ∃ protection, f.info = some protection := by
  cases hinfo : f.info with
  | some protection => exact ⟨protection, rfl⟩
  | none =>
    have hclear : toDecrypt hasMemory (entryOf f) = .ok false := by
      unfold entryOf
      rw [hinfo]
      rfl
    rw [hclear] at h
    cases h

/-- The subsamples of a buffer are the pairs of its table with clear entries behind them, or one that is
encrypted as a whole. -/
theorem subSamplesOf_ok {f : Frame} {protection : MultiMeta} {subSamples : List SubSampleInfo}
    (hinfo : f.info = some protection) (h : subSamplesOf hasMemory (entryOf f) = .ok subSamples) :
    (f.table hasMemory = none ∧ subSamples = [⟨0, mappedSize (entryOf f).dataBuf⟩]) ∨
    ∃ table ps extra, f.table hasMemory = some table ∧ pairs table (entryOf f).subSamplesCount.toNat = some ps ∧
      subSamples = ps ++ extra ∧ total ps % 4294967296 ≤ f.buffer.bytes.length ∧
      extra.length = entriesFor (f.buffer.bytes.length - total ps % 4294967296) ∧
      total extra = f.buffer.bytes.length - total ps % 4294967296 := by
  obtain ⟨hsize, -⟩ := mappedSize_data hinfo
  unfold subSamplesOf at h
  change (match f.table hasMemory with | some table => _ | none => _) = _ at h
  cases htab : f.table hasMemory with
  | none =>
    rw [htab] at h
    cases h
    exact .inl ⟨rfl, rfl⟩
  | some table =>
    rw [htab] at h
    dsimp only at h
    split at h
    · cases h
    · rename_i ps sum hps
      obtain ⟨hroom, hpairs, hsum⟩ := readPairs_some hps
      rw [List.nil_append] at hpairs
      rw [UInt32.toNat_zero, Nat.zero_add, ← hpairs] at hsum
      rw [Nat.zero_add] at hroom
      have hsome : pairs table (entryOf f).subSamplesCount.toNat = some ps := by rw [hpairs, pairs_pairsFrom hroom]
      refine .inr ⟨table, ps, ?_⟩
      unfold validateSubsampleMapMulti at h
      split at h
      · rename_i heq
        cases h
        rw [← hsize, ← hsum, heq]
        exact ⟨[], rfl, hsome, (List.append_nil _).symm, le_refl _, by simp [entriesFor], by simp⟩
      · split at h
        · rename_i hgt
          cases h
          have hlt := UInt32.lt_iff_toNat_lt.1 hgt
          obtain ⟨extra, hext, hlen, htotal⟩ := @extendMulti_eq _ _ ps
            (le_refl (mappedSize (entryOf f).dataBuf - sum).toNat)
          rw [UInt32.toNat_sub_of_le _ _ (UInt32.le_of_lt hgt)] at hlen htotal
          rw [← hsize, ← hsum]
          exact ⟨extra, rfl, hsome, hext, le_of_lt hlt, hlen, htotal⟩
        · cases h

/-- They cover the buffer exactly when the table fits. -/
theorem subSamplesOf_covers {f : Frame} {protection : MultiMeta} {subSamples : List SubSampleInfo}
    (hinfo : f.info = some protection) (h : subSamplesOf hasMemory (entryOf f) = .ok subSamples) :
    total subSamples = f.buffer.bytes.length ↔ f.Fits hasMemory := by
  have hfits := f.buffer.fits
  rcases subSamplesOf_ok hinfo h with ⟨htab, rfl⟩ | ⟨table, ps, extra, htab, hps, rfl, hle, -, hextra⟩
  · have hall : f.Fits hasMemory := by
      intro table ps htable
      rw [htab] at htable
      cases htable
    refine iff_of_true ?_ hall
    rw [total_cons, total_nil, span, (mappedSize_data hinfo).1]
    exact Nat.zero_add _
  · rw [total_append, hextra]
    constructor
    · intro hsum table' ps' htable' hps'
      rw [htab] at htable'
      cases htable'
      rw [hps] at hps'
      cases hps'
      omega
    · intro hf
      have := hf table ps htab hps
      omega

/-! ## The loop -/

/-- The entry of a buffer after the loop. -/
def doneEntry (hasMemory : GstBuffer → Bool) (f : Frame) : ProtectionMetaInfo :=
  { entryOf f with encrypted := f.encrypted hasMemory }

/-- A sample prepared for a buffer: like the reference in key id, scheme and pattern. -/
structure SampleOf (hasMemory : GstBuffer → Bool) (ref : ProtectionMetaInfo) (f : Frame) (sample : SampleInfo) :
    Prop where
  subSample : ∃ subSamples, sample.subSample = ⟨UInt8.ofNat subSamples.length, some subSamples⟩ ∧
    SubSamplesOf hasMemory f subSamples
  iv : sample.iv = ⟨(mappedSize (entryOf f).ivGstBuf).toUInt8, mapped hasMemory (entryOf f).ivGstBuf⟩
  keyId : sample.keyId = ⟨(mappedSize ref.keyIdGstBuf).toUInt8, mapped hasMemory ref.keyIdGstBuf⟩
  scheme : sample.scheme = ref.encScheme
  pattern : sample.pattern = ref.pattern

/-- What the loop has prepared when the buffers `frames` are done. -/
structure PreparedFor (hasMemory : GstBuffer → Bool) (frames : List Frame) (p : Prepared) : Prop where
  infos : p.infos = frames.map (doneEntry hasMemory)
  buffers : p.buffToDecrypt = (frames.filter (Frame.encrypted hasMemory)).map Frame.buffer
  size : p.totalBytesToDecrypt.toNat =
    ((frames.filter (Frame.encrypted hasMemory)).map fun f => f.buffer.bytes.length).sum % 4294967296
  samples : List.Forall₂ (SampleOf hasMemory (p.ref.getD {})) (frames.filter (Frame.encrypted hasMemory)) p.samples
  ref : p.ref = none → p.samples = []

/-- Equal bytes behind the pointers mean equal sizes. -/
theorem keyIdsEqual_blob {lhs rhs : Option GstBuffer}
    (h : keyIdsEqual (mapped hasMemory lhs) (mapped hasMemory rhs) = true) :
    mapped hasMemory rhs = mapped hasMemory lhs ∧ mappedSize rhs = mappedSize lhs := by
  unfold keyIdsEqual at h
  rw [Bool.and_eq_true, decide_eq_true_eq] at h
  obtain ⟨hsome, heq⟩ := h
  have hsize : ∀ {b : Option GstBuffer} {bytes}, mapped hasMemory b = some bytes →
    mappedSize b = UInt32.ofNat bytes.length := by
    intro b bytes hb
    cases b with
    | none => cases hb
    | some b =>
      unfold mapped at hb
      rw [Option.bind_some] at hb
      split at hb
      · cases hb; rfl
      · cases hb
  obtain ⟨bytes, hbytes⟩ := Option.isSome_iff_exists.1 hsome
  exact ⟨heq.symm, by rw [hsize hbytes, hsize (heq.symm.trans hbytes)]⟩

/-- A pass that goes on skips the buffer or prepares a sample for it. -/
theorem prepareSample_cases {p p' : Prepared} {buffer : GstBuffer} {info : ProtectionMetaInfo}
    (h : prepareSample hasMemory p (buffer, info) = .ok p') :
    (toDecrypt hasMemory info = .ok false ∧ p' = { p with infos := p.infos ++ [info] }) ∨
    ∃ subSamples, toDecrypt hasMemory info = .ok true ∧ subSamplesOf hasMemory info = .ok subSamples ∧
      keyIdsEqual (mapped hasMemory (p.ref.getD info).keyIdGstBuf) (mapped hasMemory info.keyIdGstBuf) = true ∧
      (p.ref.getD info).encScheme = info.encScheme ∧ (p.ref.getD info).pattern = info.pattern ∧
      subSamples.length ≤ 255 ∧
      p' = ⟨p.infos ++ [{ info with encrypted := true }], p.samples ++ [sampleInfoMulti hasMemory info subSamples],
        p.buffToDecrypt ++ [buffer], p.totalBytesToDecrypt + mappedSize info.dataBuf, some (p.ref.getD info)⟩ := by
  unfold prepareSample at h
  dsimp only at h
  split at h
  · cases h
  · rename_i hskip
    cases h
    exact .inl ⟨hskip, rfl⟩
  · rename_i hdec
    split at h
    · cases h
    · rename_i subSamples hsub
      split at h
      · cases h
      · rename_i hkey
        split at h
        · cases h
        · rename_i hscheme
          split at h
          · cases h
          · rename_i hpattern
            split at h
            · cases h
            · rename_i hlen
              cases h
              exact .inr ⟨subSamples, hdec, hsub, Bool.eq_true_of_not_eq_false hkey, not_not.1 hscheme,
                not_not.1 hpattern,
                not_lt.1 hlen, rfl⟩

theorem toDecrypt_error {hasMemory : GstBuffer → Bool} {info : ProtectionMetaInfo} {e : OpenCDMError}
    (h : toDecrypt hasMemory info = .error e) : e = errorInvalidDecryptBuffer := by
  unfold toDecrypt at h
  split at h
  · cases h
  · split at h
    · split at h
      · cases h; rfl
      · cases h
    · cases h

theorem subSamplesOf_error {hasMemory : GstBuffer → Bool} {info : ProtectionMetaInfo} {e : OpenCDMError}
    (h : subSamplesOf hasMemory info = .error e) : e = errorInvalidDecryptBuffer := by
  unfold subSamplesOf at h
  split at h
  · split at h
    · cases h; rfl
    · unfold validateSubsampleMapMulti at h
      split at h
      · cases h
      · split at h
        · cases h
        · cases h; rfl
  · cases h

theorem toDecrypt_size {hasMemory : GstBuffer → Bool} {info : ProtectionMetaInfo}
    (h : toDecrypt hasMemory info = .ok true) : mappedSize info.dataBuf ≠ 0 := by
  unfold toDecrypt at h
  split at h
  · cases h
  · split at h
    · split at h
      · cases h
      · exact of_decide_eq_true (Bool.and_eq_true_iff.1 (Except.ok.inj h)).2
    · exact of_decide_eq_true (Except.ok.inj h)

theorem prepareSample_error {hasMemory : GstBuffer → Bool} {p : Prepared} {frame : GstBuffer × ProtectionMetaInfo}
    {e : OpenCDMError} (h : prepareSample hasMemory p frame = .error e) : e = errorInvalidDecryptBuffer := by
  unfold prepareSample at h
  dsimp only at h
  split at h
  · rename_i hdec
    cases h
    exact toDecrypt_error hdec
  · cases h
  · split at h
    · rename_i hsub
      cases h
      exact subSamplesOf_error hsub
    · split at h
      · cases h; rfl
      · split at h
        · cases h; rfl
        · split at h
          · cases h; rfl
          · split at h
            · cases h; rfl
            · cases h

/-- The loop fails with the error of one buffer. -/
theorem prepare_error {hasMemory : GstBuffer → Bool} {frames : List (GstBuffer × ProtectionMetaInfo)} {p : Prepared}
    {e : OpenCDMError} (h : frames.foldlM (prepareSample hasMemory) p = .error e) : e = errorInvalidDecryptBuffer := by
  induction frames generalizing p with
  | nil => cases h
  | cons frame frames ih =>
    rw [List.foldlM_cons] at h
    cases hstep : prepareSample hasMemory p frame with
    | error e' =>
      rw [hstep] at h
      cases h
      exact prepareSample_error hstep
    | ok p' =>
      rw [hstep] at h
      exact ih h

theorem PreparedFor.skip {frames : List Frame} {f : Frame} {p : Prepared} (hp : PreparedFor hasMemory frames p)
    (hclear : f.encrypted hasMemory = false) :
    PreparedFor hasMemory (frames ++ [f]) { p with infos := p.infos ++ [entryOf f] } := by
  have hfilter : (frames ++ [f]).filter (Frame.encrypted hasMemory) = frames.filter (Frame.encrypted hasMemory) := by
    rw [List.filter_append, List.filter_cons_of_neg (by simp [hclear]), List.filter_nil, List.append_nil]
  have hentry : doneEntry hasMemory f = entryOf f := by
    unfold doneEntry
    rw [hclear]
    unfold entryOf
    split <;> rfl
  refine ⟨?_, by rw [hfilter]; exact hp.buffers, by rw [hfilter]; exact hp.size, by rw [hfilter]; exact hp.samples,
    hp.ref⟩
  rw [List.map_append, List.map_singleton, hentry, ← hp.infos]

/-- The samples so far agree with the reference there is after a buffer: the old one, or its own entry when there was
none, and then there were no samples. -/
theorem PreparedFor.samples_ref {frames : List Frame} {p : Prepared} (hp : PreparedFor hasMemory frames p)
    (info : ProtectionMetaInfo) :
    List.Forall₂ (SampleOf hasMemory (p.ref.getD info)) (frames.filter (Frame.encrypted hasMemory)) p.samples := by
  have hsamples := hp.samples
  cases hr : p.ref with
  | none =>
    rw [hp.ref hr] at hsamples ⊢
    rw [List.forall₂_nil_right_iff.1 hsamples]
    exact .nil
  | some ref =>
    rw [hr] at hsamples
    exact hsamples

theorem PreparedFor.send {frames : List Frame} {f : Frame} {p : Prepared} {protection : MultiMeta}
    {subSamples : List SubSampleInfo} (hp : PreparedFor hasMemory frames p) (hinfo : f.info = some protection)
    (hsent : f.encrypted hasMemory = true)
    (hsample : SampleOf hasMemory (p.ref.getD (entryOf f)) f (sampleInfoMulti hasMemory (entryOf f) subSamples)) :
    PreparedFor hasMemory (frames ++ [f])
      ⟨p.infos ++ [{ entryOf f with encrypted := true }],
        p.samples ++ [sampleInfoMulti hasMemory (entryOf f) subSamples],
        p.buffToDecrypt ++ [f.buffer], p.totalBytesToDecrypt + mappedSize (entryOf f).dataBuf,
        some (p.ref.getD (entryOf f))⟩ := by
  have hfilter : (frames ++ [f]).filter (Frame.encrypted hasMemory) =
      frames.filter (Frame.encrypted hasMemory) ++ [f] := by
    rw [List.filter_append, List.filter_cons_of_pos hsent, List.filter_nil]
  refine ⟨?_, ?_, ?_, ?_, fun hnone => by cases hnone⟩
  · rw [List.map_append, List.map_singleton, ← hp.infos, doneEntry, hsent]
  · rw [hfilter, List.map_append, List.map_singleton, ← hp.buffers]
  · rw [hfilter, List.map_append, List.map_singleton, List.sum_append, List.sum_singleton, UInt32.toNat_add,
      hp.size, (mappedSize_data hinfo).1, Nat.mod_add_mod]
  · rw [hfilter]
    exact List.rel_append (hp.samples_ref (entryOf f)) (.cons hsample .nil)

/-- A sample is prepared for a buffer with something to decrypt. -/
theorem sent_encrypted {f : Frame} {subSamples : List SubSampleInfo}
    (hread : ∀ protection, f.info = some protection → Readable f.buffer protection)
    (hdec : toDecrypt hasMemory (entryOf f) = .ok true) (hsub : subSamplesOf hasMemory (entryOf f) = .ok subSamples) :
    f.encrypted hasMemory = true := by
  obtain ⟨protection, hinfo⟩ := toDecrypt_info hdec
  refine toDecrypt_ok hread hdec fun _ table htab => ?_
  rcases subSamplesOf_ok hinfo hsub with ⟨hnone, -⟩ | ⟨table', ps, -, htab', hps, -⟩
  · rw [htab] at hnone
    cases hnone
  · rw [htab] at htab'
    cases htab'
    exact (pairs_some hps).1

theorem prepareSample_ok {frames : List Frame} {f : Frame} {p p' : Prepared}
    (hread : ∀ protection, f.info = some protection → Readable f.buffer protection)
    (hp : PreparedFor hasMemory frames p)
    (h : prepareSample hasMemory p (f.buffer, entryOf f) = .ok p') : PreparedFor hasMemory (frames ++ [f]) p' := by
  rcases prepareSample_cases h with ⟨hskip, rfl⟩ | ⟨subSamples, hdec, hsub, hkey, hscheme, hpattern, hlen, rfl⟩
  · exact hp.skip (toDecrypt_ok hread hskip fun hf => by cases hf)
  · -- a sample is sent: its table was read, and its key id is that of the reference
    obtain ⟨protection, hinfo⟩ := toDecrypt_info hdec
    obtain ⟨hbytes, hbytesSize⟩ := keyIdsEqual_blob hkey
    refine hp.send hinfo (sent_encrypted hread hdec hsub)
      ⟨⟨subSamples, rfl, hlen, subSamplesOf_covers hinfo hsub⟩, rfl, ?_, hscheme.symm, hpattern.symm⟩
    rw [sampleInfoMulti, hbytes, hbytesSize]

/-- What the loop prepares for all buffers. -/
theorem prepare_ok {done frames : List Frame} {p p' : Prepared}
    (hread : ∀ f ∈ frames, ∀ protection, f.info = some protection → Readable f.buffer protection)
    (hp : PreparedFor hasMemory done p)
    (h : (frames.map fun f => (f.buffer, entryOf f)).foldlM (prepareSample hasMemory) p = .ok p') :
    PreparedFor hasMemory (done ++ frames) p' := by
  -- over the buffers left, with what is prepared for those done
  induction frames generalizing done p with
  | nil =>
    cases h
    rw [List.append_nil]
    exact hp
  | cons f frames ih =>
    rw [List.map_cons, List.foldlM_cons] at h
    cases hstep : prepareSample hasMemory p (f.buffer, entryOf f) with
    | error e => rw [hstep] at h; cases h
    | ok p1 =>
      rw [hstep] at h
      have hp1 := prepareSample_ok (hread f (List.mem_cons_self ..)) hp hstep
      have := ih (fun g hg => hread g (List.mem_cons_of_mem _ hg)) hp1 h
      rwa [List.append_assoc] at this

/-- The reference is the first buffer with something to decrypt. -/
theorem prepare_ref {frames : List Frame} {p p' : Prepared}
    (hread : ∀ f ∈ frames, ∀ protection, f.info = some protection → Readable f.buffer protection)
    (h : (frames.map fun f => (f.buffer, entryOf f)).foldlM (prepareSample hasMemory) p = .ok p') :
    p'.ref = p.ref.or ((frames.find? (Frame.encrypted hasMemory)).map entryOf) := by
  induction frames generalizing p with
  | nil =>
    cases h
    exact (Option.or_none ..).symm
  | cons f frames ih =>
    rw [List.map_cons, List.foldlM_cons] at h
    have hf := hread f (List.mem_cons_self ..)
    cases hstep : prepareSample hasMemory p (f.buffer, entryOf f) with
    | error e => rw [hstep] at h; cases h
    | ok p1 =>
      rw [hstep] at h
      rw [ih (fun g hg => hread g (List.mem_cons_of_mem _ hg)) h]
      rcases prepareSample_cases hstep with ⟨hskip, rfl⟩ | ⟨subSamples, hdec, hsub, -, -, -, -, rfl⟩
      · have hclear := toDecrypt_ok hf hskip fun hfalse => by cases hfalse
        rw [List.find?_cons_of_neg (by rw [hclear]; exact Bool.false_ne_true)]
      · rw [List.find?_cons_of_pos (sent_encrypted hf hdec hsub)]
        cases p.ref <;> rfl

end

/-! ## The call that is made -/

/-- Neither a decryption nor a transform. -/
def MultiEvent.prepares : MultiEvent → Bool
  | .decryptV3 .. => false
  | .appendTransform .. => false
  | .transformFromClear .. => false
  | _ => true

def OnlyPreparesMulti (events : List MultiEvent) : Prop := ∀ e ∈ events, e.prepares = true

theorem onlyPreparesMulti_append {xs ys : List MultiEvent} (hx : OnlyPreparesMulti xs) (hy : OnlyPreparesMulti ys) :
    OnlyPreparesMulti (xs ++ ys) := by
  intro e h
  rcases List.mem_append.1 h with h | h
  · exact hx e h
  · exact hy e h

theorem OnlyPreparesMulti.noDecrypt {events : List MultiEvent} (h : OnlyPreparesMulti events) (call : DecryptV3Call)
    (result : OpenCDMError) : .decryptV3 call result ∉ events :=
  fun hin => Bool.false_ne_true (h _ hin)

/-- A buffer mapped or unmapped. -/
def MultiEvent.maps : MultiEvent → Bool
  | .map .. => true
  | .unmap .. => true
  | _ => false

def OnlyMapsMulti (events : List MultiEvent) : Prop := ∀ e ∈ events, e.maps = true

theorem onlyMapsMulti_append {xs ys : List MultiEvent} (hx : OnlyMapsMulti xs) (hy : OnlyMapsMulti ys) :
    OnlyMapsMulti (xs ++ ys) := List.forall_mem_append.2 ⟨hx, hy⟩

theorem OnlyMapsMulti.prepares {events : List MultiEvent} (h : OnlyMapsMulti events) : OnlyPreparesMulti events := by
  intro e he
  have hmaps := h e he
  cases e <;> first | rfl | cases hmaps

theorem extractMulti_maps (frames : List Frame) : OnlyMapsMulti (extractProtectionMetaMulti frames).2.2 := by
  have hmap : ∀ b, OnlyMapsMulti (mapEvent b) := by
    intro b
    cases b <;> simp [mapEvent, OnlyMapsMulti, MultiEvent.maps]
  have hone : ∀ b : GstBuffer, OnlyMapsMulti [MultiEvent.map b.id b.mappable] := by
    simp [OnlyMapsMulti, MultiEvent.maps]
  have hnil : OnlyMapsMulti [] := by simp [OnlyMapsMulti, MultiEvent.maps]
  have hframe : ∀ frame, OnlyMapsMulti (extractFrame frame).2.2 := by
    intro frame
    unfold extractFrame
    split
    · unfold extractProtectionMeta
      dsimp only
      have h2 := fun a b => onlyMapsMulti_append (hmap a) (hmap b)
      have h3 := fun a b c => onlyMapsMulti_append (h2 a b) (hone c)
      split
      · exact hnil
      · split
        · exact hmap _
        · split
          · exact h2 _ _
          · split
            · exact h3 _ _ _
            · split
              · exact onlyMapsMulti_append (h3 _ _ _) (hmap _)
              · exact onlyMapsMulti_append (h3 _ _ _) (hmap _)
    · exact hnil
  induction frames with
  | nil => exact hnil
  | cons frame frames ih =>
    rw [extractProtectionMetaMulti]
    dsimp only
    split
    · exact onlyMapsMulti_append (hframe frame) ih
    · exact hframe frame

theorem unmapEntries_maps (hasMemory : GstBuffer → Bool) (infos : List ProtectionMetaInfo) :
    OnlyMapsMulti (infos.flatMap (unmapEntry hasMemory)) := by
  intro e hin
  obtain ⟨info, -, hin⟩ := List.mem_flatMap.1 hin
  obtain ⟨b, -, hb⟩ := List.mem_filterMap.1 hin
  obtain ⟨buffer, -, rfl⟩ := Option.map_eq_some_iff.1 hb
  rfl

theorem updateDecryptToHostMulti_prepares (svp : MultiSvp) (session : Session) (disabled : Bool) :
    OnlyPreparesMulti (updateDecryptToHostMulti svp session disabled).2 := by
  unfold updateDecryptToHostMulti
  split
  · dsimp only
    split <;> simp [OnlyPreparesMulti, MultiEvent.prepares]
  · simp [OnlyPreparesMulti, MultiEvent.prepares]

theorem callDecryptV3_call {svp : MultiSvp} {disabled : Bool} {call call' : DecryptV3Call} {result : OpenCDMError}
    (h : .decryptV3 call' result ∈ (callDecryptV3 svp disabled call).2) : call' = call := by
  unfold callDecryptV3 at h
  dsimp only at h
  split at h
  · cases h
  · rcases List.mem_append.1 h with h | h
    · split at h <;> simp at h
    · cases List.mem_singleton.1 h
      rfl

theorem decryptPrepared_call {svp : MultiSvp} {p : Prepared} {stream : MediaProperties} {disabled : Bool}
    {call : DecryptV3Call} {result : OpenCDMError}
    (h : .decryptV3 call result ∈ (decryptPrepared svp p stream disabled).2) :
    call = ⟨copyEncrypted p.infos, p.totalBytesToDecrypt, svp.dataBlockSize, p.samples, stream⟩ := by
  unfold decryptPrepared at h
  split at h
  · dsimp only at h
    split at h
    · rcases List.mem_append.1 h with h | h
      · exact callDecryptV3_call h
      · simp at h
    · exact callDecryptV3_call h
  · cases h

/-- A call of the decryptor is made when the metadata of all buffers was read and the loop over them went
through with something to decrypt, and with what it has prepared. -/
theorem decryptMultiOnce_fold {svp : MultiSvp} {session : Option Session} {buffers : Option (List (Option Frame))}
    {caps : Option (Option ParsedCaps)} {frames : List Frame} {call : DecryptV3Call} {result : OpenCDMError}
    (hframes : entriesOf buffers = some frames)
    (h : .decryptV3 call result ∈ (decryptBufferMultiOnce svp session buffers caps).events) :
    (∀ f ∈ frames, ∀ protection, f.info = some protection → Readable f.buffer protection) ∧
    ∃ p, (frames.map fun f => (f.buffer, entryOf f)).foldlM (prepareSample svp.hasMemory) {} = .ok p ∧
      p.totalBytesToDecrypt > 0 ∧ call = ⟨copyEncrypted p.infos, p.totalBytesToDecrypt, svp.dataBlockSize, p.samples,
        (mediaInfoMulti caps).1⟩ := by
  have hunmap := fun infos => (unmapEntries_maps svp.hasMemory infos).prepares
  have hclear : ∀ (r : OpenCDMError) bs infos mediaType, .decryptV3 call result ∉
      if r = errorNone then transformClear bs infos mediaType else [] := by
    intro r bs infos mediaType hin
    split at hin
    · obtain ⟨entry, -, hentry⟩ := List.mem_map.1 hin
      cases hentry
    · cases hin
  have hmaps := (extractMulti_maps frames).prepares
  unfold decryptBufferMultiOnce at h
  rw [hframes] at h
  cases session with
  | none => cases h
  | some session =>
    dsimp only at h
    have hupdate := updateDecryptToHostMulti_prepares svp session (mediaInfoMulti caps).2.1
    split at h
    · rename_i hok
      obtain ⟨hinfos, hread⟩ := extractMulti_ok hok
      rw [hinfos, List.zip_map'] at h
      split at h
      · -- the loop failed: only the buffers are unmapped
        exact absurd h ((onlyPreparesMulti_append (onlyPreparesMulti_append hmaps hupdate) (hunmap _)).noDecrypt _ _)
      · rename_i p hprep
        refine ⟨hread, p, hprep, ?_⟩
        rcases List.mem_append.1 h with h | h
        · rcases List.mem_append.1 h with h | h
          · rcases List.mem_append.1 h with h | h
            · exact absurd h ((onlyPreparesMulti_append hmaps hupdate).noDecrypt _ _)
            · split at h
              · rename_i hpos
                exact ⟨hpos, decryptPrepared_call h⟩
              · cases h
          · exact absurd h (hclear _ _ _ _)
        · exact absurd h ((hunmap _).noDecrypt _ _)
    · exact absurd h ((onlyPreparesMulti_append hmaps (hunmap _)).noDecrypt _ _)

/-- A call of the decryptor is made with what the loop has prepared for all buffers. -/
theorem decryptMultiOnce_call {svp : MultiSvp} {session : Option Session} {buffers : Option (List (Option Frame))}
    {caps : Option (Option ParsedCaps)} {frames : List Frame} {call : DecryptV3Call} {result : OpenCDMError}
    (hframes : entriesOf buffers = some frames)
    (h : .decryptV3 call result ∈ (decryptBufferMultiOnce svp session buffers caps).events) :
    ∃ p, PreparedFor svp.hasMemory frames p ∧ p.ref = (frames.find? (Frame.encrypted svp.hasMemory)).map entryOf ∧
      call.data = copyEncrypted p.infos ∧ call.requested = p.totalBytesToDecrypt ∧ call.samples = p.samples := by
  obtain ⟨hread, p, hprep, -, rfl⟩ := decryptMultiOnce_fold hframes h
  have hp : PreparedFor _ ([] ++ frames) p := prepare_ok hread ⟨rfl, rfl, rfl, .nil, fun _ => rfl⟩ hprep
  exact ⟨p, hp, prepare_ref hread hprep, rfl, rfl, rfl⟩

/-! ## The samples that are handed over -/

/-- The sample's entries, as many as its count says, add up to the buffer. -/
def Covers (f : Frame) (sample : SampleInfo) : Prop :=
  ∃ entries, sample.subSample.entries = some entries ∧ sample.subSample.count.toNat = entries.length ∧
    total entries = f.buffer.bytes.length

/-- Each sample covers the buffer it is for, all have one key id, scheme and pattern, and each buffer is in
the data block behind those before it. -/
structure SamplesOK (sent : List Frame) (call : DecryptV3Call) : Prop where
  covers : List.Forall₂ Covers sent call.samples
  same : ∀ s ∈ call.samples, ∀ s' ∈ call.samples, s.keyId = s'.keyId ∧ s.scheme = s'.scheme ∧ s.pattern = s'.pattern
  placed : ∀ i (h : i < sent.length),
    ((sent.map fun f => f.buffer.bytes.length).take i).sum + sent[i].buffer.bytes.length ≤ call.requested.toNat ∧
    (call.data.drop ((sent.map fun f => f.buffer.bytes.length).take i).sum).take sent[i].buffer.bytes.length =
      sent[i].buffer.bytes

/-- The buffers with something to decrypt are copied one behind the other. -/
theorem copyEncrypted_eq (hasMemory : GstBuffer → Bool) (frames : List Frame) :
    copyEncrypted (frames.map (doneEntry hasMemory)) =
      ((frames.filter (Frame.encrypted hasMemory)).map fun f => f.buffer.bytes).flatten := by
  have hloop : ∀ data : List UInt8, (frames.map (doneEntry hasMemory)).foldl (fun data info =>
      if info.encrypted then data ++ (info.dataBuf.map GstBuffer.bytes).getD [] else data) data =
      data ++ ((frames.filter (Frame.encrypted hasMemory)).map fun f => f.buffer.bytes).flatten := by
    induction frames with
    | nil => exact fun data => (List.append_nil data).symm
    | cons f frames ih =>
      intro data
      rw [List.map_cons, List.foldl_cons, ih]
      cases henc : f.encrypted hasMemory with
      | false =>
        rw [List.filter_cons_of_neg (by simp [henc]), doneEntry, henc]
        rfl
      | true =>
        have hdata : (entryOf f).dataBuf = some f.buffer := by
          unfold Frame.encrypted at henc
          cases hinfo : f.info with
          | none => rw [hinfo] at henc; cases henc
          | some protection => rw [entryOf, hinfo]
        rw [List.filter_cons_of_pos henc, doneEntry, henc, List.map_cons, List.flatten_cons, ← List.append_assoc]
        dsimp only
        rw [if_pos rfl, hdata]
        rfl
  exact hloop []

theorem placed_flatten {bytes : List (List UInt8)} {i : Nat} (h : i < bytes.length) :
    ((bytes.map List.length).take i).sum + bytes[i].length ≤ (bytes.map List.length).sum ∧
    (bytes.flatten.drop ((bytes.map List.length).take i).sum).take bytes[i].length = bytes[i] := by
  have hsplit : bytes.drop i = bytes[i] :: bytes.drop (i + 1) := List.drop_eq_getElem_cons h
  constructor
  · have hsum : (bytes.map List.length).sum =
        ((bytes.map List.length).take i).sum + ((bytes.drop i).map List.length).sum := by
      rw [List.map_drop, List.sum_take_add_sum_drop]
    rw [hsum, hsplit, List.map_cons, List.sum_cons]
    omega
  · rw [List.drop_sum_flatten, hsplit, List.flatten_cons, List.take_left']
    rfl

theorem forall₂_covers_iff {R : Frame → SampleInfo → Prop} {P : Frame → Prop} {sent : List Frame}
    {samples : List SampleInfo} (h : List.Forall₂ R sent samples) (hcovers : ∀ f s, R f s → (Covers f s ↔ P f)) :
    List.Forall₂ Covers sent samples ↔ ∀ f ∈ sent, P f := by
  induction h with
  | nil => exact iff_of_true .nil fun f hf => by cases hf
  | cons hr _ ih => rw [List.forall₂_cons, hcovers _ _ hr, ih, List.forall_mem_cons]

theorem forall₂_exists {R : Frame → SampleInfo → Prop} {sent : List Frame} {samples : List SampleInfo} {s : SampleInfo}
    (h : List.Forall₂ R sent samples) (hs : s ∈ samples) : ∃ f ∈ sent, R f s := by
  induction h with
  | nil => cases hs
  | cons hr _ ih =>
    rcases List.mem_cons.1 hs with rfl | hs
    · exact ⟨_, List.mem_cons_self .., hr⟩
    · obtain ⟨f, hf, hr⟩ := ih hs
      exact ⟨f, List.mem_cons_of_mem _ hf, hr⟩

/-- Whenever the decryptor is called for buffers of less than 2^32 bytes, the samples are right exactly when no
table of a buffer that is sent adds up to 2^32 or more. -/
theorem samples_cover_iff (svp : MultiSvp) (session : Option Session) (buffers : Option (List (Option Frame)))
    (caps : Option (Option ParsedCaps)) (frames : List Frame) (call : DecryptV3Call) (result : OpenCDMError)
    (hframes : entriesOf buffers = some frames)
    (htotal : (frames.map fun f => f.buffer.bytes.length).sum < 4294967296)
    (hcall : .decryptV3 call result ∈ (decryptBufferMultiOnce svp session buffers caps).events) :
    SamplesOK (frames.filter (Frame.encrypted svp.hasMemory)) call ↔
      ∀ f ∈ frames, f.encrypted svp.hasMemory = true → f.Fits svp.hasMemory := by
  obtain ⟨p, hp, -, hdata, hrequested, hsamples⟩ := decryptMultiOnce_call hframes hcall
  have hone := hp.samples
  rw [← hsamples] at hone
  rw [hp.infos, copyEncrypted_eq] at hdata
  have hcovers : ∀ {f s}, SampleOf svp.hasMemory (p.ref.getD {}) f s → (Covers f s ↔ f.Fits svp.hasMemory) := by
    rintro f s ⟨⟨subSamples, hsub, hlen, hfits⟩, -, -, -, -⟩
    rw [← hfits, Covers, hsub]
    constructor
    · rintro ⟨entries, hentries, -, hsum⟩
      cases hentries
      exact hsum
    · intro hsum
      exact ⟨subSamples, rfl, by rw [UInt8.toNat_ofNat', Nat.mod_eq_of_lt (by omega)], hsum⟩
  have hsent : ((frames.filter (Frame.encrypted svp.hasMemory)).map fun f => f.buffer.bytes.length).sum < 4294967296 :=
    lt_of_le_of_lt (List.Sublist.sum_le_sum (List.filter_sublist.map _) (by simp)) htotal
  have hsize := hp.size
  rw [Nat.mod_eq_of_lt hsent, ← hrequested] at hsize
  have hfits : (∀ f ∈ frames, f.encrypted svp.hasMemory = true → f.Fits svp.hasMemory) ↔
      ∀ f ∈ frames.filter (Frame.encrypted svp.hasMemory), f.Fits svp.hasMemory := by
    simp only [List.mem_filter, and_imp]
  rw [hfits, ← forall₂_covers_iff hone fun f s => hcovers]
  constructor
  · exact SamplesOK.covers
  · intro hall
    refine ⟨hall, fun s hs s' hs' => ?_, fun i hi => ?_⟩
    · obtain ⟨f, -, hf⟩ := forall₂_exists hone hs
      obtain ⟨f', -, hf'⟩ := forall₂_exists hone hs'
      exact ⟨by rw [hf.keyId, hf'.keyId], by rw [hf.scheme, hf'.scheme], by rw [hf.pattern, hf'.pattern]⟩
    · have hlength : i < ((frames.filter (Frame.encrypted svp.hasMemory)).map fun f => f.buffer.bytes).length := by
        rw [List.length_map]
        exact hi
      have hplace := placed_flatten hlength
      rw [List.map_map, List.getElem_map] at hplace
      rw [hdata, hsize]
      exact hplace

/-! ## Two buffers -/

/-- Surroundings in which everything succeeds. -/
def plainMultiSvp : MultiSvp :=
  { plainSvp with hasMemory := fun _ => true, decryptV3 := fun _ => 0, arrayAppendTransform := true }

/-- A buffer of four bytes with the given table. -/
def multiFrame (count : UInt32) (table : GstBuffer) : Frame :=
  ⟨frame, some ⟨⟨some count, some (some table), some (some ⟨2, [5], true, by decide⟩),
    some (some frameKey), none, none, none, none⟩, "application/x-cenc"⟩⟩

/-- A buffer without metadata. -/
def clearFrame : Frame := ⟨⟨4, [6, 6], true, by decide⟩, none⟩

/-- The call for one buffer with the given subsamples. -/
def multiCallOf (entries : List SubSampleInfo) : DecryptV3Call :=
  ⟨[1, 2, 3, 4], 4, 4, [⟨.aesCtrCenc, ⟨0, 0⟩, ⟨1, some [5]⟩, ⟨1, some [9]⟩,
    ⟨UInt8.ofNat entries.length, some entries⟩⟩], ⟨0, 0, .unknown⟩⟩

theorem samples_cover_good :
    SamplesOK ([clearFrame, multiFrame 1 goodTable].filter (Frame.encrypted fun _ => true)) (multiCallOf [⟨0, 4⟩]) ↔
      ∀ f ∈ [clearFrame, multiFrame 1 goodTable], f.encrypted (fun _ => true) = true → f.Fits fun _ => true :=
  samples_cover_iff plainMultiSvp (some ⟨false, false⟩) (some [some clearFrame, some (multiFrame 1 goodTable)]) none
    [clearFrame, multiFrame 1 goodTable] (multiCallOf [⟨0, 4⟩]) 0 rfl (by decide) (by decide +kernel)

/-- A buffer of four bytes is handed over with subsamples of 2^32 + 4 bytes. -/
theorem wrapping_table_sent :
    .decryptV3 (multiCallOf [⟨0, 0xFFFFFFFF⟩, ⟨5, 0⟩]) 0 ∈ (decryptBufferMultiOnce plainMultiSvp (some ⟨false, false⟩)
      (some [some (multiFrame 2 wrappingTable)]) none).events ∧
    [multiFrame 2 wrappingTable].filter (Frame.encrypted fun _ => true) = [multiFrame 2 wrappingTable] ∧
    ¬ SamplesOK [multiFrame 2 wrappingTable] (multiCallOf [⟨0, 0xFFFFFFFF⟩, ⟨5, 0⟩]) := by
  refine ⟨by decide +kernel, rfl, ?_⟩
  rintro ⟨hcovers, -, -⟩
  cases hcovers with
  | cons hone _ =>
    obtain ⟨entries, hentries, -, hsum⟩ := hone
    cases hentries
    exact absurd hsum (by decide)

end Ocdm.Adapter
