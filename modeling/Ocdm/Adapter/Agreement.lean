/-
The single-buffer and the multi-buffer decryption of the RDK adapter, given the same buffer. The two are
written apart, and differ on purpose: a buffer without metadata is an error for one and clear for the
other, and the multi-buffer path refuses counts that do not fit eight bits and values without a buffer.
Where nothing of this kind comes up, and none of the slips of either path, both reject the buffer, both
treat it as clear, or both hand over the same scheme, pattern, IV and key id (`once_multi_agree`).
-/
import Ocdm.Adapter.MultiDecrypt

namespace Ocdm.Adapter

open Exchange (SubSampleInfo SampleInfo MediaProperties MediaType EncryptionScheme EncryptionPattern)

/-! ## What becomes of a buffer -/

/-- `skipped` is a transform without a decryption, for memory that was revoked. -/
inductive Verdict where
  | rejected
  | clear
  | decrypts (scheme : EncryptionScheme) (pattern : EncryptionPattern) (iv keyId : List UInt8)
  | skipped
deriving DecidableEq, Repr

def Verdict.ofSample (s : SampleInfo) : Verdict :=
  .decrypts s.scheme s.pattern (s.iv.bytes.getD []) (s.keyId.bytes.getD [])

/-- The first event that decides. -/
def eventVerdict : GstEvent → Option Verdict
  | .decrypt call _ => some (.ofSample call.sampleInfo)
  | .appendTransform .. => some .skipped
  | .transformFromClear .. => some .clear
  | _ => none

def onceVerdict (o : Outcome) : Verdict :=
  (o.events.findSome? eventVerdict).getD (if o.result = errorNone then .skipped else .rejected)

def eventVerdictMulti : MultiEvent → Option Verdict
  | .decryptV3 call _ => call.samples.head?.map .ofSample
  | .appendTransform .. => some .skipped
  | .transformFromClear .. => some .clear
  | _ => none

def multiVerdict (o : MultiOutcome) : Verdict :=
  (o.events.findSome? eventVerdictMulti).getD (if o.result = errorNone then .skipped else .rejected)

theorem findSome_prepares {xs : List GstEvent} (h : OnlyPrepares xs) (ys : List GstEvent) :
    (xs ++ ys).findSome? eventVerdict = ys.findSome? eventVerdict := by
  have hnone : xs.findSome? eventVerdict = none := by
    rw [List.findSome?_eq_none_iff]
    intro e he
    have hprep := h e he
    cases e <;> first | rfl | cases hprep
  rw [List.findSome?_append, hnone, Option.none_or]

theorem findSome_preparesMulti {xs : List MultiEvent} (h : OnlyPreparesMulti xs) (ys : List MultiEvent) :
    (xs ++ ys).findSome? eventVerdictMulti = ys.findSome? eventVerdictMulti := by
  have hnone : xs.findSome? eventVerdictMulti = none := by
    rw [List.findSome?_eq_none_iff]
    intro e he
    have hprep := h e he
    cases e <;> first | rfl | cases hprep
  rw [List.findSome?_append, hnone, Option.none_or]

/-! ## The single-buffer path -/

/-- The memory allocated for a decryption was revoked. -/
def revoked (svp : Svp) (caps : ParsedCaps) : Bool :=
  decide (caps.mediaType = .video) && svp.supportsMemoryPrealloc &&
    !(decide (caps.mediaType = .video) && caps.secureMemoryDisabled) && decide (svp.headerType.getD .inPlace = .other)

/-- What becomes of a buffer with its inputs mapped. -/
def mappedVerdict (svp : Svp) (buffer : GstBuffer) (caps : ParsedCaps) (inputs : Inputs) : Verdict :=
  if inputs.subSample.isNone && inputs.iv.isNone && inputs.keyId.isNone then .clear
  else
    match buildMap svp buffer.size inputs.subSample inputs.subSampleCount with
    | .error _ => .rejected
    | .ok (map, count, totalEncryptedBytes) =>
      if totalEncryptedBytes > 0 then
        if revoked svp caps then .skipped else .ofSample (sampleInfoOf inputs map count)
      else .clear

theorem buildMap_error {svp : Svp} {frameSize count : UInt32} {subSample : Option GstBuffer} {e : OpenCDMError}
    (h : buildMap svp frameSize subSample count = .error e) : e ≠ errorNone := by
  unfold buildMap at h
  split at h
  · dsimp only at h
    split at h
    · rename_i hne
      cases h
      exact hne
    · cases h
  · cases h

/-- The verdict on a buffer with its inputs mapped, when there are any. -/
theorem decryptMapped_verdict {svp : Svp} {buffer : GstBuffer} {inputs : Inputs} {caps : ParsedCaps} :
    ((decryptMapped svp buffer inputs caps).2.findSome? eventVerdict).getD
      (if (decryptMapped svp buffer inputs caps).1 = errorNone then .skipped else .rejected) =
    match buildMap svp buffer.size inputs.subSample inputs.subSampleCount with
    | .error _ => .rejected
    | .ok (map, count, totalEncryptedBytes) =>
      if totalEncryptedBytes > 0 then
        if revoked svp caps then .skipped else .ofSample (sampleInfoOf inputs map count)
      else .clear := by
  unfold decryptMapped
  cases hbuild : buildMap svp buffer.size inputs.subSample inputs.subSampleCount with
  | error e =>
    simp only [if_neg (buildMap_error hbuild)]
    rfl
  | ok r =>
    obtain ⟨map, count, totalEncryptedBytes⟩ := r
    dsimp only
    by_cases henc : totalEncryptedBytes > 0
    · simp only [if_pos henc]
      unfold callDecrypt
      dsimp only
      by_cases hrevoked : revoked svp caps = true
      · have hcond := hrevoked
        unfold revoked at hcond
        simp only [if_pos hcond, if_pos hrevoked]
        rfl
      · have hcond := hrevoked
        unfold revoked at hcond
        simp only [if_neg hcond, if_neg hrevoked]
        split <;> rfl
    · simp only [if_neg henc]
      rfl

theorem onceVerdict_eq {svp : Svp} {session : Session} {buffer : GstBuffer} {info : ProtectionMeta}
    {caps : Option ParsedCaps} (hbuffer : buffer.mappable = true) :
    onceVerdict (decryptBufferOnce svp (some session) buffer (some info) caps) =
      match mapInputs buffer info with
      | .error _ => .rejected
      | .ok inputs => mappedVerdict svp buffer (caps.getD (.none svp.garbage)) inputs := by
  cases hmap : mapInputs buffer info with
  | error r =>
    have ho : decryptBufferOnce svp (some session) buffer (some info) caps =
        ⟨errorInvalidDecryptBuffer, r.2, some session, some r.1⟩ := by
      simp only [decryptBufferOnce, hbuffer, hmap, if_true]
    have hnone := findSome_prepares (mapInputs_error hmap).prepares []
    rw [List.append_nil] at hnone
    rw [ho, onceVerdict, hnone]
    rfl
  | ok inputs =>
    have hprep := onlyPrepares_append (mapInputs_ok hmap).2.2.prepares
      (updateDecryptToHost_prepares svp session (caps.getD (.none svp.garbage)))
    unfold mappedVerdict
    by_cases hnull : (inputs.subSample.isNone && inputs.iv.isNone && inputs.keyId.isNone) = true
    · have ho : decryptBufferOnce svp (some session) buffer (some info) caps =
          ⟨errorNone, inputs.events ++ (updateDecryptToHost svp session (caps.getD (.none svp.garbage))).2 ++
            [.transformFromClear buffer.id (svpMediaType (caps.getD (.none svp.garbage))), .unmap (some buffer.id)],
            some (updateDecryptToHost svp session (caps.getD (.none svp.garbage))).1, some inputs.info⟩ := by
        simp only [decryptBufferOnce, hbuffer, hmap, hnull, if_true]
      rw [ho, onceVerdict, findSome_prepares hprep]
      simp only [hnull, if_true]
      rfl
    · have ho : decryptBufferOnce svp (some session) buffer (some info) caps =
          ⟨(decryptMapped svp buffer inputs (caps.getD (.none svp.garbage))).1,
            inputs.events ++ (updateDecryptToHost svp session (caps.getD (.none svp.garbage))).2 ++
              (decryptMapped svp buffer inputs (caps.getD (.none svp.garbage))).2,
            some (updateDecryptToHost svp session (caps.getD (.none svp.garbage))).1, some inputs.info⟩ := by
        simp only [decryptBufferOnce, hbuffer, hmap, hnull, if_true, if_false, Bool.false_eq_true]
      rw [ho, onceVerdict, findSome_prepares hprep]
      simp only [hnull, if_false, Bool.false_eq_true]
      exact decryptMapped_verdict

/-! ## The multi-buffer path -/

/-- What becomes of a buffer whose metadata could be read. -/
def preparedVerdict (svp : MultiSvp) (f : Frame) (caps : Option (Option ParsedCaps)) : Verdict :=
  match toDecrypt svp.hasMemory (entryOf f) with
  | .error _ => .rejected
  | .ok false => .clear
  | .ok true =>
    match subSamplesOf svp.hasMemory (entryOf f) with
    | .error _ => .rejected
    | .ok subSamples =>
      if (mapped svp.hasMemory (entryOf f).keyIdGstBuf).isNone ∨ subSamples.length > 255 then .rejected
      else if revoked svp.toSvp (caps.join.getD (.none svp.garbage)) then .skipped
      else .ofSample (sampleInfoMulti svp.hasMemory (entryOf f) subSamples)

/-- The first buffer is its own reference. -/
theorem prepareSample_first (hasMemory : GstBuffer → Bool) (buffer : GstBuffer) (info : ProtectionMetaInfo)
    (subSamples : List SubSampleInfo) (hdec : toDecrypt hasMemory info = .ok true)
    (hsub : subSamplesOf hasMemory info = .ok subSamples) :
    prepareSample hasMemory {} (buffer, info) =
      if (mapped hasMemory info.keyIdGstBuf).isNone ∨ subSamples.length > 255 then .error errorInvalidDecryptBuffer
      else .ok ⟨[{ info with encrypted := true }], [sampleInfoMulti hasMemory info subSamples], [buffer],
        0 + mappedSize info.dataBuf, some info⟩ := by
  have hkey : keyIdsEqual (mapped hasMemory info.keyIdGstBuf) (mapped hasMemory info.keyIdGstBuf) =
      !(mapped hasMemory info.keyIdGstBuf).isNone := by
    unfold keyIdsEqual
    cases mapped hasMemory info.keyIdGstBuf <;> simp
  unfold prepareSample
  simp only [hdec, hsub, Option.getD_none, hkey, ne_eq, not_true_eq_false, if_false]
  cases hnone : (mapped hasMemory info.keyIdGstBuf).isNone with
  | true => simp
  | false => simp

theorem revoked_multi (svp : MultiSvp) (caps : Option (Option ParsedCaps)) :
    (decide ((mediaInfoMulti caps).1.mediaType = .video) && svp.supportsMemoryPrealloc && !(mediaInfoMulti caps).2.1 &&
      decide (svp.headerType.getD .inPlace = .other)) = revoked svp.toSvp (caps.join.getD (.none svp.garbage)) := by
  rcases caps with _ | _ | caps
  · rfl
  · rfl
  · rfl

theorem callDecryptV3_eq (svp : MultiSvp) (disabled : Bool) (call : DecryptV3Call) :
    ((decide (call.streamProperties.mediaType = .video) && svp.supportsMemoryPrealloc && !disabled &&
      decide (svp.headerType.getD .inPlace = .other)) = true ∧ callDecryptV3 svp disabled call = (errorNone, [])) ∨
    ((decide (call.streamProperties.mediaType = .video) && svp.supportsMemoryPrealloc && !disabled &&
      decide (svp.headerType.getD .inPlace = .other)) = false ∧ ∃ setup, OnlyPreparesMulti setup ∧
      (callDecryptV3 svp disabled call).2 = setup ++ [.decryptV3 call (svp.decryptV3 call)]) := by
  unfold callDecryptV3
  dsimp only
  split
  · rename_i h
    exact .inl ⟨h, rfl⟩
  · rename_i h
    refine .inr ⟨Bool.eq_false_of_not_eq_true h, _, ?_, rfl⟩
    split <;> simp [OnlyPreparesMulti, MultiEvent.prepares]

/-- The verdict on what was prepared for one buffer. -/
theorem decryptPrepared_verdict {svp : MultiSvp} {p : Prepared} {caps : Option (Option ParsedCaps)}
    {sample : SampleInfo} (hblock : svp.dataBlockSize > 0) (hsample : p.samples = [sample]) (rest : List MultiEvent) :
    ((decryptPrepared svp p (mediaInfoMulti caps).1 (mediaInfoMulti caps).2.1).2 ++ rest).findSome? eventVerdictMulti =
      some (if revoked svp.toSvp (caps.join.getD (.none svp.garbage)) then .skipped else .ofSample sample) := by
  unfold decryptPrepared
  rw [if_pos hblock, ← revoked_multi]
  dsimp only
  rcases callDecryptV3_eq svp (mediaInfoMulti caps).2.1
    ⟨copyEncrypted p.infos, p.totalBytesToDecrypt, svp.dataBlockSize, p.samples, (mediaInfoMulti caps).1⟩ with
    ⟨hrevoked, hcall⟩ | ⟨hrevoked, setup, hsetup, hcall⟩
  · rw [hcall, if_pos rfl, if_pos hrevoked]
    rfl
  · have hfirst : ∀ tail, ((callDecryptV3 svp (mediaInfoMulti caps).2.1
        ⟨copyEncrypted p.infos, p.totalBytesToDecrypt, svp.dataBlockSize, p.samples, (mediaInfoMulti caps).1⟩).2 ++
          tail).findSome? eventVerdictMulti = some (.ofSample sample) := by
      intro tail
      rw [hcall, List.append_assoc, findSome_preparesMulti hsetup, List.singleton_append, List.findSome?_cons]
      simp only [eventVerdictMulti, hsample, List.head?_cons, Option.map_some]
    dsimp only at hrevoked
    simp only [hrevoked, Bool.false_eq_true, if_false]
    split
    · rw [List.append_assoc]
      exact hfirst _
    · exact hfirst _

theorem extractProtectionMetaMulti_one (f : Frame) :
    extractProtectionMetaMulti [f] = if (extractFrame f).1 = errorNone then
      (errorNone, [(extractFrame f).2.1], (extractFrame f).2.2 ++ []) else
      ((extractFrame f).1, [(extractFrame f).2.1], (extractFrame f).2.2) := rfl

theorem entriesOf_one (f : Frame) : entriesOf (some [some f]) = some [f] := rfl

/-- The loop over one buffer is one pass. -/
theorem foldlM_one {hasMemory : GstBuffer → Bool} (f : Frame) :
    (([f].map Frame.buffer).zip [entryOf f]).foldlM (prepareSample hasMemory) {} =
      prepareSample hasMemory {} (f.buffer, entryOf f) := by
  rw [List.map_singleton, List.zip_cons_cons, List.zip_nil_left, List.foldlM_cons]
  cases prepareSample hasMemory {} (f.buffer, entryOf f) <;> rfl

section

variable {svp : MultiSvp} {session : Session} {f : Frame} {caps : Option (Option ParsedCaps)}

/-- A buffer whose metadata cannot be read is rejected. -/
theorem multiVerdict_unread (hbad : ¬ (extractFrame f).1 = errorNone) :
    multiVerdict (decryptBufferMultiOnce svp (some session) (some [some f]) caps) = .rejected := by
  have hextract := extractProtectionMetaMulti_one f
  rw [if_neg hbad] at hextract
  have hmaps := (extractMulti_maps [f]).prepares
  rw [hextract] at hmaps
  have ho : decryptBufferMultiOnce svp (some session) (some [some f]) caps =
      ⟨(extractFrame f).1, (extractFrame f).2.2 ++ [(extractFrame f).2.1].flatMap (unmapEntry svp.hasMemory),
        some session⟩ := by
    simp only [decryptBufferMultiOnce, entriesOf_one, hextract, if_neg hbad]
  have hnone := findSome_preparesMulti
    (onlyPreparesMulti_append hmaps (unmapEntries_maps svp.hasMemory [(extractFrame f).2.1]).prepares) []
  rw [List.append_nil] at hnone
  rw [ho, multiVerdict, hnone]
  simp only [if_neg hbad]
  rfl

/-- What reading the metadata of one buffer and updating the session do before the loop. -/
theorem extractOne_ok (hok : (extractFrame f).1 = errorNone) :
    extractProtectionMetaMulti [f] = (errorNone, [entryOf f], (extractFrame f).2.2 ++ []) ∧
    OnlyPreparesMulti ((extractFrame f).2.2 ++ [] ++
      (updateDecryptToHostMulti svp session (mediaInfoMulti caps).2.1).2) := by
  have hextract := extractProtectionMetaMulti_one f
  rw [if_pos hok, (extractFrame_ok hok).1] at hextract
  have hmaps := (extractMulti_maps [f]).prepares
  rw [hextract] at hmaps
  exact ⟨hextract, onlyPreparesMulti_append hmaps
    (updateDecryptToHostMulti_prepares svp session (mediaInfoMulti caps).2.1)⟩

/-- A buffer that the loop fails on is rejected. -/
theorem multiVerdict_failed (hok : (extractFrame f).1 = errorNone) {e : OpenCDMError}
    (he : prepareSample svp.hasMemory {} (f.buffer, entryOf f) = .error e) (hne : e ≠ errorNone) :
    multiVerdict (decryptBufferMultiOnce svp (some session) (some [some f]) caps) = .rejected := by
  obtain ⟨hextract, hprep⟩ := @extractOne_ok svp session f caps hok
  have hnone := findSome_preparesMulti
    (onlyPreparesMulti_append hprep (unmapEntries_maps svp.hasMemory [entryOf f]).prepares) []
  rw [List.append_nil] at hnone
  simp only [multiVerdict, decryptBufferMultiOnce, entriesOf_one, hextract, if_true, foldlM_one, he, hnone]
  rw [if_neg hne]
  rfl

/-- What is prepared in the loop decides, whatever is cleaned up in the end. -/
theorem multiVerdict_prepared (hok : (extractFrame f).1 = errorNone) {p : Prepared}
    (hp : prepareSample svp.hasMemory {} (f.buffer, entryOf f) = .ok p) {verdict : Verdict}
    (hverdict : ∀ cleanup, ((if p.totalBytesToDecrypt > 0 then
        decryptPrepared svp p (mediaInfoMulti caps).1 (mediaInfoMulti caps).2.1 else (errorNone, [])).2 ++
      ((if (if p.totalBytesToDecrypt > 0 then
        decryptPrepared svp p (mediaInfoMulti caps).1 (mediaInfoMulti caps).2.1 else (errorNone, [])).1 = errorNone
        then transformClear [f.buffer] p.infos (mediaInfoMulti caps).2.2 else []) ++ cleanup)).findSome?
      eventVerdictMulti = some verdict) :
    multiVerdict (decryptBufferMultiOnce svp (some session) (some [some f]) caps) = verdict := by
  obtain ⟨hextract, hprep⟩ := @extractOne_ok svp session f caps hok
  simp only [multiVerdict, decryptBufferMultiOnce, entriesOf_one, hextract, if_true, foldlM_one, hp]
  rw [List.append_assoc, List.append_assoc, findSome_preparesMulti hprep]
  exact congrArg (Option.getD · _) (hverdict _)

theorem multiVerdict_eq (hblock : svp.dataBlockSize > 0) :
    multiVerdict (decryptBufferMultiOnce svp (some session) (some [some f]) caps) =
      if (extractFrame f).1 = errorNone then preparedVerdict svp f caps else .rejected := by
  by_cases hok : (extractFrame f).1 = errorNone
  · rw [if_pos hok]
    unfold preparedVerdict
    cases hdec : toDecrypt svp.hasMemory (entryOf f) with
    | error e =>
      refine multiVerdict_failed hok (e := e) ?_ (by rw [toDecrypt_error hdec]; decide)
      simp only [prepareSample, hdec]
    | ok b =>
      cases b with
      | false =>
        have hskip : prepareSample svp.hasMemory {} (f.buffer, entryOf f) = .ok { infos := [entryOf f] } := by
          simp only [prepareSample, hdec, List.nil_append]
        have hclear : (entryOf f).encrypted = false := by
          unfold entryOf
          split <;> rfl
        refine multiVerdict_prepared hok hskip fun cleanup => ?_
        have hzero : ¬ (0 : UInt32) > 0 := by decide
        simp only [hzero, if_false, if_true, transformClear, List.zip_cons_cons, List.zip_nil_left, hclear,
          Bool.not_false,
          List.filter_cons_of_pos]
        rfl
      | true =>
        cases hsub : subSamplesOf svp.hasMemory (entryOf f) with
        | error e =>
          refine multiVerdict_failed hok (e := e) ?_ (by rw [subSamplesOf_error hsub]; decide)
          simp only [prepareSample, hdec, hsub]
        | ok subSamples =>
          have hfirst := prepareSample_first svp.hasMemory f.buffer (entryOf f) subSamples hdec hsub
          dsimp only
          split
          · rename_i hbad
            rw [if_pos hbad] at hfirst
            exact multiVerdict_failed hok hfirst (by decide)
          · rename_i hgood
            rw [if_neg hgood] at hfirst
            have hpos : (0 : UInt32) + mappedSize (entryOf f).dataBuf > 0 := by
              have hne := toDecrypt_size hdec
              rw [UInt32.zero_add, gt_iff_lt, UInt32.lt_iff_toNat_lt, UInt32.toNat_zero]
              exact Nat.pos_of_ne_zero fun hzero => hne (UInt32.toNat_inj.1 hzero)
            refine multiVerdict_prepared hok hfirst fun cleanup => ?_
            simp only [if_pos hpos]
            exact decryptPrepared_verdict hblock rfl _
  · rw [if_neg hok]
    exact multiVerdict_unread hok

end

/-! ## Where they differ -/

/-- The encrypted bytes of a map. -/
def encryptedTotal (entries : List SubSampleInfo) : Nat := (entries.map fun e => e.encryptedBytes.toNat).sum

/-- What the multi-buffer path refuses or takes for clear on its own: counts above eight bits, values that
hold no buffer, a null key id, buffers that are empty or whose table has no encrypted bytes but more
bytes than they have. -/
inductive Stricter (hasMemory : GstBuffer → Bool) (buffer : GstBuffer) (protection : MultiMeta) : Prop where
  | count : protection.subSampleCount.getD 0 > 255 → Stricter hasMemory buffer protection
  | noTable : protection.subSampleCount.getD 0 > 0 → protection.subSamples = some none →
    Stricter hasMemory buffer protection
  | noIV : protection.iv = some none → Stricter hasMemory buffer protection
  | noKeyId : protection.kid = some none → Stricter hasMemory buffer protection
  | nullKeyId (kid : GstBuffer) : protection.kid = some (some kid) → kid.bytes = [] → hasMemory kid = false →
      Stricter hasMemory buffer protection
  | empty : buffer.bytes = [] → Stricter hasMemory buffer protection
  | entries (table : GstBuffer) (ps : List SubSampleInfo) : tableBuffer protection.toProtectionMeta = some table →
      pairs table.bytes (protection.subSampleCount.getD 0).toNat = some ps →
      255 < ps.length + entriesFor (buffer.bytes.length - total ps % 4294967296) → Stricter hasMemory buffer protection
  | overlong (table : GstBuffer) (ps : List SubSampleInfo) : tableBuffer protection.toProtectionMeta = some table →
      pairs table.bytes (protection.subSampleCount.getD 0).toNat = some ps → (∀ e ∈ ps, ¬ e.encryptedBytes > 0) →
      buffer.bytes.length < total ps → Stricter hasMemory buffer protection

/-- Where one path misses what the other does: the IV that is reversed, the name of the structure, a table
that is too short, encrypted bytes that add up to a multiple of 2^32. -/
inductive Slip (protection : MultiMeta) : Prop where
  | iv (iv : GstBuffer) : protection.initWithLast15 = some 1 → protection.iv = some (some iv) →
      iv.bytes.reverse ≠ iv.bytes → Slip protection
  | name : protection.name = "application/x-cbcs" → protection.cipherMode ≠ some "cbcs" → Slip protection
  | shortTable (table : GstBuffer) : tableBuffer protection.toProtectionMeta = some table →
      table.bytes.length < 6 * (protection.subSampleCount.getD 0).toNat → Slip protection
  | wraps (table : GstBuffer) (ps : List SubSampleInfo) : tableBuffer protection.toProtectionMeta = some table →
      pairs table.bytes (protection.subSampleCount.getD 0).toNat = some ps → 0 < encryptedTotal ps →
      encryptedTotal ps % 4294967296 = 0 → Slip protection

/-! ## Reading a table that is long enough -/

theorem getUint16BE_room {table : List UInt8} {pos : Nat} (h : pos + 6 ≤ table.length) :
    getUint16BE table pos = (some (pairAt table pos).clearBytes, pos + 2) := getUint16BE_some (by omega)

theorem findEncrypted_room {table : List UInt8} {count : Nat} (pos : Nat) (h : pos + 6 * count ≤ table.length) :
    ∃ found, findEncrypted table count pos = some found := by
  induction count generalizing pos with
  | zero => exact ⟨false, rfl⟩
  | succ count ih =>
    rw [findEncrypted, getUint16BE_room (by omega)]
    dsimp only
    rw [getUint32BE_some (by omega)]
    dsimp only
    split
    · exact ⟨true, rfl⟩
    · exact ih _ (by omega)

theorem readPairs_room {table : List UInt8} {count : Nat} (pos : Nat) (h : pos + 6 * count ≤ table.length)
    (acc : List SubSampleInfo) (sum : UInt32) : ∃ r, readPairs table count pos acc sum = some r := by
  induction count generalizing pos acc sum with
  | zero => exact ⟨_, rfl⟩
  | succ count ih =>
    rw [readPairs, getUint16BE_room (by omega)]
    dsimp only
    rw [getUint32BE_some (by omega)]
    exact ih _ (by omega) _ _

theorem readTable_encrypted {data : List UInt8} (heap : Nat → SubSampleInfo) {count : Nat}
    (h : 6 * count ≤ data.length) : (readTable data heap count).totalEncryptedBytes.toNat =
      encryptedTotal ((List.range count).map fun i => pairAt data (6 * i)) % 4294967296 := by
  induction count with
  | zero => rfl
  | succ count ih =>
    have hpos : (readTable data heap count).pos = 6 * count := (readTable_eq heap (by omega)).1
    rw [readTable, readEntry_pair (by rw [hpos]; omega), hpos]
    show ((readTable data heap count).totalEncryptedBytes + _).toNat = _
    rw [UInt32.toNat_add, ih (by omega), List.range_succ, encryptedTotal, encryptedTotal, List.map_append,
      List.map_append,
      List.sum_append, List.map_singleton, List.map_singleton, List.sum_singleton, Nat.mod_add_mod]

/-- The map of a table that is long enough is built unless its sum exceeds the frame. -/
theorem buildMap_room {svp : Svp} {buffer table : GstBuffer} {n : UInt32} {ps : List SubSampleInfo}
    (halloc : svp.alloc = true) (hdata : buffer.bytes ≠ []) (hn : n > 0)
    (hps : pairs table.bytes n.toNat = some ps) :
    (total ps % 4294967296 ≤ buffer.bytes.length → ∃ map count totalEncryptedBytes,
      buildMap svp buffer.size (some table) n = .ok (map, count, totalEncryptedBytes) ∧
      totalEncryptedBytes.toNat = encryptedTotal ps % 4294967296) ∧
    (buffer.bytes.length < total ps % 4294967296 → ∃ e, buildMap svp buffer.size (some table) n = .error e) := by
  obtain ⟨hroom, rfl⟩ := pairs_some hps
  obtain ⟨-, hentries, htotal⟩ := readTable_eq svp.heap hroom
  have henc := readTable_encrypted svp.heap hroom
  rw [← htotal, ← henc, ← buffer.size_toNat]
  have hfits := table.fits
  have hlen : (readTable table.bytes svp.heap n.toNat).entries.length = n.toNat := by rw [hentries]; simp
  have hne : ¬ (buffer.size = 0 ∨ n = 0) := by
    rintro (h0 | h0)
    · exact hdata (List.length_eq_zero_iff.1 (by rw [← buffer.size_toNat, h0]; rfl))
    · rw [h0] at hn
      exact absurd hn (by decide)
  unfold buildMap validateSubsampleMap
  dsimp only
  rw [if_neg hne]
  generalize readTable table.bytes svp.heap n.toNat = t at *
  by_cases heq : buffer.size = t.totalMappedBytes
  · rw [if_pos heq, heq]
    exact ⟨fun _ => ⟨_, _, _, if_neg (not_not.2 rfl), rfl⟩, fun h => absurd h (lt_irrefl _)⟩
  · rw [if_neg heq]
    by_cases hgt : buffer.size > t.totalMappedBytes
    · rw [if_pos hgt, halloc]
      obtain ⟨count, -, hext⟩ := extend_eq (m := ⟨t.entries, n⟩) svp.heap hlen hgt (by
        have := buffer.size.toNat_lt
        dsimp only
        unfold entriesFor; omega)
      rw [hext]
      exact ⟨fun _ => ⟨_, _, _, if_neg (not_not.2 rfl), rfl⟩,
        fun h => absurd (UInt32.lt_iff_toNat_lt.1 hgt) (Nat.lt_asymm h)⟩
    · rw [if_neg hgt]
      refine ⟨fun h => ?_, fun _ => ⟨_, if_pos (show errorInvalidDecryptBuffer ≠ errorNone by decide)⟩⟩
      rcases Nat.lt_or_eq_of_le h with h | h
      · exact absurd (UInt32.lt_iff_toNat_lt.2 h) hgt
      · exact absurd (UInt32.toNat_inj.1 h).symm heq

theorem entryOf_table {f : Frame} {protection : MultiMeta} (hinfo : f.info = some protection) :
    (entryOf f).subSamplesGstBuf = tableBuffer protection.toProtectionMeta ∧
    (entryOf f).subSamplesCount = protection.subSampleCount.getD 0 := by
  unfold entryOf
  rw [hinfo]
  exact ⟨rfl, rfl⟩

/-- A table with pairs is not null. -/
theorem table_room {hasMemory : GstBuffer → Bool} {f : Frame} {protection : MultiMeta} {table : GstBuffer}
    (hinfo : f.info = some protection) (hread : Readable f.buffer protection)
    (htable : tableBuffer protection.toProtectionMeta = some table)
    (hroom : 6 * (protection.subSampleCount.getD 0).toNat ≤ table.bytes.length) :
    protection.subSampleCount.getD 0 > 0 ∧ f.table hasMemory = some table.bytes := by
  have hpos : protection.subSampleCount.getD 0 > 0 := by
    unfold tableBuffer at htable
    split at htable
    · assumption
    · cases htable
  have hmap := hread.subSamples hpos
  rw [htable] at hmap
  have hne : table.bytes ≠ [] := by
    intro hnil
    rw [hnil, List.length_nil] at hroom
    have := UInt32.lt_iff_toNat_lt.1 hpos
    omega
  refine ⟨hpos, ?_⟩
  unfold Frame.table
  rw [(entryOf_table hinfo).1, htable]
  exact if_pos ⟨hmap, .inl hne⟩

/-- A table that is long enough tells whether there is something to decrypt. -/
theorem toDecrypt_room {hasMemory : GstBuffer → Bool} {f : Frame}
    (hread : ∀ protection, f.info = some protection → Readable f.buffer protection)
    (hroom : ∀ table, f.table hasMemory = some table → 6 * (entryOf f).subSamplesCount.toNat ≤ table.length) :
    toDecrypt hasMemory (entryOf f) = .ok (f.encrypted hasMemory) := by
  have hok : ∃ b, toDecrypt hasMemory (entryOf f) = .ok b := by
    unfold toDecrypt
    split
    · exact ⟨_, rfl⟩
    · split
      · rename_i table htable
        obtain ⟨found, hfound⟩ := findEncrypted_room 0 (by rw [Nat.zero_add]; exact hroom table htable)
        rw [hfound]
        exact ⟨_, rfl⟩
      · exact ⟨_, rfl⟩
  obtain ⟨b, hb⟩ := hok
  rw [toDecrypt_ok hread hb fun _ => hroom, hb]

/-- The subsamples of a table that is long enough are refused only when its sum exceeds the buffer. -/
theorem subSamplesOf_room {hasMemory : GstBuffer → Bool} {f : Frame} {protection : MultiMeta} {table : List UInt8}
    {ps : List SubSampleInfo} (hinfo : f.info = some protection) (htable : f.table hasMemory = some table)
    (hps : pairs table (entryOf f).subSamplesCount.toNat = some ps) :
    (total ps % 4294967296 ≤ f.buffer.bytes.length →
      ∃ subSamples, subSamplesOf hasMemory (entryOf f) = .ok subSamples) ∧
    (f.buffer.bytes.length < total ps % 4294967296 → ∃ e, subSamplesOf hasMemory (entryOf f) = .error e) := by
  have hroom := (pairs_some hps).1
  obtain ⟨⟨subSamples, sum⟩, hread⟩ := readPairs_room 0 (by rw [Nat.zero_add]; exact hroom) [] 0
  obtain ⟨-, hsub, hsum⟩ := readPairs_some hread
  rw [List.nil_append] at hsub
  rw [pairs_pairsFrom (.inr hroom)] at hps
  cases hps
  rw [UInt32.toNat_zero, Nat.zero_add] at hsum
  rw [← hsum, ← (mappedSize_data hinfo).1]
  have heq : subSamplesOf hasMemory (entryOf f) =
      validateSubsampleMapMulti subSamples (mappedSize (entryOf f).dataBuf) sum := by
    unfold subSamplesOf
    rw [show mapped hasMemory (entryOf f).subSamplesGstBuf = some table from htable]
    dsimp only
    rw [hread]
  rw [heq]
  unfold validateSubsampleMapMulti
  constructor
  · intro hle
    split
    · exact ⟨_, rfl⟩
    · rename_i hne
      rw [if_pos (UInt32.lt_iff_toNat_lt.2 (Nat.lt_of_le_of_ne hle fun h => hne (UInt32.toNat_inj.1 h).symm))]
      exact ⟨_, rfl⟩
  · intro hlt
    rw [if_neg, if_neg]
    · exact ⟨_, rfl⟩
    · intro hgt
      exact absurd (UInt32.lt_iff_toNat_lt.1 hgt) (Nat.lt_asymm hlt)
    · intro h
      rw [h] at hlt
      exact lt_irrefl _ hlt

/-! ## Mapping the inputs -/

theorem mapValue_join {value : Option (Option GstBuffer)} (h : value ≠ some none) :
    (canMap value.join = true → ∃ e, mapValue value = .ok (value.join, e)) ∧
    (canMap value.join = false → ∃ e, mapValue value = .error e) := by
  rcases value with _ | _ | b
  · exact ⟨fun hmap => (by cases hmap), fun _ => ⟨_, rfl⟩⟩
  · exact absurd rfl h
  · exact ⟨fun hmap => ⟨_, if_pos hmap⟩, fun hmap => ⟨_, if_neg (by rw [show b.mappable = false from hmap]; decide)⟩⟩

/-- The inputs are mapped when the values hold buffers that can be. -/
theorem mapInputs_join (buffer : GstBuffer) {info : ProtectionMeta}
    (htable : info.subSampleCount.getD 0 > 0 → info.subSamples ≠ some none) (hiv : info.iv ≠ some none)
    (hkid : info.kid ≠ some none) :
    ((info.subSampleCount.getD 0 > 0 → canMap (tableBuffer info) = true) ∧ canMap info.iv.join = true ∧
      canMap info.kid.join = true →
      ∃ events, mapInputs buffer info = .ok ⟨info.subSampleCount.getD 0, tableBuffer info,
        if info.initWithLast15.getD 0 = 1 then info.iv.join.map GstBuffer.swapped else info.iv.join, info.kid.join,
        { info with
          iv := some (if info.initWithLast15.getD 0 = 1 then info.iv.join.map GstBuffer.swapped else info.iv.join) },
        events⟩) ∧
    (¬ ((info.subSampleCount.getD 0 > 0 → canMap (tableBuffer info) = true) ∧ canMap info.iv.join = true ∧
      canMap info.kid.join = true) → ∃ r, mapInputs buffer info = .error r) := by
  -- the table, if there are subsamples
  have hsub : ((info.subSampleCount.getD 0 > 0 → canMap (tableBuffer info) = true) → ∃ e,
      (if info.subSampleCount.getD 0 > 0 then mapValue info.subSamples else .ok (none, [])) =
        .ok (tableBuffer info, e)) ∧
      (¬ (info.subSampleCount.getD 0 > 0 → canMap (tableBuffer info) = true) → ∃ e,
      (if info.subSampleCount.getD 0 > 0 then mapValue info.subSamples else .ok (none, [])) = .error e) := by
    unfold tableBuffer
    by_cases hpos : info.subSampleCount.getD 0 > 0
    · simp only [hpos, true_imp_iff]
      obtain ⟨hok, herror⟩ := mapValue_join (htable hpos)
      exact ⟨hok, fun h => herror (Bool.eq_false_of_not_eq_true h)⟩
    · simp only [if_neg hpos]
      exact ⟨fun _ => ⟨[], rfl⟩, fun h => absurd (fun hp => absurd hp hpos) h⟩
  obtain ⟨hivok, hiverror⟩ := mapValue_join hiv
  obtain ⟨hkidok, hkiderror⟩ := mapValue_join hkid
  unfold mapInputs
  dsimp only
  constructor
  · rintro ⟨h1, h2, h3⟩
    obtain ⟨e1, h1⟩ := hsub.1 h1
    obtain ⟨e2, h2⟩ := hivok h2
    obtain ⟨e3, h3⟩ := hkidok h3
    rw [h1]
    dsimp only
    rw [h2]
    dsimp only
    rw [h3]
    exact ⟨_, rfl⟩
  · intro hnot
    by_cases h1 : info.subSampleCount.getD 0 > 0 → canMap (tableBuffer info) = true
    · obtain ⟨e1, hm1⟩ := hsub.1 h1
      rw [hm1]
      dsimp only
      cases h2 : canMap info.iv.join with
      | false =>
        obtain ⟨e2, hm2⟩ := hiverror h2
        rw [hm2]
        exact ⟨_, rfl⟩
      | true =>
        obtain ⟨e2, hm2⟩ := hivok h2
        rw [hm2]
        dsimp only
        have h3 : canMap info.kid.join = false := Bool.eq_false_of_not_eq_true fun h3 => hnot ⟨h1, h2, h3⟩
        obtain ⟨e3, hm3⟩ := hkiderror h3
        rw [hm3]
        exact ⟨_, rfl⟩
    · obtain ⟨e1, hm1⟩ := hsub.2 h1
      rw [hm1]
      exact ⟨_, rfl⟩

/-! ## Agreement -/

/-- The samples of both paths. -/
theorem sample_agree {hasMemory : GstBuffer → Bool} {f : Frame} {protection : MultiMeta} {inputs : Inputs}
    (hinfo : f.info = some protection) (hread : Readable f.buffer protection) (hslip : ¬ Slip protection)
    (hiv : inputs.iv = if protection.initWithLast15.getD 0 = 1 then protection.iv.join.map GstBuffer.swapped
      else protection.iv.join)
    (hkid : inputs.keyId = protection.kid.join)
    (hkept : inputs.info = { protection.toProtectionMeta with iv := some inputs.iv })
    (map : Option (List SubSampleInfo)) (count : UInt32) (subSamples : List SubSampleInfo) :
    Verdict.ofSample (sampleInfoOf inputs map count) =
      Verdict.ofSample (sampleInfoMulti hasMemory (entryOf f) subSamples) := by
  have hbytes : ∀ b : Option GstBuffer, canMap b = true →
      (b.map GstBuffer.bytes).getD [] = (mapped hasMemory b).getD [] := by
    intro b hb
    obtain ⟨b, rfl⟩ : ∃ b', b = some b' := by
      cases b with
      | none => cases hb
      | some b => exact ⟨b, rfl⟩
    unfold mapped
    rw [Option.bind_some, Option.map_some, Option.getD_some]
    split
    · rfl
    · rename_i hnull
      have hnil : b.bytes = [] := not_not.1 fun hne => hnull ⟨hb, .inl hne⟩
      rw [hnil]
      rfl
  have hsame : (if protection.initWithLast15.getD 0 = 1 then protection.iv.join.map GstBuffer.swapped
      else protection.iv.join) = protection.iv.join := by
    refine swapped_repeatable fun hinit b hb => not_not.1 fun hne => hslip (.iv b hinit ?_ hne)
    rcases hv : protection.iv with _ | _ | iv
    · rw [hv] at hb; cases hb
    · rw [hv] at hb; cases hb
    · rw [hv] at hb; cases hb; rfl
  have hscheme : (if protection.cipherMode = some "cbcs" then EncryptionScheme.aesCbcCbcs else .aesCtrCenc) =
      schemeOf protection := by
    unfold schemeOf
    by_cases hmode : protection.cipherMode = some "cbcs"
    · rw [if_pos hmode, if_pos (.inr hmode)]
    · rw [if_neg hmode, if_neg]
      rintro (hname | h)
      · exact hslip (.name hname hmode)
      · exact hmode h
  unfold Verdict.ofSample sampleInfoOf sampleInfoMulti entryOf
  rw [hinfo, hkept, hiv, hsame, hkid]
  dsimp only [blobOf]
  rw [hscheme, hbytes _ hread.iv, hbytes _ hread.kid]

theorem toDecrypt_data {hasMemory : GstBuffer → Bool} {f : Frame} {protection : MultiMeta}
    (hinfo : f.info = some protection) (hdec : toDecrypt hasMemory (entryOf f) = .ok true) : f.buffer.bytes ≠ [] := by
  intro hnil
  have hsize := (mappedSize_data hinfo).1
  rw [hnil, List.length_nil] at hsize
  exact toDecrypt_size hdec (UInt32.toNat_inj.1 hsize)

/-- With a table for pairs that can be read there is something to decrypt when one of them is encrypted. -/
theorem encrypted_table {hasMemory : GstBuffer → Bool} {f : Frame} {protection : MultiMeta} {table : List UInt8}
    {ps : List SubSampleInfo} (hinfo : f.info = some protection) (hdata : f.buffer.bytes ≠ [])
    (htab : f.table hasMemory = some table) (hps : pairs table (entryOf f).subSamplesCount.toNat = some ps) :
    f.encrypted hasMemory = ps.any fun e => decide (e.encryptedBytes > 0) := by
  unfold Frame.encrypted
  rw [htab, hinfo, decide_eq_true hdata]
  dsimp only
  rw [hps]
  rfl

theorem toDecrypt_table {hasMemory : GstBuffer → Bool} {f : Frame} {protection : MultiMeta} {table : List UInt8}
    {ps : List SubSampleInfo} (hinfo : f.info = some protection) (hread : Readable f.buffer protection)
    (hdata : f.buffer.bytes ≠ []) (htab : f.table hasMemory = some table)
    (hps : pairs table (entryOf f).subSamplesCount.toNat = some ps) :
    toDecrypt hasMemory (entryOf f) = .ok (ps.any fun e => decide (e.encryptedBytes > 0)) := by
  rw [← encrypted_table hinfo hdata htab hps]
  refine toDecrypt_room (fun p hp => ?_) fun table' htab' => ?_
  · rw [hinfo] at hp
    cases hp
    exact hread
  · rw [htab] at htab'
    cases htab'
    exact (pairs_some hps).1

/-- Without a table all of the buffer is encrypted. -/
theorem toDecrypt_whole {hasMemory : GstBuffer → Bool} {f : Frame} {protection : MultiMeta}
    (hinfo : f.info = some protection) (hread : Readable f.buffer protection) (hdata : f.buffer.bytes ≠ [])
    (htab : f.table hasMemory = none) :
    toDecrypt hasMemory (entryOf f) = .ok true ∧
    subSamplesOf hasMemory (entryOf f) = .ok [⟨0, mappedSize (entryOf f).dataBuf⟩] := by
  have henc : f.encrypted hasMemory = true := by
    unfold Frame.encrypted
    rw [htab, hinfo, decide_eq_true hdata]
    rfl
  constructor
  · rw [← henc]
    refine toDecrypt_room (fun p hp => ?_) fun table htable => ?_
    · rw [hinfo] at hp
      cases hp
      exact hread
    · rw [htab] at htable
      cases htable
  · unfold subSamplesOf
    rw [show mapped hasMemory (entryOf f).subSamplesGstBuf = none from htab]

theorem subSamplesOf_length {hasMemory : GstBuffer → Bool} {f : Frame} {protection : MultiMeta} {table : List UInt8}
    {ps subSamples : List SubSampleInfo} (hinfo : f.info = some protection) (htab : f.table hasMemory = some table)
    (hps : pairs table (entryOf f).subSamplesCount.toNat = some ps)
    (hsub : subSamplesOf hasMemory (entryOf f) = .ok subSamples) :
    subSamples.length = ps.length + entriesFor (f.buffer.bytes.length - total ps % 4294967296) := by
  rcases subSamplesOf_ok hinfo hsub with ⟨hnone, -⟩ | ⟨table', ps', extra, htab', hps', rfl, -, hextra, -⟩
  · rw [htab] at hnone
    cases hnone
  · rw [htab] at htab'
    cases htab'
    rw [hps] at hps'
    cases hps'
    rw [List.length_append, hextra]

/-- The multi-buffer path hands nothing over where it is stricter. -/
theorem stricter_verdict {svp : MultiSvp} {f : Frame} {protection : MultiMeta} {caps : Option (Option ParsedCaps)}
    (hinfo : f.info = some protection) (hread : Readable f.buffer protection)
    (h : Stricter svp.hasMemory f.buffer protection) :
    preparedVerdict svp f caps = .rejected ∨ preparedVerdict svp f caps = .clear := by
  have hpair : ∀ {table ps}, tableBuffer protection.toProtectionMeta = some table →
      pairs table.bytes (protection.subSampleCount.getD 0).toNat = some ps →
      f.table svp.hasMemory = some table.bytes ∧ pairs table.bytes (entryOf f).subSamplesCount.toNat = some ps := by
    intro table ps htable hps
    refine ⟨(table_room hinfo hread htable (pairs_some hps).1).2, ?_⟩
    rw [(entryOf_table hinfo).2]
    exact hps
  have hkidGst : (entryOf f).keyIdGstBuf = protection.kid.join := by unfold entryOf; rw [hinfo]
  unfold preparedVerdict
  cases hdec : toDecrypt svp.hasMemory (entryOf f) with
  | error e => exact .inl rfl
  | ok b =>
    cases b with
    | false => exact .inr rfl
    | true =>
      cases hsub : subSamplesOf svp.hasMemory (entryOf f) with
      | error e => exact .inl rfl
      | ok subSamples =>
        refine .inl (if_pos ?_)
        cases h with
        | count hcount => exact absurd hcount hread.count
        | noTable hpos hnone =>
          have hmap := hread.subSamples hpos
          rw [tableBuffer, if_pos hpos, hnone] at hmap
          cases hmap
        | noIV hnone =>
          have hmap := hread.iv
          rw [hnone] at hmap
          cases hmap
        | noKeyId hnone =>
          have hmap := hread.kid
          rw [hnone] at hmap
          cases hmap
        | nullKeyId kid hkid hnil hmem =>
          left
          rw [hkidGst, hkid, mapped]
          simp [hnil, hmem]
        | empty hnil => exact absurd hnil (toDecrypt_data hinfo hdec)
        | entries table ps htable hps hmany =>
          right
          obtain ⟨htab, hps'⟩ := hpair htable hps
          rw [subSamplesOf_length hinfo htab hps' hsub]
          exact hmany
        | overlong table ps htable hps hclear hlong =>
          obtain ⟨htab, hps'⟩ := hpair htable hps
          rw [toDecrypt_table hinfo hread (toDecrypt_data hinfo hdec) htab hps',
            List.any_eq_false.2 fun e he => by simpa using hclear e he] at hdec
          cases hdec

theorem encryptedTotal_pos {ps : List SubSampleInfo} : 0 < encryptedTotal ps ↔ ∃ e ∈ ps, e.encryptedBytes > 0 := by
  rw [Nat.pos_iff_ne_zero, encryptedTotal, ne_eq, List.sum_eq_zero_iff]
  simp only [List.forall_mem_map, not_forall, gt_iff_lt, UInt32.lt_iff_toNat_lt, UInt32.toNat_zero, Nat.pos_iff_ne_zero,
    exists_prop]

/-- What the multi-buffer path does when it has something to decrypt. -/
theorem preparedVerdict_sent {svp : MultiSvp} {f : Frame} {protection : MultiMeta} {caps : Option (Option ParsedCaps)}
    {subSamples : List SubSampleInfo} (hinfo : f.info = some protection) (hread : Readable f.buffer protection)
    (hstrict : ¬ Stricter svp.hasMemory f.buffer protection) (hdec : toDecrypt svp.hasMemory (entryOf f) = .ok true)
    (hsub : subSamplesOf svp.hasMemory (entryOf f) = .ok subSamples) (hlen : subSamples.length ≤ 255) :
    preparedVerdict svp f caps = if revoked svp.toSvp (caps.join.getD (.none svp.garbage)) then .skipped else
      .ofSample (sampleInfoMulti svp.hasMemory (entryOf f) subSamples) := by
  have hkey : ¬ (mapped svp.hasMemory (entryOf f).keyIdGstBuf).isNone = true := by
    have hkid := hread.kid
    unfold entryOf
    rw [hinfo]
    dsimp only
    rcases hv : protection.kid with _ | _ | kid
    · rw [hv] at hkid; cases hkid
    · rw [hv] at hkid; cases hkid
    · rw [hv] at hkid
      have hmem : kid.bytes ≠ [] ∨ svp.hasMemory kid = true := by
        by_contra hnot
        rw [not_or, not_not] at hnot
        exact hstrict (.nullKeyId kid hv hnot.1 (Bool.eq_false_of_not_eq_true hnot.2))
      have hmapped : mapped svp.hasMemory (some kid) = some kid.bytes := if_pos ⟨hkid, hmem⟩
      rw [show (some (some kid)).join = some kid from rfl, hmapped]
      exact Bool.false_ne_true
  unfold preparedVerdict
  rw [hdec]
  dsimp only
  rw [hsub]
  dsimp only
  rw [if_neg]
  rintro (h | h)
  · exact hkey h
  · omega

/-- The paths agree on a buffer that is encrypted as a whole. -/
theorem prepared_agree_whole {svp : MultiSvp} {f : Frame} {protection : MultiMeta} {inputs : Inputs}
    {caps : Option (Option ParsedCaps)} (hinfo : f.info = some protection) (hread : Readable f.buffer protection)
    (hstrict : ¬ Stricter svp.hasMemory f.buffer protection) (htable : tableBuffer protection.toProtectionMeta = none)
    (hsubSample : inputs.subSample = none) (hiv : inputs.iv.isNone = false)
    (hsample : ∀ map count subSamples, Verdict.ofSample (sampleInfoOf inputs map count) =
      Verdict.ofSample (sampleInfoMulti svp.hasMemory (entryOf f) subSamples)) :
    mappedVerdict svp.toSvp f.buffer (caps.join.getD (.none svp.garbage)) inputs = preparedVerdict svp f caps := by
  have hdata : f.buffer.bytes ≠ [] := fun hnil => hstrict (.empty hnil)
  have htab : f.table svp.hasMemory = none := by
    unfold Frame.table
    rw [(entryOf_table hinfo).1, htable]
    rfl
  have hpos : f.buffer.size > 0 := by
    rw [gt_iff_lt, UInt32.lt_iff_toNat_lt, f.buffer.size_toNat, UInt32.toNat_zero]
    exact List.length_pos_iff.2 hdata
  obtain ⟨hdec, hsub⟩ := toDecrypt_whole hinfo hread hdata htab
  unfold mappedVerdict
  rw [hiv, Bool.and_false, Bool.false_and, if_neg Bool.false_ne_true, hsubSample,
    preparedVerdict_sent hinfo hread hstrict hdec hsub (by rw [List.length_singleton]; omega), buildMap]
  dsimp only
  rw [if_pos hpos, hsample none _ _]

/-- The paths agree on a buffer with a table that both can read. -/
theorem prepared_agree_table {svp : MultiSvp} {f : Frame} {protection : MultiMeta} {inputs : Inputs}
    {caps : Option (Option ParsedCaps)} {table : GstBuffer} (halloc : svp.alloc = true)
    (hinfo : f.info = some protection) (hread : Readable f.buffer protection)
    (hstrict : ¬ Stricter svp.hasMemory f.buffer protection) (hslip : ¬ Slip protection)
    (htable : tableBuffer protection.toProtectionMeta = some table) (hsubSample : inputs.subSample = some table)
    (hcount : inputs.subSampleCount = protection.subSampleCount.getD 0) (hiv : inputs.iv.isNone = false)
    (hsample : ∀ map count subSamples, Verdict.ofSample (sampleInfoOf inputs map count) =
      Verdict.ofSample (sampleInfoMulti svp.hasMemory (entryOf f) subSamples)) :
    mappedVerdict svp.toSvp f.buffer (caps.join.getD (.none svp.garbage)) inputs = preparedVerdict svp f caps := by
  have hdata : f.buffer.bytes ≠ [] := fun hnil => hstrict (.empty hnil)
  have hroom : 6 * (protection.subSampleCount.getD 0).toNat ≤ table.bytes.length :=
    not_lt.1 fun hshort => hslip (.shortTable table htable hshort)
  obtain ⟨hpos, htab⟩ := @table_room svp.hasMemory _ _ _ hinfo hread htable hroom
  obtain ⟨ps, hps⟩ : ∃ ps, pairs table.bytes (protection.subSampleCount.getD 0).toNat = some ps := ⟨_, if_pos hroom⟩
  have hps' : pairs table.bytes (entryOf f).subSamplesCount.toNat = some ps := by rw [(entryOf_table hinfo).2, hps]
  obtain ⟨hbuildOk, hbuildError⟩ := @buildMap_room svp.toSvp _ _ _ _ halloc hdata hpos hps
  obtain ⟨hsubOk, hsubError⟩ := subSamplesOf_room hinfo htab hps'
  have hdec := toDecrypt_table hinfo hread hdata htab hps'
  unfold mappedVerdict
  rw [hiv, Bool.and_false, Bool.false_and, if_neg Bool.false_ne_true, hsubSample, hcount]
  by_cases hany : ∃ e ∈ ps, e.encryptedBytes > 0
  · rw [List.any_eq_true.2 (by simpa using hany)] at hdec
    by_cases hle : total ps % 4294967296 ≤ f.buffer.bytes.length
    · obtain ⟨map, count, totalEncryptedBytes, hbuild, htotal⟩ := hbuildOk hle
      obtain ⟨subSamples, hsub⟩ := hsubOk hle
      have hlen : subSamples.length ≤ 255 := by
        rw [subSamplesOf_length hinfo htab hps' hsub]
        exact not_lt.1 fun hmany => hstrict (.entries table ps htable hps hmany)
      have hpositive : totalEncryptedBytes > 0 := by
        rw [gt_iff_lt, UInt32.lt_iff_toNat_lt, htotal, UInt32.toNat_zero]
        refine Nat.pos_of_ne_zero fun hzero => hslip (.wraps table ps htable hps (encryptedTotal_pos.2 hany) hzero)
      rw [hbuild, preparedVerdict_sent hinfo hread hstrict hdec hsub hlen]
      dsimp only
      rw [if_pos hpositive, hsample]
    · -- the table exceeds the buffer in 32 bits, and neither path goes on
      obtain ⟨e, hbuild⟩ := hbuildError (not_le.1 hle)
      obtain ⟨e', hsub⟩ := hsubError (not_le.1 hle)
      rw [hbuild]
      unfold preparedVerdict
      rw [hdec]
      dsimp only
      rw [hsub]
  · -- nothing is encrypted, so the table does not exceed the buffer
    have hclear : ∀ e ∈ ps, ¬ e.encryptedBytes > 0 := fun e he hpos => hany ⟨e, he, hpos⟩
    have hle : total ps ≤ f.buffer.bytes.length :=
      not_lt.1 fun hlong => hstrict (.overlong table ps htable hps hclear hlong)
    obtain ⟨map, count, totalEncryptedBytes, hbuild, htotal⟩ := hbuildOk (le_trans (Nat.mod_le _ _) hle)
    rw [Nat.eq_zero_of_not_pos fun hpos => hany (encryptedTotal_pos.1 hpos)] at htotal
    rw [List.any_eq_false.2 fun e he => by simpa using hclear e he] at hdec
    have hzero : ¬ totalEncryptedBytes > 0 := by
      rw [gt_iff_lt, UInt32.lt_iff_toNat_lt, htotal]
      exact Nat.lt_irrefl _
    rw [hbuild]
    unfold preparedVerdict
    rw [hdec]
    dsimp only
    rw [if_neg hzero]

/-- With everything mapped and nothing that sets them apart, the paths agree. -/
theorem prepared_agree {svp : MultiSvp} {f : Frame} {protection : MultiMeta} {inputs : Inputs}
    {caps : Option (Option ParsedCaps)} (halloc : svp.alloc = true) (hinfo : f.info = some protection)
    (hread : Readable f.buffer protection) (hstrict : ¬ Stricter svp.hasMemory f.buffer protection)
    (hslip : ¬ Slip protection) (hcount : inputs.subSampleCount = protection.subSampleCount.getD 0)
    (hsubSample : inputs.subSample = tableBuffer protection.toProtectionMeta)
    (hiv : inputs.iv = if protection.initWithLast15.getD 0 = 1 then protection.iv.join.map GstBuffer.swapped
      else protection.iv.join)
    (hkid : inputs.keyId = protection.kid.join)
    (hkept : inputs.info = { protection.toProtectionMeta with iv := some inputs.iv }) :
    mappedVerdict svp.toSvp f.buffer (caps.join.getD (.none svp.garbage)) inputs = preparedVerdict svp f caps := by
  have hivSome : inputs.iv.isNone = false := by
    have hmap := hread.iv
    rw [hiv]
    cases hj : protection.iv.join with
    | none => rw [hj] at hmap; cases hmap
    | some b => split <;> rfl
  have hsample := @sample_agree svp.hasMemory _ _ _ hinfo hread hslip hiv hkid hkept
  cases htable : tableBuffer protection.toProtectionMeta with
  | none =>
    rw [htable] at hsubSample
    exact prepared_agree_whole hinfo hread hstrict htable hsubSample hivSome hsample
  | some table =>
    rw [htable] at hsubSample
    exact prepared_agree_table halloc hinfo hread hstrict hslip htable hsubSample hcount hivSome hsample

/-- A buffer without metadata is refused by one path and clear for the other; where the multi-buffer path is
stricter it hands nothing over; and otherwise, slips apart, the paths agree. -/
theorem once_multi_agree (svp : MultiSvp) (session : Session) (f : Frame) (caps : Option (Option ParsedCaps))
    (halloc : svp.alloc = true) (hblock : svp.dataBlockSize > 0) :
    (f.info = none →
      onceVerdict (decryptBufferOnce svp.toSvp (some session) f.buffer none caps.join) = .rejected ∧
      multiVerdict (decryptBufferMultiOnce svp (some session) (some [some f]) caps) = .clear) ∧
    ∀ protection, f.info = some protection →
      (Stricter svp.hasMemory f.buffer protection →
        multiVerdict (decryptBufferMultiOnce svp (some session) (some [some f]) caps) = .rejected ∨
        multiVerdict (decryptBufferMultiOnce svp (some session) (some [some f]) caps) = .clear) ∧
      (¬ Stricter svp.hasMemory f.buffer protection → ¬ Slip protection →
        onceVerdict (decryptBufferOnce svp.toSvp (some session) f.buffer (some protection.toProtectionMeta) caps.join) =
          multiVerdict (decryptBufferMultiOnce svp (some session) (some [some f]) caps)) := by
  rw [multiVerdict_eq hblock]
  refine ⟨fun hinfo => ?_, fun protection hinfo => ?_⟩
  · constructor
    · unfold decryptBufferOnce
      dsimp only
      split <;> rfl
    · have hentry : entryOf f = {} := by unfold entryOf; rw [hinfo]
      rw [if_pos (by unfold extractFrame; rw [hinfo]), preparedVerdict, hentry]
      rfl
  · have hextract : extractFrame f = extractProtectionMeta f.buffer protection := by unfold extractFrame; rw [hinfo]
    rw [hextract]
    rcases extractProtectionMeta_cases f.buffer protection with ⟨hread, hok, -⟩ | ⟨hread, herror⟩
    · rw [if_pos hok]
      refine ⟨stricter_verdict hinfo hread, fun hstrict hslip => ?_⟩
      obtain ⟨events, hmap⟩ := (mapInputs_join f.buffer (fun hpos hnone => hstrict (.noTable hpos hnone))
        (fun hnone => hstrict (.noIV hnone)) (fun hnone => hstrict (.noKeyId hnone))).1
        ⟨hread.subSamples, hread.iv, hread.kid⟩
      rw [onceVerdict_eq hread.buffer, hmap]
      exact prepared_agree halloc hinfo hread hstrict hslip rfl rfl rfl rfl rfl
    · -- what the multi-buffer path could not read the other path cannot map
      rw [if_neg (by rw [herror]; decide)]
      refine ⟨fun _ => .inl rfl, fun hstrict hslip => ?_⟩
      cases hbuffer : f.buffer.mappable with
      | false =>
        unfold decryptBufferOnce
        dsimp only
        simp only [hbuffer, Bool.false_eq_true, if_false]
        rfl
      | true =>
        obtain ⟨r, hmap⟩ := (mapInputs_join f.buffer (fun hpos hnone => hstrict (.noTable hpos hnone))
          (fun hnone => hstrict (.noIV hnone)) (fun hnone => hstrict (.noKeyId hnone))).2
          fun ⟨hsub, hiv, hkid⟩ => hread ⟨fun hmany => hstrict (.count hmany), hsub, hiv, hbuffer, hkid⟩
        rw [onceVerdict_eq hbuffer, hmap]

/-! ## A frame for both -/

theorem good_pairs {table : GstBuffer} {ps : List SubSampleInfo} (htable : some goodTable = some table)
    (hps : pairs table.bytes 1 = some ps) : ps = [⟨0, 4⟩] := by
  cases htable
  exact (Option.some.inj hps).symm

theorem once_multi_agree_good :
    onceVerdict (decryptBufferOnce plainMultiSvp.toSvp (some ⟨false, false⟩) frame
      ((multiFrame 1 goodTable).info.map MultiMeta.toProtectionMeta) none) =
    multiVerdict
      (decryptBufferMultiOnce plainMultiSvp (some ⟨false, false⟩) (some [some (multiFrame 1 goodTable)]) none) := by
  refine ((once_multi_agree plainMultiSvp ⟨false, false⟩ (multiFrame 1 goodTable) none rfl (by decide)).2 _ rfl).2
    (fun h => ?_) (fun h => ?_)
  · cases h with
    | count h => exact absurd h (by decide)
    | noTable _ h => cases h
    | noIV h => cases h
    | noKeyId h => cases h
    | nullKeyId kid hkid hnil _ => cases hkid; cases hnil
    | empty h => cases h
    | entries table ps htable hps h => rw [good_pairs htable hps] at h; exact absurd h (by decide)
    | overlong table ps htable hps hclear h => rw [good_pairs htable hps] at h; exact absurd h (by decide)
  · cases h with
    | iv iv h => cases h
    | name h _ => exact absurd h (by decide)
    | shortTable table htable h => cases htable; exact absurd h (by decide)
    | wraps table ps htable hps _ h => rw [good_pairs htable hps] at h; exact absurd h (by decide)

/-- A buffer without metadata is an error for one path and clear for the other. -/
theorem clear_frame_differs :
    onceVerdict (decryptBufferOnce plainMultiSvp.toSvp (some ⟨false, false⟩) clearFrame.buffer none none) ≠
    multiVerdict (decryptBufferMultiOnce plainMultiSvp (some ⟨false, false⟩) (some [some clearFrame]) none) := by
  decide +kernel

end Ocdm.Adapter
