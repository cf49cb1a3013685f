/-
`opencdm_gstreamer_session_decrypt_buffer_once` of the RDK adapter (open_cdm_adapter.cpp): mapping the
buffers of a frame, reading its protection metadata, building the subsample map and the `SampleInfo`,
and the call of `opencdm_session_decrypt_v2`. The map handed over is the table of the frame, and covers
the frame, exactly when the table has room for its pairs, they do not add up to 2^32 or more, and the
count with the entries appended fits its eight bits (`handed_map_iff`).
-/
import Ocdm.Adapter.Subsamples

namespace Ocdm.Adapter

open Exchange (SubSampleInfo SampleInfo MediaProperties MediaType EncryptionScheme EncryptionPattern Blob SubSampleMap)

/-! ## Buffers and metadata -/

/-- A `GstBuffer` with the bytes it maps to; `gst_buffer_map` fails for one that is not mappable. Its
size is a `gsize`, of 32 bits where this file compiles (it casts a session's address to
`unsigned int`). -/
structure GstBuffer where
  id : Nat
  bytes : List UInt8
  mappable : Bool
  fits : bytes.length < 4294967296

def GstBuffer.size (b : GstBuffer) : UInt32 := UInt32.ofNat b.bytes.length

theorem GstBuffer.size_toNat (b : GstBuffer) : b.size.toNat = b.bytes.length :=
  UInt32.toNat_ofNat_of_lt' b.fits

/-- `swapIVBytes` -/
def swapIVBytes (iv : List UInt8) : List UInt8 :=
  (List.range (iv.length / 2)).foldl (fun m i =>
    (m.set i (m.getD (iv.length - i - 1) 0)).set (iv.length - i - 1) (m.getD i 0)) iv

/-- One pass of the loop of `swapIVBytes`, over `n` bytes. -/
def swapStep (n : Nat) (m : List UInt8) (i : Nat) : List UInt8 :=
  (m.set i (m.getD (n - i - 1) 0)).set (n - i - 1) (m.getD i 0)

theorem swapStep_length (n : Nat) (m : List UInt8) (i : Nat) : (swapStep n m i).length = m.length := by
  rw [swapStep, List.length_set, List.length_set]

theorem swapStep_getD {n i j : Nat} {m : List UInt8} (hm : m.length = n) (hi : i < n) (hj : j < n) :
    (swapStep n m i).getD j 0 = if j = i ∨ j = n - i - 1 then m.getD (n - 1 - j) 0 else m.getD j 0 := by
  unfold swapStep
  simp only [List.getD_eq_getElem?_getD, List.getElem?_set, List.length_set, hm]
  by_cases h1 : n - i - 1 = j
  · have : n - 1 - j = i := by omega
    simp [h1, hj, this]
  · rw [if_neg h1]
    by_cases h2 : i = j
    · have : n - i - 1 = n - 1 - j := by omega
      simp [h2, hj]
      grind
    · have h1' : ¬ j = n - i - 1 := fun h => h1 h.symm
      have h2' : ¬ j = i := fun h => h2 h.symm
      simp [h1', h2', h2]

/-- After `k` passes the outer `k` bytes on either side have changed places. -/
theorem swapped_take (iv : List UInt8) (k : Nat) (hk : k ≤ iv.length / 2) :
    ((List.range k).foldl (swapStep iv.length) iv).length = iv.length ∧
    ∀ j < iv.length, ((List.range k).foldl (swapStep iv.length) iv).getD j 0 =
      if j < k ∨ iv.length ≤ j + k then iv.getD (iv.length - 1 - j) 0 else iv.getD j 0 := by
  induction k with
  | zero => exact ⟨rfl, fun j hj => by rw [if_neg (by omega)]; rfl⟩
  | succ k ih =>
    obtain ⟨hlen, hget⟩ := ih (by omega)
    rw [List.range_succ, List.foldl_append, List.foldl_cons, List.foldl_nil]
    refine ⟨by rw [swapStep_length, hlen], fun j hj => ?_⟩
    rw [swapStep_getD hlen (by omega) hj, hget j hj, hget _ (by omega)]
    by_cases h : j = k ∨ j = iv.length - k - 1
    · rw [if_pos h, if_neg (by omega), if_pos (by omega)]
    · rw [if_neg h]
      by_cases h' : j < k ∨ iv.length ≤ j + k
      · rw [if_pos h', if_pos (by omega)]
      · rw [if_neg h', if_neg (by omega)]

theorem swapIVBytes_length (iv : List UInt8) : (swapIVBytes iv).length = iv.length :=
  (swapped_take iv (iv.length / 2) (le_refl _)).1

theorem swapIVBytes_eq_reverse (iv : List UInt8) : swapIVBytes iv = iv.reverse := by
  obtain ⟨hlen, hget⟩ := swapped_take iv (iv.length / 2) (le_refl _)
  have hfold : swapIVBytes iv = (List.range (iv.length / 2)).foldl (swapStep iv.length) iv := rfl
  refine List.ext_getElem (by rw [swapIVBytes_length, List.length_reverse]) fun j h1 h2 => ?_
  have hj : j < iv.length := by simpa using h2
  have hj' := hget j hj
  rw [← hfold, List.getD_eq_getElem _ _ h1] at hj'
  rw [hj', List.getElem_reverse]
  by_cases h : j < iv.length / 2 ∨ iv.length ≤ j + iv.length / 2
  · rw [if_pos h, List.getD_eq_getElem _ _ (by omega)]
  · -- the byte in the middle of an odd number stays
    rw [if_neg h, List.getD_eq_getElem _ _ hj]
    congr 1
    omega
def GstBuffer.swapped (b : GstBuffer) : GstBuffer :=
  { b with bytes := swapIVBytes b.bytes, fits := by rw [swapIVBytes_length]; exact b.fits }

theorem swapped_palindrome {b : GstBuffer} (h : b.bytes.reverse = b.bytes) : b.swapped = b := by
  obtain ⟨id, bytes, mappable, fits⟩ := b
  have hswap : swapIVBytes bytes = bytes := (swapIVBytes_eq_reverse bytes).trans h
  unfold GstBuffer.swapped
  simp only [hswap]

/-- The IV as it is handed over is the IV as it was, if reversing it does not change it. -/
theorem swapped_repeatable {initWithLast15 : Option UInt32} {iv : Option GstBuffer}
    (h : initWithLast15 = some 1 → ∀ b, iv = some b → b.bytes.reverse = b.bytes) :
    (if initWithLast15.getD 0 = 1 then iv.map GstBuffer.swapped else iv) = iv := by
  split
  · rename_i hone
    have hinit : initWithLast15 = some 1 := by
      cases initWithLast15 with
      | none => exact absurd hone (by decide)
      | some n => exact congrArg some hone
    cases iv with
    | none => rfl
    | some b => exact congrArg some (swapped_palindrome (h hinit b rfl))
  · rfl

/-- The fields of a `GstProtectionMeta`. A value can be absent, and can hold no buffer. -/
structure ProtectionMeta where
  subSampleCount : Option UInt32
  subSamples : Option (Option GstBuffer)
  iv : Option (Option GstBuffer)
  kid : Option (Option GstBuffer)
  initWithLast15 : Option UInt32
  cipherMode : Option String
  cryptByteBlock : Option UInt32
  skipByteBlock : Option UInt32

/-- What `CapsParser` gives for the caps of a frame. -/
structure ParsedCaps where
  height : UInt16
  width : UInt16
  mediaType : MediaType
  secureMemoryDisabled : Bool
deriving DecidableEq, Repr

/-- A `CapsParser` that has parsed nothing. The constructor leaves `_no_secure_memory` as its memory has it. -/
def ParsedCaps.none (garbage : Bool) : ParsedCaps := ⟨0, 0, .unknown, garbage⟩

/-- The parts of a session the adapter uses. -/
structure Session where
  decryptToHostSet : Bool
  decryptToHost : Bool
deriving DecidableEq, Repr

/-- `NeedsDecryptToHostUpdate` -/
def Session.needsDecryptToHostUpdate (s : Session) (decryptToHost : Bool) : Bool × Session :=
  if s.decryptToHostSet && s.decryptToHost == decryptToHost then (false, s) else (true, ⟨true, decryptToHost⟩)

/-- `TokenType` of an SVP header. -/
inductive TokenType where
  | inPlace
  | handle
  | preAllocatedHandle
  | other
deriving DecidableEq, Repr

/-! ## Calls -/

/-- The arguments of `opencdm_session_decrypt_v2`: the frame as copied into the data block, the size of
that block, the sample and the stream. -/
structure DecryptCall where
  data : List UInt8
  dataBlockSize : UInt32
  sampleInfo : SampleInfo
  streamProperties : MediaProperties
deriving DecidableEq, Repr

/-- The calls out of the adapter, in order. -/
inductive GstEvent where
  | map (buffer : Nat) (ok : Bool)
  | unmap (buffer : Option Nat)
  | setDecryptToHost (value ok : Bool)
  | setInPlace
  | decrypt (call : DecryptCall) (result : OpenCDMError)
  | appendTransform (buffer : Nat) (subSample : Option Nat) (subSampleCount size : UInt32)
  | transformFromClear (buffer : Nat) (mediaType : MediaType)
deriving DecidableEq, Repr

/-- The SVP library, the allocator, the session's decrypt and the memory of a new `CapsParser`, as the adapter meets
them. -/
structure Svp where
  setValue : Option (Bool → Bool)
  supportsMemoryPrealloc : Bool
  dataBlockSize : UInt32
  headerType : Option TokenType
  decrypt : DecryptCall → OpenCDMError
  alloc : Bool
  heap : Nat → SubSampleInfo
  garbage : Bool

/-! ## Mapping the inputs -/

/-- Map the buffer of a value, if it holds one. -/
def mapValue : Option (Option GstBuffer) → Except (List GstEvent) (Option GstBuffer × List GstEvent)
  | none => .error []
  | some none => .ok (none, [])
  | some (some b) => if b.mappable then .ok (some b, [.map b.id true]) else .error [.map b.id false]

/-- The inputs of a frame, mapped, with the metadata as it is then: `swapIVBytes` works in place. -/
structure Inputs where
  subSampleCount : UInt32
  subSample : Option GstBuffer
  iv : Option GstBuffer
  keyId : Option GstBuffer
  info : ProtectionMeta
  events : List GstEvent

/-- The unmapping of a buffer that may be null. -/
def unmapOf (b : Option GstBuffer) : GstEvent := .unmap (b.map GstBuffer.id)

/-- Map subsamples, IV and key id, or report an invalid buffer. -/
def mapInputs (buffer : GstBuffer) (info : ProtectionMeta) : Except (ProtectionMeta × List GstEvent) Inputs :=
  let subSampleCount := info.subSampleCount.getD 0
  let e0 : List GstEvent := [.map buffer.id true]
  match if subSampleCount > 0 then mapValue info.subSamples else .ok (none, []) with
  | .error e => .error (info, e0 ++ e ++ [.unmap (some buffer.id)])
  | .ok (subSample, e1) =>
    match mapValue info.iv with
    | .error e => .error (info, e0 ++ e1 ++ e ++ [.unmap (some buffer.id), unmapOf subSample])
    | .ok (iv, e2) =>
      -- swapped in the caller's buffer, before the key id is looked for
      let iv := if info.initWithLast15.getD 0 = 1 then iv.map GstBuffer.swapped else iv
      let info := { info with iv := some iv }
      match mapValue info.kid with
      | .error e => .error (info, e0 ++ e1 ++ e2 ++ e ++ [.unmap (some buffer.id), unmapOf subSample, unmapOf iv])
      | .ok (keyId, e3) => .ok ⟨subSampleCount, subSample, iv, keyId, info, e0 ++ e1 ++ e2 ++ e3⟩

/-! ## Decrypting -/

/-- The map of a frame, its count, and the number of encrypted bytes. -/
def buildMap (svp : Svp) (frameSize : UInt32) (subSample : Option GstBuffer) (subSampleCount : UInt32) :
    Except OpenCDMError (Option (List SubSampleInfo) × UInt32 × UInt32) :=
  match subSample with
  | some table =>
    let t := readTable table.bytes svp.heap subSampleCount.toNat
    let r := validateSubsampleMap ⟨t.entries, subSampleCount⟩ frameSize t.totalMappedBytes svp.heap svp.alloc
    if r.1 ≠ errorNone then .error r.1 else .ok (some r.2.entries, r.2.count, t.totalEncryptedBytes)
  | none => .ok (none, subSampleCount, frameSize)

def blobOf (b : Option GstBuffer) : Blob := ⟨((b.map GstBuffer.size).getD 0).toUInt8, b.map GstBuffer.bytes⟩

/-- The `SampleInfo` of a frame; count and lengths are stored in eight bits. -/
def sampleInfoOf (inputs : Inputs) (map : Option (List SubSampleInfo)) (subSampleCount : UInt32) : SampleInfo where
  scheme := if inputs.info.cipherMode = some "cbcs" then .aesCbcCbcs else .aesCtrCenc
  pattern := ⟨inputs.info.cryptByteBlock.getD 0, inputs.info.skipByteBlock.getD 0⟩
  iv := blobOf inputs.iv
  keyId := blobOf inputs.keyId
  subSample := ⟨subSampleCount.toUInt8, map⟩

/-- The call of `opencdm_session_decrypt_v2`, unless the memory allocated for it was revoked. -/
def callDecrypt (svp : Svp) (caps : ParsedCaps) (call : DecryptCall) : OpenCDMError × List GstEvent :=
  let video := decide (caps.mediaType = .video)
  let isSecureMemoryDisabled := video && caps.secureMemoryDisabled
  let needSecureMemoryPrealloc := video && svp.supportsMemoryPrealloc && !isSecureMemoryDisabled
  let tokenType := svp.headerType.getD .inPlace
  if needSecureMemoryPrealloc && decide (tokenType = .other) then (errorNone, [])
  else (svp.decrypt call, (if isSecureMemoryDisabled then [.setInPlace] else []) ++ [.decrypt call (svp.decrypt call)])

/-- The `media_type` of the SVP library. -/
def svpMediaType (caps : ParsedCaps) : MediaType := if caps.mediaType = .unknown then .data else caps.mediaType

/-- The last part, with everything mapped. -/
def decryptMapped (svp : Svp) (buffer : GstBuffer) (inputs : Inputs) (caps : ParsedCaps) :
    OpenCDMError × List GstEvent :=
  match buildMap svp buffer.size inputs.subSample inputs.subSampleCount with
  | .error e =>
    (e, [.unmap (some buffer.id), unmapOf inputs.subSample, unmapOf inputs.iv, unmapOf inputs.keyId])
  | .ok (map, subSampleCount, totalEncryptedBytes) =>
    let cleanup := .unmap (some buffer.id) ::
      ([inputs.subSample, inputs.iv, inputs.keyId].filter Option.isSome).map unmapOf
    if totalEncryptedBytes > 0 then
      let call : DecryptCall := ⟨buffer.bytes, svp.dataBlockSize, sampleInfoOf inputs map subSampleCount,
        ⟨caps.height, caps.width, caps.mediaType⟩⟩
      let r := callDecrypt svp caps call
      (r.1, r.2 ++ (if r.1 = errorNone then
        [.appendTransform buffer.id (inputs.subSample.map GstBuffer.id) subSampleCount buffer.size] else []) ++ cleanup)
    else (errorNone, .transformFromClear buffer.id (svpMediaType caps) :: cleanup)

/-- The update of `decryptToHost` in the SVP context. -/
def updateDecryptToHost (svp : Svp) (session : Session) (caps : ParsedCaps) : Session × List GstEvent :=
  match svp.setValue with
  | some setValue =>
    let r := session.needsDecryptToHostUpdate caps.secureMemoryDisabled
    (r.2, if r.1 then [.setDecryptToHost caps.secureMemoryDisabled (setValue caps.secureMemoryDisabled)] else [])
  | none => (session, [])

/-- What a call of the adapter leaves. -/
structure Outcome where
  result : OpenCDMError
  events : List GstEvent
  session : Option Session
  info : Option ProtectionMeta

/-- `opencdm_gstreamer_session_decrypt_buffer_once` -/
def decryptBufferOnce (svp : Svp) (session : Option Session) (buffer : GstBuffer) (info : Option ProtectionMeta)
    (caps : Option ParsedCaps) : Outcome :=
  match session with
  | none => ⟨errorInvalidSession, [], none, info⟩
  | some session =>
    if buffer.mappable then
      match info with
      | none => ⟨errorInvalidDecryptBuffer, [.map buffer.id true], some session, none⟩
      | some info =>
        match mapInputs buffer info with
        | .error (info, events) => ⟨errorInvalidDecryptBuffer, events, some session, some info⟩
        | .ok inputs =>
          let caps := caps.getD (.none svp.garbage)
          let (session, update) := updateDecryptToHost svp session caps
          if inputs.subSample.isNone && inputs.iv.isNone && inputs.keyId.isNone then
            ⟨errorNone, inputs.events ++ update ++
              [.transformFromClear buffer.id (svpMediaType caps), .unmap (some buffer.id)],
              some session, some inputs.info⟩
          else
            let r := decryptMapped svp buffer inputs caps
            ⟨r.1, inputs.events ++ update ++ r.2, some session, some inputs.info⟩
    else ⟨errorInvalidDecryptBuffer, [.map buffer.id false], some session, info⟩

/-! ## The call that is made -/

/-- Neither a decryption nor a transform. -/
def GstEvent.prepares : GstEvent → Bool
  | .decrypt .. => false
  | .appendTransform .. => false
  | .transformFromClear .. => false
  | _ => true

def OnlyPrepares (events : List GstEvent) : Prop := ∀ e ∈ events, e.prepares = true

theorem onlyPrepares_append {xs ys : List GstEvent} (hx : OnlyPrepares xs) (hy : OnlyPrepares ys) :
    OnlyPrepares (xs ++ ys) := by
  intro e h
  rcases List.mem_append.1 h with h | h
  · exact hx e h
  · exact hy e h

theorem OnlyPrepares.noDecrypt {events : List GstEvent} (h : OnlyPrepares events) (call : DecryptCall)
    (result : OpenCDMError) : .decrypt call result ∉ events :=
  fun hin => Bool.false_ne_true (h _ hin)

/-- A buffer mapped or unmapped. -/
def GstEvent.maps : GstEvent → Bool
  | .map .. => true
  | .unmap .. => true
  | _ => false

def OnlyMaps (events : List GstEvent) : Prop := ∀ e ∈ events, e.maps = true

theorem onlyMaps_append {xs ys : List GstEvent} (hx : OnlyMaps xs) (hy : OnlyMaps ys) : OnlyMaps (xs ++ ys) :=
  List.forall_mem_append.2 ⟨hx, hy⟩

theorem OnlyMaps.prepares {events : List GstEvent} (h : OnlyMaps events) : OnlyPrepares events := by
  intro e he
  have hmaps := h e he
  cases e <;> first | rfl | cases hmaps

theorem mapValue_ok {value : Option (Option GstBuffer)} {b : Option GstBuffer} {events : List GstEvent}
    (h : mapValue value = .ok (b, events)) : value = some b ∧ OnlyMaps events := by
  unfold mapValue at h
  split at h
  · cases h
  · cases h; exact ⟨rfl, fun _ h => by cases h⟩
  · split at h
    · cases h; exact ⟨rfl, by simp [OnlyMaps, GstEvent.maps]⟩
    · cases h

theorem mapValue_error {value : Option (Option GstBuffer)} {events : List GstEvent}
    (h : mapValue value = .error events) : OnlyMaps events := by
  unfold mapValue at h
  split at h
  · cases h; simp [OnlyMaps, GstEvent.maps]
  · cases h
  · split at h
    · cases h
    · cases h; simp [OnlyMaps, GstEvent.maps]

theorem mapInputs_ok {buffer : GstBuffer} {info : ProtectionMeta} {inputs : Inputs}
    (h : mapInputs buffer info = .ok inputs) : inputs.subSampleCount = info.subSampleCount.getD 0 ∧
      (info.subSampleCount.getD 0 > 0 → info.subSamples = some inputs.subSample) ∧ OnlyMaps inputs.events := by
  unfold mapInputs at h
  dsimp only at h
  split at h
  · cases h
  · rename_i subSample e1 hsub
    split at h
    · cases h
    · rename_i iv e2 hiv
      split at h
      · cases h
      · rename_i keyId e3 hkid
        cases h
        have hmap : (info.subSampleCount.getD 0 > 0 → info.subSamples = some subSample) ∧ OnlyMaps e1 := by
          split at hsub
          · exact ⟨fun _ => (mapValue_ok hsub).1, (mapValue_ok hsub).2⟩
          · rename_i hzero
            cases hsub
            exact ⟨fun hpos => absurd hpos hzero, by simp [OnlyMaps, GstEvent.maps]⟩
        have h0 : OnlyMaps [GstEvent.map buffer.id true] := by simp [OnlyMaps, GstEvent.maps]
        exact ⟨rfl, hmap.1, onlyMaps_append
          (onlyMaps_append (onlyMaps_append h0 hmap.2) (mapValue_ok hiv).2)
          (mapValue_ok hkid).2⟩

theorem mapInputs_error {buffer : GstBuffer} {info : ProtectionMeta} {r : ProtectionMeta × List GstEvent}
    (h : mapInputs buffer info = .error r) : OnlyMaps r.2 := by
  have h0 : OnlyMaps [GstEvent.map buffer.id true] := by simp [OnlyMaps, GstEvent.maps]
  unfold mapInputs at h
  dsimp only at h
  split at h
  · rename_i e hsub
    cases h
    have he : OnlyMaps e := by
      split at hsub
      · exact mapValue_error hsub
      · cases hsub
    exact onlyMaps_append (onlyMaps_append h0 he) (by simp [OnlyMaps, GstEvent.maps])
  · rename_i subSample e1 hsub
    have h1 : OnlyMaps e1 := by
      split at hsub
      · exact (mapValue_ok hsub).2
      · cases hsub; simp [OnlyMaps, GstEvent.maps]
    split at h
    · rename_i e hiv
      cases h
      exact onlyMaps_append (onlyMaps_append (onlyMaps_append h0 h1) (mapValue_error hiv))
        (by simp [OnlyMaps, GstEvent.maps, unmapOf])
    · rename_i iv e2 hiv
      split at h
      · rename_i e hkid
        cases h
        exact onlyMaps_append (onlyMaps_append
          (onlyMaps_append (onlyMaps_append h0 h1) (mapValue_ok hiv).2)
          (mapValue_error hkid)) (by simp [OnlyMaps, GstEvent.maps, unmapOf])
      · cases h

theorem updateDecryptToHost_prepares (svp : Svp) (session : Session) (caps : ParsedCaps) :
    OnlyPrepares (updateDecryptToHost svp session caps).2 := by
  unfold updateDecryptToHost
  split
  · dsimp only
    split <;> simp [OnlyPrepares, GstEvent.prepares]
  · simp [OnlyPrepares, GstEvent.prepares]

/-- The call made with everything mapped carries the frame, the inputs with the map that was built, and the stream. -/
theorem decryptMapped_made {svp : Svp} {buffer : GstBuffer} {inputs : Inputs} {caps : ParsedCaps} {call : DecryptCall}
    {result : OpenCDMError} (h : .decrypt call result ∈ (decryptMapped svp buffer inputs caps).2) :
    ∃ map count totalEncryptedBytes,
      buildMap svp buffer.size inputs.subSample inputs.subSampleCount = .ok (map, count, totalEncryptedBytes) ∧
      call = ⟨buffer.bytes, svp.dataBlockSize, sampleInfoOf inputs map count,
        ⟨caps.height, caps.width, caps.mediaType⟩⟩ := by
  unfold decryptMapped at h
  split at h
  · simp [unmapOf] at h
  · rename_i map count totalEncryptedBytes hbuild
    refine ⟨map, count, totalEncryptedBytes, hbuild, ?_⟩
    have hclean : ∀ bs : List (Option GstBuffer), OnlyPrepares (.unmap (some buffer.id) :: bs.map unmapOf) := by
      simp [OnlyPrepares, GstEvent.prepares, unmapOf]
    dsimp only at h
    split at h
    · rcases List.mem_append.1 h with h | h
      · rcases List.mem_append.1 h with h | h
        · unfold callDecrypt at h
          dsimp only at h
          split at h
          · cases h
          · rcases List.mem_append.1 h with h | h
            · split at h <;> simp at h
            · cases List.mem_singleton.1 h; rfl
        · split at h <;> simp at h
      · exact absurd h ((hclean _).noDecrypt _ _)
    · rcases List.mem_cons.1 h with h | h
      · cases h
      · exact absurd h ((hclean _).noDecrypt _ _)

theorem decryptMapped_call {svp : Svp} {buffer : GstBuffer} {inputs : Inputs} {caps : ParsedCaps} {call : DecryptCall}
    {result : OpenCDMError} (h : .decrypt call result ∈ (decryptMapped svp buffer inputs caps).2) :
    ∃ map count totalEncryptedBytes,
      buildMap svp buffer.size inputs.subSample inputs.subSampleCount = .ok (map, count, totalEncryptedBytes) ∧
      call.data = buffer.bytes ∧ call.sampleInfo = sampleInfoOf inputs map count := by
  obtain ⟨map, count, totalEncryptedBytes, hbuild, rfl⟩ := decryptMapped_made h
  exact ⟨map, count, totalEncryptedBytes, hbuild, rfl, rfl⟩

/-- A call of the decryptor is made with the inputs mapped. -/
theorem decryptBufferOnce_call {svp : Svp} {session : Option Session} {buffer : GstBuffer}
    {info : Option ProtectionMeta} {caps : Option ParsedCaps} {call : DecryptCall} {result : OpenCDMError}
    (h : .decrypt call result ∈ (decryptBufferOnce svp session buffer info caps).events) :
    ∃ info' inputs, info = some info' ∧ mapInputs buffer info' = .ok inputs ∧
      .decrypt call result ∈ (decryptMapped svp buffer inputs (caps.getD (.none svp.garbage))).2 := by
  unfold decryptBufferOnce at h
  split at h
  · cases h
  · rename_i session
    split at h
    · split at h
      · simp at h
      · rename_i info
        split at h
        · rename_i info' events herr
          exact absurd h ((mapInputs_error herr).prepares.noDecrypt _ _)
        · rename_i inputs hok
          refine ⟨info, inputs, rfl, hok, ?_⟩
          obtain ⟨-, -, hevents⟩ := mapInputs_ok hok
          have hupdate := updateDecryptToHost_prepares svp session (caps.getD (.none svp.garbage))
          dsimp only at h
          split at h
          · rcases List.mem_append.1 h with h | h
            · exact absurd h ((onlyPrepares_append hevents.prepares hupdate).noDecrypt _ _)
            · simp at h
          · rcases List.mem_append.1 h with h | h
            · exact absurd h ((onlyPrepares_append hevents.prepares hupdate).noDecrypt _ _)
            · exact h
    · simp at h

/-! ## The map that is handed over -/

/-- The map's entries, as many as its count says, are the first `count` pairs of the table and entries
without encrypted bytes behind them, and they cover the frame. -/
def MapOK (table : List UInt8) (count frameSize : Nat) (map : SubSampleMap) : Prop :=
  ∃ ps entries rest, pairs table count = some ps ∧ map.entries = some entries ∧
    entries.take map.count.toNat = ps ++ rest ∧ (∀ e ∈ rest, e.encryptedBytes = 0) ∧ total (ps ++ rest) = frameSize

/-- The table has room for its pairs, they do not add up to 2^32 or more, and with the entries needed for
the rest of the frame there are at most 255. -/
def TableFits (table : List UInt8) (count frameSize : Nat) : Prop :=
  ∃ ps, pairs table count = some ps ∧ total ps < 4294967296 ∧ count + entriesFor (frameSize - total ps) ≤ 255

/-- What the map is, before its count is stored in eight bits. -/
theorem buildMap_ok {svp : Svp} {buffer table : GstBuffer} {n : UInt32} (hframe : buffer.bytes ≠ []) (hn : n > 0)
    {map : Option (List SubSampleInfo)} {count totalEncryptedBytes : UInt32} {ps : List SubSampleInfo}
    (hps : pairs table.bytes n.toNat = some ps)
    (h : buildMap svp buffer.size (some table) n = .ok (map, count, totalEncryptedBytes)) :
    ∃ extra : List SubSampleInfo, map = some (ps ++ extra) ∧ count.toNat = n.toNat + extra.length ∧
      total ps % 4294967296 ≤ buffer.bytes.length ∧
      extra.length = entriesFor (buffer.bytes.length - total ps % 4294967296) ∧
      (∀ e ∈ extra, Clear e) ∧
      total extra = buffer.bytes.length - total ps % 4294967296 := by
  obtain ⟨hroom, hps⟩ := pairs_some hps
  obtain ⟨-, hentries, htotal⟩ := readTable_eq svp.heap hroom
  rw [← hps] at hentries htotal
  have hlen : ps.length = n.toNat := by rw [hps]; simp
  have hfits := table.fits
  have hframe' : 0 < buffer.size.toNat := by
    rw [buffer.size_toNat]
    exact List.length_pos_iff.2 hframe
  unfold buildMap at h
  dsimp only at h
  split at h
  · cases h
  · rename_i hok
    cases h
    have hpos : 0 < n.toNat := UInt32.lt_iff_toNat_lt.1 hn
    obtain ⟨extra, h1, h2, h3, h4, h5, h6⟩ := validate_eq (by rw [hentries, hlen]) hframe' (by exact hpos)
      (by dsimp only; omega) (Prod.ext (not_not.1 hok) rfl)
    rw [htotal, buffer.size_toNat] at h3 h4 h6
    exact ⟨extra, by rw [h1, hentries], h2, h3, h4, h5, h6⟩

/-- Leaving out clear entries leaves out bytes. -/
theorem total_take_lt {extra : List SubSampleInfo} (h : ∀ e ∈ extra, Clear e) {k : Nat} (hk : k < extra.length) :
    total (extra.take k) < total extra := by
  have hsplit : total extra = total (extra.take k) + total (extra.drop k) := by
    rw [← total_append, List.take_append_drop]
  obtain ⟨e, rest, hdrop⟩ := List.exists_cons_of_length_pos (l := extra.drop k) (by rw [List.length_drop]; omega)
  have he : Clear e := h e (List.mem_of_mem_drop (by rw [hdrop]; exact List.mem_cons_self ..))
  have hspan : 0 < span e := Nat.lt_of_lt_of_le he.2 (Nat.le_add_right _ _)
  rw [hsplit, hdrop, total_cons]
  omega

/-- The first entries of a map with clear entries behind its pairs, as many as fit a count of eight bits,
are the pairs and clear entries that cover the frame exactly when the total does not wrap and all
entries are counted. -/
theorem counted_iff {ps extra : List SubSampleInfo} {count frameSize : Nat} (hlen : ps.length = count)
    (hsize : frameSize < 4294967296) (hle : total ps % 4294967296 ≤ frameSize)
    (hextra : extra.length = entriesFor (frameSize - total ps % 4294967296)) (hclear : ∀ e ∈ extra, Clear e)
    (htotal : total extra = frameSize - total ps % 4294967296) :
    (∃ rest, (ps ++ extra).take ((count + extra.length) % 256) = ps ++ rest ∧ (∀ e ∈ rest, e.encryptedBytes = 0) ∧
      total (ps ++ rest) = frameSize) ↔
    total ps < 4294967296 ∧ count + entriesFor (frameSize - total ps) ≤ 255 := by
  constructor
  · rintro ⟨rest, htake, -, hsum⟩
    rw [total_append] at hsum
    have hps : total ps < 4294967296 := by omega
    rw [Nat.mod_eq_of_lt hps] at hextra htotal
    refine ⟨hps, ?_⟩
    by_contra hbig
    rw [← hextra] at hbig
    have hlentake := congrArg List.length htake
    rw [List.length_take, List.length_append, List.length_append, hlen] at hlentake
    -- the count stored is smaller than the number of entries, and what it leaves out are clear bytes
    have hk : (count + extra.length) % 256 - count < extra.length := by omega
    have hrest : rest = extra.take ((count + extra.length) % 256 - count) := by
      rw [List.take_append, hlen, List.take_of_length_le (by omega)] at htake
      exact (List.append_cancel_left htake).symm
    have hlt := total_take_lt hclear hk
    rw [← hrest] at hlt
    omega
  · rintro ⟨hps, hfit⟩
    rw [Nat.mod_eq_of_lt hps] at hextra htotal hle
    rw [← hextra] at hfit
    refine ⟨extra, ?_, fun e he => (hclear e he).1, ?_⟩
    · rw [Nat.mod_eq_of_lt (by omega), List.take_of_length_le (by rw [List.length_append, hlen])]
    · rw [total_append, htotal]
      omega

/-- Whenever the frame reaches the decryptor, the map handed over is the table's and covers the frame
exactly when the table fits. -/
theorem handed_map_iff (svp : Svp) (session : Option Session) (buffer table : GstBuffer) (info : ProtectionMeta)
    (caps : Option ParsedCaps) (n : UInt32) (call : DecryptCall) (result : OpenCDMError)
    (hframe : buffer.bytes ≠ []) (hn : n > 0) (hcount : info.subSampleCount = some n)
    (htable : info.subSamples = some (some table))
    (hcall : .decrypt call result ∈ (decryptBufferOnce svp session buffer (some info) caps).events) :
    MapOK table.bytes n.toNat buffer.bytes.length call.sampleInfo.subSample ↔
      TableFits table.bytes n.toNat buffer.bytes.length := by
  obtain ⟨info', inputs, hinfo, hmap, hdec⟩ := decryptBufferOnce_call hcall
  cases hinfo
  obtain ⟨hcnt, hsub, -⟩ := mapInputs_ok hmap
  obtain ⟨map, count, totalEncryptedBytes, hbuild, -, hinfo⟩ := decryptMapped_call hdec
  have hcallmap : call.sampleInfo.subSample = ⟨count.toUInt8, map⟩ := by rw [hinfo]; rfl
  rw [hcount, Option.getD_some] at hcnt hsub
  rw [htable] at hsub
  rw [hcnt, ← Option.some.inj (hsub hn)] at hbuild
  rw [hcallmap]
  have hcounted : ∀ ps, pairs table.bytes n.toNat = some ps →
      ((∃ entries rest, map = some entries ∧ entries.take count.toUInt8.toNat = ps ++ rest ∧
        (∀ e ∈ rest, e.encryptedBytes = 0) ∧ total (ps ++ rest) = buffer.bytes.length) ↔
      total ps < 4294967296 ∧ n.toNat + entriesFor (buffer.bytes.length - total ps) ≤ 255) := by
    intro ps hps
    obtain ⟨extra, hmapx, hcountx, hle, hextra, hclear, htotal⟩ := buildMap_ok hframe hn hps hbuild
    have hlen : ps.length = n.toNat := by rw [(pairs_some hps).2]; simp
    rw [← counted_iff hlen buffer.fits hle hextra hclear htotal, UInt32.toNat_toUInt8, hcountx]
    constructor
    · rintro ⟨entries, rest, hentries, htake, hrest⟩
      rw [hmapx] at hentries
      cases hentries
      exact ⟨rest, htake, hrest⟩
    · rintro ⟨rest, htake, hrest⟩
      exact ⟨ps ++ extra, rest, hmapx, htake, hrest⟩
  constructor
  · rintro ⟨ps, entries, rest, hps, hentries, htake, hrest⟩
    exact ⟨ps, hps, (hcounted ps hps).1 ⟨entries, rest, hentries, htake, hrest⟩⟩
  · rintro ⟨ps, hps, hfit⟩
    obtain ⟨entries, rest, hentries, htake, hrest⟩ := (hcounted ps hps).2 hfit
    exact ⟨ps, entries, rest, hps, hentries, htake, hrest⟩

/-! ## Frames -/

/-- An SVP library that allocates what it is asked for, and a decryptor that succeeds. -/
def plainSvp : Svp := ⟨none, false, 4, some .inPlace, fun _ => 0, true, fun _ => ⟨0, 0⟩, false⟩

/-- A frame of four bytes. -/
def frame : GstBuffer := ⟨0, [1, 2, 3, 4], true, by decide⟩

/-- The id of its key. -/
def frameKey : GstBuffer := ⟨3, [9], true, by decide⟩

/-- The table of `frame` with all four bytes encrypted. -/
def goodTable : GstBuffer := ⟨1, [0, 0, 0, 0, 0, 4], true, by decide⟩

/-- Two pairs, that cover the first three bytes of `frame`. -/
def shortTable : GstBuffer := ⟨1, [0, 1, 0, 0, 0, 1, 0, 0, 0, 0, 0, 1], true, by decide⟩

/-- A table of two pairs, with 2^32 - 1 encrypted bytes and with five clear bytes: four modulo 2^32. -/
def wrappingTable : GstBuffer := ⟨1, [0, 0, 0xFF, 0xFF, 0xFF, 0xFF, 0, 5, 0, 0, 0, 0], true, by decide⟩

/-- The metadata of a frame with the given table. -/
def infoOf (count : UInt32) (table : GstBuffer) : ProtectionMeta :=
  ⟨some count, some (some table), some none, some none, none, none, none, none⟩

/-- The call made for `frame` with the given map. -/
def callOf (entries : List SubSampleInfo) : DecryptCall :=
  ⟨[1, 2, 3, 4], 4, ⟨.aesCtrCenc, ⟨0, 0⟩, ⟨0, none⟩, ⟨0, none⟩, ⟨UInt8.ofNat entries.length, some entries⟩⟩,
    ⟨0, 0, .unknown⟩⟩

theorem good_call : .decrypt (callOf [⟨0, 4⟩]) 0 ∈
    (decryptBufferOnce plainSvp (some ⟨false, false⟩) frame (some (infoOf 1 goodTable)) none).events := by
  decide +kernel

theorem wrapping_call : .decrypt (callOf [⟨0, 0xFFFFFFFF⟩, ⟨5, 0⟩]) 0 ∈
    (decryptBufferOnce plainSvp (some ⟨false, false⟩) frame (some (infoOf 2 wrappingTable)) none).events := by
  decide +kernel

theorem short_call : .decrypt (callOf [⟨1, 1⟩, ⟨0, 1⟩, ⟨1, 0⟩]) 0 ∈
    (decryptBufferOnce plainSvp (some ⟨false, false⟩) frame (some (infoOf 2 shortTable)) none).events := by
  decide +kernel

/-- Two pairs and an entry for the byte that is left. -/
theorem handed_map_good :
    MapOK shortTable.bytes 2 4 (callOf [⟨1, 1⟩, ⟨0, 1⟩, ⟨1, 0⟩]).sampleInfo.subSample ↔
      TableFits shortTable.bytes 2 4 :=
  handed_map_iff plainSvp (some ⟨false, false⟩) frame shortTable (infoOf 2 shortTable) none 2
    (callOf [⟨1, 1⟩, ⟨0, 1⟩, ⟨1, 0⟩]) 0 (by decide) (by decide) rfl rfl short_call

/-- The map handed over covers 2^32 bytes more than the frame has. -/
theorem wrapping_table_handed_over :
    .decrypt (callOf [⟨0, 0xFFFFFFFF⟩, ⟨5, 0⟩]) 0 ∈
      (decryptBufferOnce plainSvp (some ⟨false, false⟩) frame (some (infoOf 2 wrappingTable)) none).events ∧
    total [⟨0, 0xFFFFFFFF⟩, ⟨5, 0⟩] = 4294967300 ∧
    ¬ MapOK wrappingTable.bytes 2 4 (callOf [⟨0, 0xFFFFFFFF⟩, ⟨5, 0⟩]).sampleInfo.subSample := by
  refine ⟨wrapping_call, by decide, ?_⟩
  rintro ⟨ps, entries, rest, -, hentries, htake, -, hsum⟩
  cases hentries
  rw [← htake] at hsum
  exact absurd hsum (by decide)

end Ocdm.Adapter
