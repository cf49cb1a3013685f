/-
`opencdm_gstreamer_session_decrypt_buffer` of the GStreamer adapter (gstreamer/open_cdm_adapter.cpp): mapping the
buffers of a frame, reading its protection metadata, and the call of `opencdm_session_decrypt_v2` on the mapped frame.
Other than the RDK adapter, it takes a null IV for one that cannot be mapped. Like there, a frame without metadata stays
mapped, and a null buffer is unmapped on some exits (`gst_matched_iff`). For all three functions together:
`mappings_matched_iff`.
-/
import Ocdm.Adapter.GStreamer
import Ocdm.Adapter.Mappings

namespace Ocdm.Adapter

open Exchange (SubSampleInfo SampleInfo MediaProperties)
open Pairing (Op Matched acquireAll)

/-! ## Calls -/

/-- The arguments of `opencdm_session_decrypt_v2`; the stream is null without caps. -/
structure BufferCall where
  data : List UInt8
  dataLength : UInt32
  sampleInfo : SampleInfo
  streamProperties : Option MediaProperties
deriving DecidableEq, Repr

/-- The calls out of the adapter, in order. -/
inductive BufferEvent where
  | map (buffer : Option Nat) (ok : Bool)
  | unmap (buffer : Option Nat)
  | decrypt (call : BufferCall) (result : OpenCDMError)
deriving DecidableEq, Repr

/-! ## Mapping the inputs -/

/-- Map the buffer of a value, if it holds one. -/
def mapIfThere : Option (Option GstBuffer) → Except (List BufferEvent) (Option GstBuffer × List BufferEvent)
  | none => .error []
  | some none => .ok (none, [])
  | some (some b) => if b.mappable then .ok (some b, [.map (some b.id) true]) else .error [.map (some b.id) false]

/-- Map the buffer of a value; a null buffer cannot be mapped. -/
def mapIV : Option (Option GstBuffer) → Except (List BufferEvent) (GstBuffer × List BufferEvent)
  | none => .error []
  | some none => .error [.map none false]
  | some (some b) => if b.mappable then .ok (b, [.map (some b.id) true]) else .error [.map (some b.id) false]

/-- The inputs of a frame, mapped. -/
structure BufferInputs where
  subSampleCount : UInt32
  subSample : Option GstBuffer
  IV : GstBuffer
  keyID : Option GstBuffer
  events : List BufferEvent

/-- Map subsamples, IV and key id, or report an invalid buffer. -/
def mapBufferInputs (buffer : Nat) (info : ProtectionMeta) : Except (List BufferEvent) BufferInputs :=
  let subSampleCount := info.subSampleCount.getD 0
  let e0 : List BufferEvent := [.map (some buffer) true]
  match if subSampleCount > 0 then mapIfThere info.subSamples else .ok (none, []) with
  | .error e => .error (e0 ++ e ++ [.unmap (some buffer)])
  | .ok (subSample, e1) =>
    match mapIV info.iv with
    | .error e => .error (e0 ++ e1 ++ e ++ [.unmap (some buffer), .unmap (nameOf subSample)])
    | .ok (IV, e2) =>
      match mapIfThere info.kid with
      | .error e =>
        .error (e0 ++ e1 ++ e2 ++ e ++ [.unmap (some buffer), .unmap (nameOf subSample), .unmap (some IV.id)])
      | .ok (keyID, e3) => .ok ⟨subSampleCount, subSample, IV, keyID, e0 ++ e1 ++ e2 ++ e3⟩

/-! ## Decrypting -/

/-- The `SampleInfo` of a frame; count and lengths are stored in eight bits. The table is read without looking at what
the reader answers; `heap` is what the entries hold when they are allocated. -/
def bufferSampleInfo (heap : Nat → SubSampleInfo) (info : MultiMeta) (inputs : BufferInputs) : SampleInfo where
  scheme := schemeOf info
  pattern := ⟨info.cryptByteBlock.getD 0, info.skipByteBlock.getD 0⟩
  iv := blobOf (some inputs.IV)
  keyId := blobOf inputs.keyID
  subSample := ⟨inputs.subSampleCount.toUInt8,
    inputs.subSample.map fun table => (readTable table.bytes heap inputs.subSampleCount.toNat).entries⟩

/-- `opencdm_gstreamer_session_decrypt_buffer`: its result, and the calls it makes. The caps may be null, and may not
convert to a string. -/
def decryptBuffer (heap : Nat → SubSampleInfo) (decrypt : BufferCall → OpenCDMError) (session : Bool)
    (buffer : DataBuffer) (caps : Option (Option ParsedCaps)) : OpenCDMError × List BufferEvent :=
  if session then
    if buffer.mappable then
      match buffer.info with
      | none => (errorInvalidDecryptBuffer, [.map (some buffer.id) true])
      | some info =>
        match mapBufferInputs buffer.id info.toProtectionMeta with
        | .error events => (errorInvalidDecryptBuffer, events)
        | .ok inputs =>
          let call : BufferCall := ⟨buffer.bytes, UInt32.ofNat buffer.bytes.length, bufferSampleInfo heap info inputs,
            caps.join.map fun c => ⟨c.height, c.width, c.mediaType⟩⟩
          (decrypt call, inputs.events ++ [.decrypt call (decrypt call), .unmap (some buffer.id)] ++
            (if inputs.subSample.isSome then [.unmap (nameOf inputs.subSample)] else []) ++
            [.unmap (some inputs.IV.id)] ++
            (if inputs.keyID.isSome then [.unmap (nameOf inputs.keyID)] else []))
    else (errorInvalidDecryptBuffer, [.map (some buffer.id) false])
  else (errorInvalidSession, [])

/-! ## Mappings -/

def BufferEvent.op : BufferEvent → Option (Op (Option Nat))
  | .map buffer true => some (.acquire buffer)
  | .unmap buffer => some (.release buffer)
  | _ => none

@[simp] theorem BufferEvent.op_map (buffer : Option Nat) :
    (BufferEvent.map buffer true).op = some (.acquire buffer) := rfl

@[simp] theorem BufferEvent.op_unmap (buffer : Option Nat) :
    (BufferEvent.unmap buffer).op = some (.release buffer) := rfl

/-- The values in the order they are mapped in; an IV without a buffer is as good as none. -/
def bufferValues (info : ProtectionMeta) : List (Option (Option GstBuffer)) :=
  [tableValue info, info.iv.join.map some, info.kid]

theorem mapIfThere_usable {value : Option (Option GstBuffer)} (h : usable value = true) :
    ∃ e, mapIfThere value = .ok (value.join, e) ∧ e.filterMap BufferEvent.op = mapOf value := by
  match value, h with
  | some none, _ => exact ⟨[], rfl, rfl⟩
  | some (some b), h => exact ⟨[.map (some b.id) true], if_pos h, rfl⟩

theorem mapIfThere_unusable {value : Option (Option GstBuffer)} (h : usable value = false) :
    ∃ e, mapIfThere value = .error e ∧ e.filterMap BufferEvent.op = [] := by
  match value, h with
  | none, _ => exact ⟨[], rfl, rfl⟩
  | some (some b), h => exact ⟨[.map (some b.id) false], if_neg (ne_true_of_eq_false h), rfl⟩

theorem mapIV_usable {value : Option (Option GstBuffer)} (h : usable (value.join.map some) = true) :
    ∃ IV e, value = some (some IV) ∧ mapIV value = .ok (IV, e) ∧
      e.filterMap BufferEvent.op = mapOf (value.join.map some) := by
  match value, h with
  | some (some b), h => exact ⟨b, [.map (some b.id) true], rfl, if_pos h, rfl⟩

theorem mapIV_unusable {value : Option (Option GstBuffer)} (h : usable (value.join.map some) = false) :
    ∃ e, mapIV value = .error e ∧ e.filterMap BufferEvent.op = [] := by
  match value, h with
  | none, _ => exact ⟨[], rfl, rfl⟩
  | some none, _ => exact ⟨[.map none false], rfl, rfl⟩
  | some (some b), h => exact ⟨[.map (some b.id) false], if_neg (ne_true_of_eq_false h), rfl⟩

theorem mapIfThere_table (info : ProtectionMeta) :
    (if info.subSampleCount.getD 0 > 0 then mapIfThere info.subSamples else .ok (none, [])) =
      mapIfThere (tableValue info) := by
  unfold tableValue
  split <;> rfl

/-- A value that does not go well: the values before it are unmapped, null or not. -/
theorem mapBufferInputs_unusable (buffer : Nat) {info : ProtectionMeta}
    (h : ∃ v ∈ bufferValues info, usable v = false) :
    ∃ events, mapBufferInputs buffer info = .error events ∧ events.filterMap BufferEvent.op =
      mapsOf buffer ((bufferValues info).takeWhile usable) ++
        unmapsOf buffer ((bufferValues info).takeWhile usable) := by
  unfold mapBufferInputs bufferValues
  dsimp only
  rw [mapIfThere_table]
  cases htable : usable (tableValue info) with
  | false =>
    obtain ⟨e, he, hops⟩ := mapIfThere_unusable htable
    refine ⟨_, by rw [he], ?_⟩
    simp [htable, hops, mapsOf_eq, unmapsOf, names]
  | true =>
    obtain ⟨e1, he1, hops1⟩ := mapIfThere_usable htable
    rw [he1]
    cases hiv : usable (info.iv.join.map some) with
    | false =>
      obtain ⟨e, he, hops⟩ := mapIV_unusable hiv
      refine ⟨_, by rw [he], ?_⟩
      simp [htable, hiv, hops, hops1, mapsOf_eq, unmapsOf, names]
    | true =>
      obtain ⟨IV, e2, hIV, he2, hops2⟩ := mapIV_usable hiv
      rw [he2]
      have hkid : usable info.kid = false := by
        obtain ⟨v, hv, hunusable⟩ := h
        simp only [bufferValues, List.mem_cons, List.not_mem_nil, or_false] at hv
        rcases hv with rfl | rfl | rfl
        · rw [htable] at hunusable
          cases hunusable
        · rw [hiv] at hunusable
          cases hunusable
        · exact hunusable
      obtain ⟨e, he, hops⟩ := mapIfThere_unusable hkid
      refine ⟨_, by rw [he], ?_⟩
      have hname : nameOf (info.iv.join.map some).join = some IV.id := by rw [hIV]; rfl
      simp [htable, hiv, hkid, hops, hops1, hops2, hname, mapsOf_eq, unmapsOf, names]

/-- Values that all go well: what is there is mapped. -/
theorem mapBufferInputs_usable (buffer : Nat) {info : ProtectionMeta}
    (h : ∀ v ∈ bufferValues info, usable v = true) :
    ∃ inputs, mapBufferInputs buffer info = .ok inputs ∧
      names buffer (bufferValues info) =
        [some buffer, nameOf inputs.subSample, some inputs.IV.id, nameOf inputs.keyID] ∧
      inputs.events.filterMap BufferEvent.op = mapsOf buffer (bufferValues info) := by
  obtain ⟨e1, he1, hops1⟩ := mapIfThere_usable (h (tableValue info) (by simp [bufferValues]))
  obtain ⟨IV, e2, hIV, he2, hops2⟩ := mapIV_usable (h (info.iv.join.map some) (by simp [bufferValues]))
  obtain ⟨e3, he3, hops3⟩ := mapIfThere_usable (h info.kid (by simp [bufferValues]))
  unfold mapBufferInputs
  dsimp only
  rw [mapIfThere_table, he1]
  dsimp only
  rw [he2]
  dsimp only
  rw [he3]
  refine ⟨_, rfl, ?_, ?_⟩
  · rw [bufferValues, hIV]
    rfl
  · simp [hops1, hops2, hops3, mapsOf_eq, bufferValues]

/-- With all values mapped, what is there is unmapped, whatever the decryption says. -/
theorem decryptBuffer_mapped (heap : Nat → SubSampleInfo) (decrypt : BufferCall → OpenCDMError) (buffer : DataBuffer)
    (caps : Option (Option ParsedCaps)) {info : MultiMeta} (hmappable : buffer.mappable = true)
    (hinfo : buffer.info = some info) (h : ∀ v ∈ bufferValues info.toProtectionMeta, usable v = true) :
    (decryptBuffer heap decrypt true buffer caps).2.filterMap BufferEvent.op =
      acquireAll ((names buffer.id (bufferValues info.toProtectionMeta)).filter Option.isSome)
        ((names buffer.id (bufferValues info.toProtectionMeta)).filter Option.isSome) := by
  obtain ⟨inputs, hinputs, hnames, hops⟩ := mapBufferInputs_usable buffer.id h
  have hreleases : ∀ b : Option GstBuffer,
      (if b.isSome then [BufferEvent.unmap (nameOf b)] else []).filterMap BufferEvent.op =
        ([nameOf b].filter Option.isSome).map Op.release := by
    intro b
    cases b <;> rfl
  unfold decryptBuffer acquireAll
  rw [if_pos rfl, if_pos hmappable, hinfo]
  dsimp only
  rw [hinputs]
  dsimp only
  rw [List.filterMap_append, List.filterMap_append, List.filterMap_append, List.filterMap_append, hreleases, hreleases,
    hops, mapsOf, hnames]
  have hcall : ∀ call, [BufferEvent.decrypt call (decrypt call), .unmap (some buffer.id)].filterMap BufferEvent.op =
      [.release (some buffer.id)] := fun _ => rfl
  have hIV : [BufferEvent.unmap (some inputs.IV.id)].filterMap BufferEvent.op = [.release (some inputs.IV.id)] := rfl
  rw [hcall, hIV]
  cases inputs.subSample <;> cases inputs.keyID <;> rfl

/-- Each mapping of a frame or of a buffer of its metadata is matched by one unmapping, and nothing else is unmapped,
exactly when the frame is not mapped, or has metadata and no null buffer is unmapped for it. -/
theorem gst_matched_iff (heap : Nat → SubSampleInfo) (decrypt : BufferCall → OpenCDMError) (session : Bool)
    (buffer : DataBuffer) (caps : Option (Option ParsedCaps)) :
    Matched ((decryptBuffer heap decrypt session buffer caps).2.filterMap BufferEvent.op) ↔
      (session = true → buffer.mappable = true →
        ∃ i, buffer.info = some i ∧ NoneNullBefore (bufferValues i.toProtectionMeta)) := by
  cases session with
  | false => exact iff_of_true (Pairing.matched_self []) fun h => by cases h
  | true =>
    by_cases hmappable : buffer.mappable = true
    · cases hinfo : buffer.info with
      | none =>
        have hevents : (decryptBuffer heap decrypt true buffer caps).2.filterMap BufferEvent.op =
            acquireAll [some buffer.id] [] := by
          unfold decryptBuffer
          rw [if_pos rfl, if_pos hmappable, hinfo]
          rfl
        rw [hevents]
        exact iff_of_false (not_matched_frame _) fun h => by
          obtain ⟨i, hi, -⟩ := h rfl hmappable
          cases hi
      | some info =>
        have hmapped : (∀ v ∈ bufferValues info.toProtectionMeta, usable v = true) →
            (Matched ((decryptBuffer heap decrypt true buffer caps).2.filterMap BufferEvent.op) ↔ True) := by
          intro hall
          rw [decryptBuffer_mapped heap decrypt buffer caps hmappable hinfo hall]
          exact iff_of_true (Pairing.matched_self _) trivial
        refine (matched_values_iff buffer.id (bufferValues info.toProtectionMeta) (fun hbad => ?_) hmapped).trans ?_
        · obtain ⟨events, hevents, hops⟩ := mapBufferInputs_unusable buffer.id hbad
          have hout : (decryptBuffer heap decrypt true buffer caps).2 = events := by
            unfold decryptBuffer
            rw [if_pos rfl, if_pos hmappable, hinfo]
            dsimp only
            rw [hevents]
          rw [hout, hops]
        constructor
        · rintro ⟨hnone, -⟩ - -
          exact ⟨info, rfl, hnone⟩
        · intro h
          obtain ⟨i, hi, hok⟩ := h rfl hmappable
          cases hi
          exact ⟨hok, fun _ => trivial⟩
    · have hout : (decryptBuffer heap decrypt true buffer caps).2 = [.map (some buffer.id) false] := by
        unfold decryptBuffer
        rw [if_pos rfl, if_neg hmappable]
      rw [hout]
      exact iff_of_true (Pairing.matched_self []) fun _ h => absurd h hmappable

/-! ## The three functions -/

/-- In all three functions, each mapping that succeeds is matched by one unmapping of the same buffer behind it, and
nothing else is unmapped, exactly under these conditions. For one frame, in either adapter: the frame is not mapped, or
it has metadata and no null buffer is unmapped for it. For several: each mapping gives a pointer. -/
theorem mappings_matched_iff (session : Option Session) (caps : Option (Option ParsedCaps))
    (heap : Nat → SubSampleInfo) (decrypt : BufferCall → OpenCDMError) (data : DataBuffer) (svp : Svp)
    (buffer : GstBuffer) (info : Option ProtectionMeta) (multiSvp : MultiSvp) (buffers : Option (List (Option Frame))) :
    (Matched ((decryptBuffer heap decrypt session.isSome data caps).2.filterMap BufferEvent.op) ↔
      (session.isSome = true → data.mappable = true →
        ∃ i, data.info = some i ∧ NoneNullBefore (bufferValues i.toProtectionMeta))) ∧
    (Matched ((decryptBufferOnce svp session buffer info caps.join).events.filterMap GstEvent.op) ↔
      (session.isSome = true → buffer.mappable = true → ∃ i, info = some i ∧ OnceReleases svp buffer i)) ∧
    (Matched ((decryptBufferMultiOnce multiSvp session buffers caps).events.filterMap MultiEvent.op) ↔
      (session.isSome = true → ∀ frames, entriesOf buffers = some frames →
        ∀ b ∈ mappedBuffers frames, hasPointer multiSvp.hasMemory b = true)) :=
  ⟨gst_matched_iff .., once_matched_iff .., multi_matched_iff ..⟩

/-- A frame of four bytes without metadata. -/
def bareFrame : DataBuffer := ⟨⟨0, [1, 2, 3, 4], true⟩, none⟩

/-- A frame whose buffer is empty and without memory. -/
def emptyFrame : Frame := ⟨⟨0, [], true, by decide⟩, (multiFrame 1 goodTable).info⟩

/-- The frame stays mapped in both adapters, and the empty one with several frames. -/
theorem frame_left_mapped :
    ¬ Matched ((decryptBuffer (fun _ => ⟨0, 0⟩) (fun _ => errorNone) true bareFrame none).2.filterMap BufferEvent.op) ∧
    ¬ Matched ((decryptBufferOnce plainSvp (some ⟨false, false⟩) frame none none).events.filterMap GstEvent.op) ∧
    ¬ Matched ((decryptBufferMultiOnce { plainMultiSvp with hasMemory := fun _ => false } (some ⟨false, false⟩)
      (some [some emptyFrame]) none).events.filterMap MultiEvent.op) := by
  refine ⟨fun h => ?_, fun h => ?_, fun h => ?_⟩
  · obtain ⟨i, hi, -⟩ := (gst_matched_iff _ _ _ _ _).1 h rfl rfl
    cases hi
  · obtain ⟨i, hi, -⟩ := (once_matched_iff _ _ _ _ _).1 h rfl rfl
    cases hi
  · have hpointer := (multi_matched_iff _ _ _ _).1 h rfl [emptyFrame] rfl emptyFrame.buffer
      (.tail _ (.tail _ (.head _)))
    cases hpointer

end Ocdm.Adapter
