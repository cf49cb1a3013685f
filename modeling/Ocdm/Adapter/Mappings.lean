/-
The mappings of buffers by `opencdm_gstreamer_session_decrypt_buffer_once` and by
`opencdm_gstreamer_session_decrypt_buffer_multi_once` of the RDK adapter (rdk/open_cdm_adapter.cpp). The first one maps
a frame and up to three buffers of its metadata, and unmaps them on each of its exits; some exits leave the frame
mapped, or unmap a buffer that is null (`once_matched_iff`). The second one unmaps all buffers whose mapping has given a
pointer (`multi_matched_iff`).
-/
import Ocdm.Adapter.MultiDecrypt
import Ocdm.Lib.Pairing

namespace Ocdm.Adapter

open Pairing (Op Matched acquireAll)

/-! ## Mapping and unmapping -/

/-- A mapping that succeeds acquires, an unmapping releases the buffer, which can be null. -/
def GstEvent.op : GstEvent → Option (Op (Option Nat))
  | .map buffer true => some (.acquire (some buffer))
  | .unmap buffer => some (.release buffer)
  | _ => none

@[simp] theorem GstEvent.op_map (buffer : Nat) : (GstEvent.map buffer true).op = some (.acquire (some buffer)) := rfl

@[simp] theorem GstEvent.op_unmap (buffer : Option Nat) : (GstEvent.unmap buffer).op = some (.release buffer) := rfl

def MultiEvent.op : MultiEvent → Option (Op Nat)
  | .map buffer true => some (.acquire buffer)
  | .unmap buffer => some (.release buffer)
  | _ => none

/-- The mapping of a value goes well: it is there, and holds no buffer or one that can be mapped. -/
def usable : Option (Option GstBuffer) → Bool
  | none => false
  | some none => true
  | some (some b) => b.mappable

/-- Where a value does not go well, no value mapped before it is null. -/
def NoneNullBefore (values : List (Option (Option GstBuffer))) : Prop :=
  (∃ v ∈ values, usable v = false) → ∀ v ∈ values.takeWhile usable, v.join.isSome = true

def nameOf (b : Option GstBuffer) : Option Nat := b.map GstBuffer.id

/-- A frame and the buffers of values. -/
def names (buffer : Nat) (values : List (Option (Option GstBuffer))) : List (Option Nat) :=
  some buffer :: values.map fun v => nameOf v.join

/-- Those that are there are mapped. -/
def mapsOf (buffer : Nat) (values : List (Option (Option GstBuffer))) : List (Op (Option Nat)) :=
  ((names buffer values).filter Option.isSome).map Op.acquire

/-- All are unmapped. -/
def unmapsOf (buffer : Nat) (values : List (Option (Option GstBuffer))) : List (Op (Option Nat)) :=
  (names buffer values).map Op.release

/-- The mapping of one value. -/
def mapOf (value : Option (Option GstBuffer)) : List (Op (Option Nat)) :=
  ([nameOf value.join].filter Option.isSome).map Op.acquire

theorem mapsOf_eq (buffer : Nat) (values : List (Option (Option GstBuffer))) :
    mapsOf buffer values = .acquire (some buffer) :: values.flatMap mapOf := by
  have hrest : ((values.map fun v => nameOf v.join).filter Option.isSome).map Op.acquire = values.flatMap mapOf := by
    induction values with
    | nil => rfl
    | cons v values ih => rw [List.flatMap_cons, ← ih, mapOf, ← List.map_append, ← List.filter_append]; rfl
  rw [← hrest]
  rfl

theorem matched_all_unmapped (buffer : Nat) (values : List (Option (Option GstBuffer))) :
    Matched (mapsOf buffer values ++ unmapsOf buffer values) ↔ ∀ v ∈ values, v.join.isSome = true := by
  have hall : (∀ n ∈ names buffer values, Option.isSome n = true) ↔ ∀ v ∈ values, v.join.isSome = true := by
    simp [names, nameOf]
  rw [← hall]
  exact Pairing.matched_some_acquired Option.isSome (names buffer values)

/-- A frame that stays mapped. -/
theorem not_matched_frame (buffer : Nat) : ¬ Matched (acquireAll [some buffer] []) := by
  rw [Pairing.matched_iff_perm]
  exact fun h => by cases h.length_eq

/-- A function that unmaps what it has mapped so far when a value does not go well. -/
theorem matched_values_iff {ops : List (Op (Option Nat))} (buffer : Nat) (values : List (Option (Option GstBuffer)))
    {P : Prop}
    (hunusable : (∃ v ∈ values, usable v = false) →
      ops = mapsOf buffer (values.takeWhile usable) ++ unmapsOf buffer (values.takeWhile usable))
    (husable : (∀ v ∈ values, usable v = true) → (Matched ops ↔ P)) :
    Matched ops ↔ NoneNullBefore values ∧ ((∀ v ∈ values, usable v = true) → P) := by
  by_cases hall : ∀ v ∈ values, usable v = true
  · have hnone : NoneNullBefore values := by
      rintro ⟨v, hv, hno⟩
      rw [hall v hv] at hno
      cases hno
    rw [husable hall]
    exact ⟨fun h => ⟨hnone, fun _ => h⟩, fun h => h.2 hall⟩
  · have hsome : ∃ v ∈ values, usable v = false := by
      push Not at hall
      obtain ⟨v, hv, hno⟩ := hall
      exact ⟨v, hv, eq_false_of_ne_true hno⟩
    rw [hunusable hsome, matched_all_unmapped]
    exact ⟨fun h => ⟨fun _ => h, fun hno => absurd hno hall⟩, fun h => h.1 hsome⟩

/-! ## One frame -/

theorem mapValue_usable {value : Option (Option GstBuffer)} (h : usable value = true) :
    ∃ e, mapValue value = .ok (value.join, e) ∧ e.filterMap GstEvent.op = mapOf value := by
  match value, h with
  | some none, _ => exact ⟨[], rfl, rfl⟩
  | some (some b), h => exact ⟨[.map b.id true], if_pos h, rfl⟩

theorem mapValue_unusable {value : Option (Option GstBuffer)} (h : usable value = false) :
    ∃ e, mapValue value = .error e ∧ e.filterMap GstEvent.op = [] := by
  match value, h with
  | none, _ => exact ⟨[], rfl, rfl⟩
  | some (some b), h => exact ⟨[.map b.id false], if_neg (ne_true_of_eq_false h), rfl⟩

/-- The value of the subsamples, which is looked for only when there are some. -/
def tableValue (info : ProtectionMeta) : Option (Option GstBuffer) :=
  if info.subSampleCount.getD 0 > 0 then info.subSamples else some none

/-- The values in the order they are mapped in. -/
def onceValues (info : ProtectionMeta) : List (Option (Option GstBuffer)) := [tableValue info, info.iv, info.kid]

theorem mapValue_table (info : ProtectionMeta) :
    (if info.subSampleCount.getD 0 > 0 then mapValue info.subSamples else .ok (none, [])) =
      mapValue (tableValue info) := by
  unfold tableValue
  split <;> rfl

@[simp] theorem unmapOf_op (b : Option GstBuffer) : (unmapOf b).op = some (.release (nameOf b)) := rfl

/-- Swapping the bytes of the IV leaves the buffer. -/
@[simp] theorem nameOf_swapped (initWithLast15 : UInt32) (iv : Option GstBuffer) :
    nameOf (if initWithLast15 = 1 then iv.map GstBuffer.swapped else iv) = nameOf iv := by
  split
  · cases iv <;> rfl
  · rfl

/-- A value that does not go well: the values before it are unmapped, null or not. -/
theorem mapInputs_unusable (buffer : GstBuffer) {info : ProtectionMeta} (h : ∃ v ∈ onceValues info, usable v = false) :
    ∃ r, mapInputs buffer info = .error r ∧ r.2.filterMap GstEvent.op =
      mapsOf buffer.id ((onceValues info).takeWhile usable) ++
        unmapsOf buffer.id ((onceValues info).takeWhile usable) := by
  unfold mapInputs onceValues
  dsimp only
  rw [mapValue_table]
  cases htable : usable (tableValue info) with
  | false =>
    obtain ⟨e, he, hops⟩ := mapValue_unusable htable
    refine ⟨_, by rw [he], ?_⟩
    simp [htable, hops, mapsOf_eq, unmapsOf, names]
  | true =>
    obtain ⟨e1, he1, hops1⟩ := mapValue_usable htable
    rw [he1]
    cases hiv : usable info.iv with
    | false =>
      obtain ⟨e, he, hops⟩ := mapValue_unusable hiv
      refine ⟨_, by rw [he], ?_⟩
      simp [htable, hiv, hops, hops1, mapsOf_eq, unmapsOf, names]
    | true =>
      obtain ⟨e2, he2, hops2⟩ := mapValue_usable hiv
      rw [he2]
      have hkid : usable info.kid = false := by
        obtain ⟨v, hv, hunusable⟩ := h
        simp only [onceValues, List.mem_cons, List.not_mem_nil, or_false] at hv
        rcases hv with rfl | rfl | rfl
        · rw [htable] at hunusable
          cases hunusable
        · rw [hiv] at hunusable
          cases hunusable
        · exact hunusable
      obtain ⟨e, he, hops⟩ := mapValue_unusable hkid
      refine ⟨_, by rw [he], ?_⟩
      simp [htable, hiv, hkid, hops, hops1, hops2, mapsOf_eq, unmapsOf, names]

/-- Values that all go well: what is there is mapped. -/
theorem mapInputs_usable (buffer : GstBuffer) {info : ProtectionMeta} (h : ∀ v ∈ onceValues info, usable v = true) :
    ∃ inputs, mapInputs buffer info = .ok inputs ∧ inputs.subSampleCount = info.subSampleCount.getD 0 ∧
      inputs.subSample = (tableValue info).join ∧ nameOf inputs.iv = nameOf info.iv.join ∧
      inputs.keyId = info.kid.join ∧ inputs.events.filterMap GstEvent.op = mapsOf buffer.id (onceValues info) := by
  obtain ⟨e1, he1, hops1⟩ := mapValue_usable (h (tableValue info) (by simp [onceValues]))
  obtain ⟨e2, he2, hops2⟩ := mapValue_usable (h info.iv (by simp [onceValues]))
  obtain ⟨e3, he3, hops3⟩ := mapValue_usable (h info.kid (by simp [onceValues]))
  unfold mapInputs
  dsimp only
  rw [mapValue_table, he1]
  dsimp only
  rw [he2]
  dsimp only
  rw [he3]
  refine ⟨_, rfl, rfl, rfl, nameOf_swapped .., rfl, ?_⟩
  simp [hops1, hops2, hops3, mapsOf_eq, onceValues]

/-- A map that is not built: all are unmapped, null or not. -/
theorem decryptMapped_error {svp : Svp} {buffer : GstBuffer} {inputs : Inputs} {caps : ParsedCaps} {e : OpenCDMError}
    (h : buildMap svp buffer.size inputs.subSample inputs.subSampleCount = .error e) :
    (decryptMapped svp buffer inputs caps).2.filterMap GstEvent.op =
      (some buffer.id :: [inputs.subSample, inputs.iv, inputs.keyId].map nameOf).map Op.release := by
  unfold decryptMapped
  rw [h]
  simp

theorem callDecrypt_op (svp : Svp) (caps : ParsedCaps) (call : DecryptCall) :
    (callDecrypt svp caps call).2.filterMap GstEvent.op = [] := by
  unfold callDecrypt
  dsimp only
  split
  · rfl
  · rw [List.filterMap_append]
    split <;> rfl

theorem cleanup_op (buffer : Nat) (bs : List (Option GstBuffer)) :
    (GstEvent.unmap (some buffer) :: (bs.filter Option.isSome).map unmapOf).filterMap GstEvent.op =
      ((some buffer :: bs.map nameOf).filter Option.isSome).map Op.release := by
  have hsome : (Option.isSome ∘ nameOf) = (Option.isSome : Option GstBuffer → Bool) :=
    funext fun b => Option.isSome_map ..
  rw [List.filterMap_cons_some (GstEvent.op_unmap _), List.filterMap_map, List.filter_cons_of_pos rfl, List.map_cons,
    List.filter_map, hsome, List.map_map]
  exact congrArg _ (congrFun List.filterMap_eq_map' _)

/-- A map that is built: what is there is unmapped, whatever the decryption says. -/
theorem decryptMapped_ok {svp : Svp} {buffer : GstBuffer} {inputs : Inputs} {caps : ParsedCaps}
    {r : Option (List Exchange.SubSampleInfo) × UInt32 × UInt32}
    (h : buildMap svp buffer.size inputs.subSample inputs.subSampleCount = .ok r) :
    (decryptMapped svp buffer inputs caps).2.filterMap GstEvent.op =
      ((some buffer.id :: [inputs.subSample, inputs.iv, inputs.keyId].map nameOf).filter Option.isSome).map
        Op.release := by
  unfold decryptMapped
  rw [h, ← cleanup_op]
  dsimp only
  split
  · rw [List.filterMap_append, List.filterMap_append, callDecrypt_op]
    split <;> rfl
  · rfl

/-- The exits of the function behind the protection metadata that unmap more than is mapped are not taken. -/
structure OnceReleases (svp : Svp) (buffer : GstBuffer) (info : ProtectionMeta) : Prop where
  values : NoneNullBefore (onceValues info)
  map : (∀ v ∈ onceValues info, usable v = true) →
    ∀ e, buildMap svp buffer.size (tableValue info).join (info.subSampleCount.getD 0) = .error e →
      info.iv.join.isSome = true ∧ info.kid.join.isSome = true

theorem updateDecryptToHost_op (svp : Svp) (session : Session) (caps : ParsedCaps) :
    (updateDecryptToHost svp session caps).2.filterMap GstEvent.op = [] := by
  unfold updateDecryptToHost
  split
  · dsimp only
    split <;> rfl
  · rfl

/-- With all values mapped, only a map that is not built can unmap a null buffer. -/
theorem once_mapped_iff (svp : Svp) (session : Session) (buffer : GstBuffer) (info : ProtectionMeta)
    (caps : Option ParsedCaps) (hmappable : buffer.mappable = true) (h : ∀ v ∈ onceValues info, usable v = true) :
    Matched ((decryptBufferOnce svp (some session) buffer (some info) caps).events.filterMap GstEvent.op) ↔
      ∀ e, buildMap svp buffer.size (tableValue info).join (info.subSampleCount.getD 0) = .error e →
        info.iv.join.isSome = true ∧ info.kid.join.isSome = true := by
  obtain ⟨inputs, hinputs, hcount, htable, hiv, hkid, hops⟩ := mapInputs_usable buffer h
  have hnames : some buffer.id :: [inputs.subSample, inputs.iv, inputs.keyId].map nameOf =
      names buffer.id (onceValues info) := by
    simp [htable, hiv, hkid, names, onceValues]
  have hbuild : buildMap svp buffer.size (tableValue info).join (info.subSampleCount.getD 0) =
      buildMap svp buffer.size inputs.subSample inputs.subSampleCount := by rw [htable, hcount]
  rw [hbuild]
  unfold decryptBufferOnce
  dsimp only
  rw [if_pos hmappable, hinputs]
  dsimp only
  split
  · -- nothing but the frame is mapped
    rename_i hnull
    simp only [Bool.and_eq_true, Option.isNone_iff_eq_none] at hnull
    obtain ⟨⟨hsub, hivNone⟩, hkidNone⟩ := hnull
    rw [hsub]
    refine iff_of_true ?_ fun e he => by cases he
    rw [List.filterMap_append, List.filterMap_append, hops, updateDecryptToHost_op, List.append_nil, mapsOf, ← hnames,
      hsub, hivNone, hkidNone]
    exact Pairing.matched_self [some buffer.id]
  · rw [List.filterMap_append, List.filterMap_append, hops, updateDecryptToHost_op, List.append_nil]
    cases hmap : buildMap svp buffer.size inputs.subSample inputs.subSampleCount with
    | error e =>
      have hsub : inputs.subSample.isSome = true := by
        cases hsub : inputs.subSample with
        | none =>
          rw [hsub] at hmap
          cases hmap
        | some table => rfl
      rw [decryptMapped_error hmap, hnames]
      refine (matched_all_unmapped ..).trans ?_
      rw [htable] at hsub
      simp [onceValues, hsub]
    | ok r =>
      rw [decryptMapped_ok hmap, hnames]
      exact iff_of_true (Pairing.matched_self _) fun e he => by cases he

/-- Each mapping of a frame or of a buffer of its metadata is matched by one unmapping, and nothing else is unmapped,
exactly when the frame is not mapped, or has metadata and no null buffer is unmapped for it. -/
theorem once_matched_iff (svp : Svp) (session : Option Session) (buffer : GstBuffer) (info : Option ProtectionMeta)
    (caps : Option ParsedCaps) :
    Matched ((decryptBufferOnce svp session buffer info caps).events.filterMap GstEvent.op) ↔
      (session.isSome = true → buffer.mappable = true → ∃ i, info = some i ∧ OnceReleases svp buffer i) := by
  cases session with
  | none => exact iff_of_true (Pairing.matched_self []) fun h => by cases h
  | some session =>
    by_cases hmappable : buffer.mappable = true
    · cases info with
      | none =>
        have hevents : (decryptBufferOnce svp (some session) buffer none caps).events.filterMap GstEvent.op =
            acquireAll [some buffer.id] [] := by
          unfold decryptBufferOnce
          dsimp only
          rw [if_pos hmappable]
          rfl
        rw [hevents]
        exact iff_of_false (not_matched_frame _) fun h => by
          obtain ⟨i, hi, -⟩ := h rfl hmappable
          cases hi
      | some info =>
        refine (matched_values_iff buffer.id (onceValues info) (fun hbad => ?_)
          (once_mapped_iff svp session buffer info caps hmappable)).trans ?_
        · obtain ⟨r, hr, hops⟩ := mapInputs_unusable buffer hbad
          have hevents : (decryptBufferOnce svp (some session) buffer (some info) caps).events = r.2 := by
            unfold decryptBufferOnce
            dsimp only
            rw [if_pos hmappable, hr]
          rw [hevents, hops]
        constructor
        · rintro ⟨hnone, hmap⟩ - -
          exact ⟨info, rfl, hnone, hmap⟩
        · intro h
          obtain ⟨i, hi, hok⟩ := h rfl hmappable
          cases hi
          exact ⟨hok.values, hok.map⟩
    · have hevents : (decryptBufferOnce svp (some session) buffer info caps).events = [.map buffer.id false] := by
        unfold decryptBufferOnce
        dsimp only
        rw [if_neg hmappable]
      rw [hevents]
      exact iff_of_true (Pairing.matched_self []) fun _ h => absurd h hmappable

/-! ## Several frames -/

/-- The buffers of a frame in the order they are mapped in. A frame without metadata is not mapped, nor is one with too
many subsamples. -/
def multiBuffers (f : Frame) : List (Option GstBuffer) :=
  match f.info with
  | none => []
  | some protection =>
    if protection.subSampleCount.getD 0 > 255 then []
    else (if protection.subSampleCount.getD 0 > 0 then [tableBuffer protection.toProtectionMeta] else []) ++
      [protection.iv.join, some f.buffer, protection.kid.join]

/-- The buffers up to the first that is null or cannot be mapped. -/
def mappedUpTo : List (Option GstBuffer) → List GstBuffer
  | some b :: bs => if b.mappable then b :: mappedUpTo bs else []
  | _ => []

def mappedIn (f : Frame) : List GstBuffer := mappedUpTo (multiBuffers f)

/-- Those of all frames, up to the frame whose metadata cannot be read. -/
def mappedBuffers : List Frame → List GstBuffer
  | [] => []
  | f :: frames => mappedIn f ++ if (extractFrame f).1 = errorNone then mappedBuffers frames else []

section

variable (hasMemory : GstBuffer → Bool)

/-- The mapping of a buffer gives a pointer. -/
def hasPointer (b : GstBuffer) : Bool := decide (b.bytes ≠ []) || hasMemory b

/-- Those that can be mapped, and whose mapping gives a pointer. -/
def pointersOf : List (Option GstBuffer) → List GstBuffer
  | [] => []
  | none :: bs => pointersOf bs
  | some b :: bs => if b.mappable && hasPointer hasMemory b then b :: pointersOf bs else pointersOf bs

/-- The buffers of an entry that are unmapped. -/
def unmappedIn (info : ProtectionMetaInfo) : List GstBuffer :=
  pointersOf hasMemory [info.dataBuf, info.ivGstBuf, info.keyIdGstBuf, info.subSamplesGstBuf]

theorem unmapEntry_op (info : ProtectionMetaInfo) : (unmapEntry hasMemory info).filterMap MultiEvent.op =
    ((unmappedIn hasMemory info).map GstBuffer.id).map Op.release := by
  unfold unmapEntry unmappedIn
  generalize [info.dataBuf, info.ivGstBuf, info.keyIdGstBuf, info.subSamplesGstBuf] = bs
  induction bs with
  | nil => rfl
  | cons b bs ih =>
    cases b with
    | none => exact ih
    | some b =>
      have hmapped : (mapped hasMemory (some b)).isSome = (b.mappable && hasPointer hasMemory b) := by
        cases hmappable : b.mappable <;> simp [mapped, hasPointer, hmappable]
        split <;> simp_all
      rw [pointersOf]
      cases hpointer : b.mappable && hasPointer hasMemory b with
      | false => rw [List.filter_cons_of_neg (by rw [hmapped, hpointer]; decide)]; exact ih
      | true =>
        rw [List.filter_cons_of_pos (by rw [hmapped, hpointer])]
        exact congrArg _ ih

end

@[simp] theorem mappedUpTo_nil : mappedUpTo [] = [] := rfl

@[simp] theorem mappedUpTo_none : mappedUpTo [none] = [] := rfl

@[simp] theorem pointersOf_nil (hasMemory : GstBuffer → Bool) : pointersOf hasMemory [] = [] := rfl

theorem mapEvent_op (b : Option GstBuffer) :
    (mapEvent b).filterMap MultiEvent.op = ((mappedUpTo [b]).map GstBuffer.id).map Op.acquire := by
  cases b with
  | none => rfl
  | some b => cases hmappable : b.mappable <;> simp [mapEvent, mappedUpTo, hmappable, MultiEvent.op]

theorem mappedUpTo_cons {b : Option GstBuffer} (h : canMap b = true) (bs : List (Option GstBuffer)) :
    mappedUpTo (b :: bs) = mappedUpTo [b] ++ mappedUpTo bs := by
  cases b with
  | none => cases h
  | some b =>
    have hmappable : b.mappable = true := h
    rw [mappedUpTo, if_pos hmappable, mappedUpTo, if_pos hmappable]
    rfl

theorem mappedUpTo_unmappable {b : Option GstBuffer} (h : canMap b = false) (bs : List (Option GstBuffer)) :
    mappedUpTo (b :: bs) = [] := by
  cases b with
  | none => rfl
  | some b => exact if_neg (ne_true_of_eq_false h)

theorem pointersOf_cons (hasMemory : GstBuffer → Bool) (b : Option GstBuffer) (bs : List (Option GstBuffer)) :
    pointersOf hasMemory (b :: bs) = (mappedUpTo [b]).filter (hasPointer hasMemory) ++ pointersOf hasMemory bs := by
  cases b with
  | none => rfl
  | some b =>
    rw [pointersOf, mappedUpTo]
    cases b.mappable <;> cases hpointer : hasPointer hasMemory b <;> simp [mappedUpTo, hpointer]

/-- The table of a frame, if there is one. -/
def tableList (info : ProtectionMeta) : List (Option GstBuffer) :=
  if info.subSampleCount.getD 0 > 0 then [tableBuffer info] else []

/-- The table is mapped with what is behind it, unless it is looked for and cannot be. -/
theorem mappedUpTo_table {info : ProtectionMeta}
    (h : ¬ (info.subSampleCount.getD 0 > 0 ∧ canMap (tableBuffer info) = false)) (bs : List (Option GstBuffer)) :
    mappedUpTo (tableList info ++ bs) = mappedUpTo [tableBuffer info] ++ mappedUpTo bs := by
  unfold tableList
  by_cases hcount : info.subSampleCount.getD 0 > 0
  · rw [if_pos hcount]
    exact mappedUpTo_cons (eq_true_of_ne_false fun hno => h ⟨hcount, hno⟩) bs
  · have hnone : tableBuffer info = none := if_neg hcount
    rw [if_neg hcount, hnone]
    rfl

/-- The table is mapped first, and unmapped last; the frame is unmapped first. -/
theorem perm_moved {α : Type} (data iv table kid : List α) :
    (data ++ (iv ++ (kid ++ table))).Perm (table ++ (iv ++ (data ++ kid))) := by
  classical
  refine List.perm_iff_count.2 fun a => ?_
  simp only [List.count_append]
  omega

/-- What is mapped for a frame, and what its entry unmaps. -/
theorem extractProtectionMeta_op (hasMemory : GstBuffer → Bool) (buffer : GstBuffer) (protection : MultiMeta) :
    (extractProtectionMeta buffer protection).2.2.filterMap MultiEvent.op =
      ((mappedIn ⟨buffer, some protection⟩).map GstBuffer.id).map Op.acquire ∧
    (unmappedIn hasMemory (extractProtectionMeta buffer protection).2.1).Perm
      ((mappedIn ⟨buffer, some protection⟩).filter (hasPointer hasMemory)) := by
  unfold extractProtectionMeta mappedIn multiBuffers unmappedIn
  dsimp only
  by_cases hmany : protection.subSampleCount.getD 0 > 255
  · rw [if_pos hmany, if_pos hmany]
    exact ⟨rfl, .refl _⟩
  rw [if_neg hmany, if_neg hmany]
  by_cases htable : protection.subSampleCount.getD 0 > 0 ∧ canMap (tableBuffer protection.toProtectionMeta) = false
  · rw [if_pos htable, if_pos htable.1, List.singleton_append, mappedUpTo_unmappable htable.2]
    simp [mapEvent_op, pointersOf_cons, mappedUpTo_unmappable htable.2]
  rw [if_neg htable]
  have hall := mappedUpTo_table htable [protection.iv.join, some buffer, protection.kid.join]
  rw [tableList] at hall
  rw [hall]
  cases hiv : canMap protection.iv.join with
  | false =>
    rw [mappedUpTo_unmappable hiv]
    simp [mapEvent_op, pointersOf_cons, mappedUpTo_unmappable hiv]
  | true =>
    rw [mappedUpTo_cons hiv]
    cases hdata : canMap (some buffer) with
    | false =>
      rw [mappedUpTo_unmappable hdata]
      have hmappable : buffer.mappable = false := hdata
      simp [mapEvent_op, pointersOf_cons, hmappable, MultiEvent.op, List.perm_append_comm]
    | true =>
      rw [mappedUpTo_cons hdata]
      have hmappable : buffer.mappable = true := hdata
      have hone : mappedUpTo [some buffer] = [buffer] := if_pos hmappable
      cases hkid : canMap protection.kid.join with
      | false =>
        constructor
        · simp [mapEvent_op, hmappable, hone, MultiEvent.op, mappedUpTo_unmappable hkid]
        · have hperm := perm_moved ([buffer].filter (hasPointer hasMemory))
            ((mappedUpTo [protection.iv.join]).filter (hasPointer hasMemory))
            ((mappedUpTo [tableBuffer protection.toProtectionMeta]).filter (hasPointer hasMemory)) []
          simpa [pointersOf_cons, hmappable, hone, mappedUpTo_unmappable hkid] using hperm
      | true =>
        constructor
        · simp [mapEvent_op, hmappable, hone, MultiEvent.op]
        · simp only [hmappable, pointersOf_cons, List.filter_append, List.append_assoc]
          simpa using perm_moved ..

theorem extractFrame_op (hasMemory : GstBuffer → Bool) (f : Frame) :
    (extractFrame f).2.2.filterMap MultiEvent.op = ((mappedIn f).map GstBuffer.id).map Op.acquire ∧
    (unmappedIn hasMemory (extractFrame f).2.1).Perm ((mappedIn f).filter (hasPointer hasMemory)) := by
  obtain ⟨buffer, info⟩ := f
  cases info with
  | none => exact ⟨rfl, .refl _⟩
  | some protection => exact extractProtectionMeta_op hasMemory buffer protection

/-- What is mapped for the frames, and what their entries unmap. -/
theorem extractMulti_op (hasMemory : GstBuffer → Bool) (frames : List Frame) :
    (extractProtectionMetaMulti frames).2.2.filterMap MultiEvent.op =
      ((mappedBuffers frames).map GstBuffer.id).map Op.acquire ∧
    ((extractProtectionMetaMulti frames).2.1.flatMap (unmappedIn hasMemory)).Perm
      ((mappedBuffers frames).filter (hasPointer hasMemory)) := by
  induction frames with
  | nil => exact ⟨rfl, .refl _⟩
  | cons f frames ih =>
    obtain ⟨hmaps, hunmaps⟩ := extractFrame_op hasMemory f
    rw [extractProtectionMetaMulti, mappedBuffers]
    dsimp only
    split
    · rw [List.filterMap_append, hmaps, ih.1, List.map_append, List.map_append, List.flatMap_cons, List.filter_append]
      exact ⟨rfl, hunmaps.append ih.2⟩
    · have hfresh : (frames.map fun _ => ({} : ProtectionMetaInfo)).flatMap (unmappedIn hasMemory) = [] := by
        simp [unmappedIn, pointersOf]
      rw [List.append_nil, List.flatMap_cons, hfresh, List.append_nil]
      exact ⟨hmaps, hunmaps⟩

theorem cleanupMulti_op (hasMemory : GstBuffer → Bool) (infos : List ProtectionMetaInfo) :
    (infos.flatMap (unmapEntry hasMemory)).filterMap MultiEvent.op =
      ((infos.flatMap (unmappedIn hasMemory)).map GstBuffer.id).map Op.release := by
  rw [List.filterMap_flatMap, List.map_flatMap, List.map_flatMap]
  exact List.flatMap_congr fun info _ => unmapEntry_op hasMemory info

/-- Nothing else maps or unmaps. -/
theorem updateDecryptToHostMulti_op (svp : MultiSvp) (session : Session) (isSecureMemoryDisabled : Bool) :
    (updateDecryptToHostMulti svp session isSecureMemoryDisabled).2.filterMap MultiEvent.op = [] := by
  unfold updateDecryptToHostMulti
  split
  · dsimp only
    split <;> rfl
  · rfl

theorem decryptPrepared_op (svp : MultiSvp) (p : Prepared) (stream : Exchange.MediaProperties)
    (isSecureMemoryDisabled : Bool) :
    (decryptPrepared svp p stream isSecureMemoryDisabled).2.filterMap MultiEvent.op = [] := by
  have hcall : ∀ call, (callDecryptV3 svp isSecureMemoryDisabled call).2.filterMap MultiEvent.op = [] := by
    intro call
    unfold callDecryptV3
    dsimp only
    split
    · rfl
    · rw [List.filterMap_append]
      split <;> rfl
  unfold decryptPrepared
  dsimp only
  split
  · split
    · rw [List.filterMap_append, hcall]
      rfl
    · exact hcall _
  · rfl

theorem transformClear_op (buffers : List GstBuffer) (infos : List ProtectionMetaInfo)
    (mediaType : Exchange.MediaType) : (transformClear buffers infos mediaType).filterMap MultiEvent.op = [] := by
  unfold transformClear
  rw [List.filterMap_map]
  exact List.filterMap_eq_nil_iff.2 fun _ _ => rfl

/-- The call maps what the metadata is read from, and unmaps what its entries hold. -/
theorem multi_op (svp : MultiSvp) (session : Session) (buffers : Option (List (Option Frame)))
    (caps : Option (Option ParsedCaps)) {frames : List Frame} (hframes : entriesOf buffers = some frames) :
    (decryptBufferMultiOnce svp (some session) buffers caps).events.filterMap MultiEvent.op =
      acquireAll ((mappedBuffers frames).map GstBuffer.id)
        (((extractProtectionMetaMulti frames).2.1.flatMap (unmappedIn svp.hasMemory)).map GstBuffer.id) := by
  have hmaps := (extractMulti_op svp.hasMemory frames).1
  have hcleanup := cleanupMulti_op svp.hasMemory (extractProtectionMetaMulti frames).2.1
  unfold decryptBufferMultiOnce acquireAll
  rw [hframes, ← hmaps, ← hcleanup]
  dsimp only
  split
  · split
    · simp only [List.filterMap_append, updateDecryptToHostMulti_op, List.append_nil]
    · simp only [List.filterMap_append, updateDecryptToHostMulti_op, List.append_nil]
      split <;> split <;> simp only [decryptPrepared_op, transformClear_op, List.filterMap_nil, List.append_nil]
  · exact List.filterMap_append ..

/-- Each mapping is matched by one unmapping, and nothing else is unmapped, exactly when each mapping gives a
pointer. -/
theorem multi_matched_iff (svp : MultiSvp) (session : Option Session) (buffers : Option (List (Option Frame)))
    (caps : Option (Option ParsedCaps)) :
    Matched ((decryptBufferMultiOnce svp session buffers caps).events.filterMap MultiEvent.op) ↔
      (session.isSome = true → ∀ frames, entriesOf buffers = some frames →
        ∀ b ∈ mappedBuffers frames, hasPointer svp.hasMemory b = true) := by
  cases session with
  | none => exact iff_of_true (Pairing.matched_self []) fun h => by cases h
  | some session =>
    cases hframes : entriesOf buffers with
    | none =>
      have hevents : (decryptBufferMultiOnce svp (some session) buffers caps).events = [] := by
        unfold decryptBufferMultiOnce
        rw [hframes]
      rw [hevents]
      exact iff_of_true (Pairing.matched_self []) fun _ frames h => by cases h
    | some frames =>
      rw [multi_op svp session buffers caps hframes,
        Pairing.matched_some_released GstBuffer.id (hasPointer svp.hasMemory) (extractMulti_op svp.hasMemory frames).2]
      constructor
      · intro h _ frames' hframes'
        cases hframes'
        exact h
      · intro h
        exact h rfl frames rfl

end Ocdm.Adapter
