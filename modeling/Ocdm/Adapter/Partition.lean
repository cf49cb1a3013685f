/-
Which buffers `opencdm_gstreamer_session_decrypt_buffer_multi_once` (open_cdm_adapter.cpp) transforms. The flag
`encrypted` of a buffer is set at the end of the loop that prepares the samples, and read when the buffers are copied
and when the others are transformed. On success every buffer is in the list that is appended or is transformed as
clear data, and on a failure before the decryption none is (`handled_once`).
-/
import Ocdm.Adapter.MultiDecrypt

namespace Ocdm.Adapter

open Exchange (MediaProperties MediaType)

/-- A call that transforms buffers. -/
def MultiEvent.transforms : MultiEvent → Bool
  | .appendTransform .. => true
  | .transformFromClear .. => true
  | _ => false

/-- The transforms among the calls, in order. -/
def transformsOf (events : List MultiEvent) : List MultiEvent := events.filter MultiEvent.transforms

/-- The samples are prepared, there is something to decrypt, and memory for it. -/
def ComesToDecrypt (svp : MultiSvp) (frames : List Frame) : Prop :=
  (extractProtectionMetaMulti frames).1 = errorNone ∧ svp.dataBlockSize > 0 ∧
    ∃ p, ((frames.map Frame.buffer).zip (extractProtectionMetaMulti frames).2.1).foldlM
      (prepareSample svp.hasMemory) {} = .ok p ∧ p.totalBytesToDecrypt > 0

/-- On success the buffers `sent` are in the list that is appended, in the order of the array, and each of the others
is transformed as clear data. A failure before the decryption transforms none, and one behind it is that the list
could not be appended. -/
structure HandledOnce (svp : MultiSvp) (frames : List Frame) (o : MultiOutcome) : Prop where
  success : o.result = errorNone → ∃ (sent : Frame → Bool) (size : UInt32) (mediaType : MediaType),
    transformsOf o.events =
      (if (frames.filter sent).isEmpty then []
        else [.appendTransform ((frames.filter sent).map fun f => f.buffer.id) size true]) ++
      (frames.filter fun f => !sent f).map fun f => .transformFromClear f.buffer.id mediaType
  early : o.result ≠ errorNone → ¬ ComesToDecrypt svp frames → transformsOf o.events = []
  failure : o.result ≠ errorNone → ∀ e ∈ transformsOf o.events, ∃ buffers size, e = .appendTransform buffers size false

/-! ## Calls that transform nothing -/

theorem transformsOf_append (xs ys : List MultiEvent) :
    transformsOf (xs ++ ys) = transformsOf xs ++ transformsOf ys := List.filter_append ..

theorem transformsOf_prepares {events : List MultiEvent} (h : OnlyPreparesMulti events) : transformsOf events = [] := by
  refine List.filter_eq_nil_iff.2 fun e he => ?_
  have hprepares := h e he
  cases e <;> simp [MultiEvent.transforms, MultiEvent.prepares] at hprepares ⊢

theorem transformsOf_callDecryptV3 (svp : MultiSvp) (disabled : Bool) (call : DecryptV3Call) :
    transformsOf (callDecryptV3 svp disabled call).2 = [] := by
  unfold callDecryptV3
  dsimp only
  split
  · rfl
  · split <;> rfl

/-! ## What the parts transform -/

/-- The buffers to decrypt are appended when the decryption has succeeded. -/
theorem decryptPrepared_transforms (svp : MultiSvp) (p : Prepared) (stream : MediaProperties) (disabled : Bool) :
    ((decryptPrepared svp p stream disabled).1 = errorNone → transformsOf (decryptPrepared svp p stream disabled).2 =
      [.appendTransform (p.buffToDecrypt.map GstBuffer.id) p.totalBytesToDecrypt true]) ∧
    ((decryptPrepared svp p stream disabled).1 ≠ errorNone →
      transformsOf (decryptPrepared svp p stream disabled).2 = [] ∨
      svp.dataBlockSize > 0 ∧ transformsOf (decryptPrepared svp p stream disabled).2 =
        [.appendTransform (p.buffToDecrypt.map GstBuffer.id) p.totalBytesToDecrypt false]) := by
  unfold decryptPrepared
  split
  · rename_i hsize
    dsimp only
    have hcall := transformsOf_callDecryptV3 svp disabled
      ⟨copyEncrypted p.infos, p.totalBytesToDecrypt, svp.dataBlockSize, p.samples, stream⟩
    split
    · dsimp only
      rw [transformsOf_append, hcall]
      cases svp.arrayAppendTransform with
      | true => exact ⟨fun _ => rfl, fun h => absurd rfl h⟩
      | false => exact ⟨fun h => absurd h (by decide), fun _ => .inr ⟨hsize, rfl⟩⟩
    · rename_i hfailed
      exact ⟨fun h => absurd h hfailed, fun _ => .inl hcall⟩
  · exact ⟨fun h => absurd h (by decide), fun _ => .inl rfl⟩

/-- The buffers without anything to decrypt are transformed one by one. -/
theorem transformsOf_clear (hasMemory : GstBuffer → Bool) (frames : List Frame) (mediaType : MediaType) :
    transformsOf (transformClear (frames.map Frame.buffer) (frames.map (doneEntry hasMemory)) mediaType) =
      (frames.filter fun f => !f.encrypted hasMemory).map fun f => .transformFromClear f.buffer.id mediaType := by
  unfold transformClear
  rw [List.zip_map', List.filter_map, List.map_map]
  refine (List.filter_eq_self.2 fun e he => ?_).trans rfl
  obtain ⟨f, -, rfl⟩ := List.mem_map.1 he
  rfl

/-- Nothing is to be decrypted exactly when no buffer is. -/
theorem PreparedFor.nothing_iff {hasMemory : GstBuffer → Bool} {frames : List Frame} {p : Prepared}
    (hp : PreparedFor hasMemory frames p) (htotal : (frames.map fun f => f.buffer.bytes.length).sum < 4294967296) :
    ¬ p.totalBytesToDecrypt > 0 ↔ (frames.filter (Frame.encrypted hasMemory)).isEmpty = true := by
  have hsent : ((frames.filter (Frame.encrypted hasMemory)).map fun f => f.buffer.bytes.length).sum < 4294967296 :=
    lt_of_le_of_lt (List.Sublist.sum_le_sum (List.filter_sublist.map _) (by simp)) htotal
  rw [gt_iff_lt, UInt32.lt_iff_toNat_lt, hp.size, Nat.mod_eq_of_lt hsent, UInt32.toNat_zero, not_lt, Nat.le_zero,
    List.isEmpty_iff]
  constructor
  · intro hzero
    refine List.eq_nil_iff_forall_not_mem.2 fun f hf => ?_
    have hlength : f.buffer.bytes.length = 0 := by
      have hle := List.single_le_sum (fun _ _ => Nat.zero_le _) _
        (List.mem_map_of_mem (f := fun f : Frame => f.buffer.bytes.length) hf)
      omega
    have henc := (List.mem_filter.1 hf).2
    -- only a buffer with data is decrypted
    unfold Frame.encrypted at henc
    rw [List.length_eq_zero_iff.1 hlength] at henc
    simp at henc
  · intro hnil
    rw [hnil]
    rfl

/-! ## A run -/

theorem entriesOf_frames {frames : List Frame} (h : frames ≠ []) :
    entriesOf (some (frames.map some)) = some frames := by
  unfold entriesOf
  rw [Option.bind_some, if_neg (by simpa using h)]
  clear h
  induction frames with
  | nil => rfl
  | cons f frames ih => rw [List.map_cons, List.mapM_cons, ih]; rfl

theorem handledOnce_failed {svp : MultiSvp} {frames : List Frame} {o : MultiOutcome} (hresult : o.result ≠ errorNone)
    (hevents : OnlyPreparesMulti o.events) : HandledOnce svp frames o := by
  have hnone := transformsOf_prepares hevents
  exact ⟨fun h => absurd h hresult, fun _ _ => hnone, fun _ e he => by rw [hnone] at he; cases he⟩

/-- The buffers to decrypt are appended, if there are any. -/
theorem prepared_transforms {svp : MultiSvp} {frames : List Frame} {p : Prepared} {stream : MediaProperties}
    {disabled : Bool} (hp : PreparedFor svp.hasMemory frames p)
    (htotal : (frames.map fun f => f.buffer.bytes.length).sum < 4294967296)
    (hcomes : p.totalBytesToDecrypt > 0 → svp.dataBlockSize > 0 → ComesToDecrypt svp frames)
    {r : OpenCDMError × List MultiEvent}
    (hr : r = if p.totalBytesToDecrypt > 0 then decryptPrepared svp p stream disabled else (errorNone, [])) :
    (r.1 = errorNone → transformsOf r.2 = if (frames.filter (Frame.encrypted svp.hasMemory)).isEmpty then []
      else [.appendTransform ((frames.filter (Frame.encrypted svp.hasMemory)).map fun f => f.buffer.id)
        p.totalBytesToDecrypt true]) ∧
    (r.1 ≠ errorNone → (¬ ComesToDecrypt svp frames → transformsOf r.2 = []) ∧
      ∀ e ∈ transformsOf r.2, ∃ buffers size, e = .appendTransform buffers size false) := by
  obtain ⟨hok, hfailed⟩ := decryptPrepared_transforms svp p stream disabled
  have hnothing := hp.nothing_iff htotal
  by_cases hpos : p.totalBytesToDecrypt > 0
  · have hids : p.buffToDecrypt.map GstBuffer.id =
        (frames.filter (Frame.encrypted svp.hasMemory)).map fun f => f.buffer.id := by
      rw [hp.buffers, List.map_map]
      rfl
    rw [if_pos hpos] at hr
    subst hr
    constructor
    · intro hresult
      rw [hok hresult, if_neg fun hsome => hnothing.2 hsome hpos, hids]
    · intro hresult
      rcases hfailed hresult with hnone | ⟨hsize, hone⟩
      · rw [hnone]
        exact ⟨fun _ => rfl, fun e he => by cases he⟩
      · rw [hone]
        exact ⟨fun hnot => absurd (hcomes hpos hsize) hnot, fun e he => ⟨_, _, List.mem_singleton.1 he⟩⟩
  · rw [if_neg hpos] at hr
    subst hr
    exact ⟨fun _ => (if_pos (hnothing.1 hpos)).symm, fun hresult => absurd rfl hresult⟩

/-- Behind the buffers that are appended, the others are transformed. -/
theorem handledOnce_prepared {svp : MultiSvp} {frames : List Frame} {p : Prepared} {stream : MediaProperties}
    {disabled : Bool} {mediaType : MediaType} {session : Option Session} {before cleanup : List MultiEvent}
    (hp : PreparedFor svp.hasMemory frames p) (htotal : (frames.map fun f => f.buffer.bytes.length).sum < 4294967296)
    (hcomes : p.totalBytesToDecrypt > 0 → svp.dataBlockSize > 0 → ComesToDecrypt svp frames)
    (hbefore : OnlyPreparesMulti before) (hcleanup : OnlyPreparesMulti cleanup) {r : OpenCDMError × List MultiEvent}
    (hr : r = if p.totalBytesToDecrypt > 0 then decryptPrepared svp p stream disabled else (errorNone, [])) :
    HandledOnce svp frames ⟨r.1, before ++ r.2 ++
      (if r.1 = errorNone then transformClear (frames.map Frame.buffer) p.infos mediaType else []) ++ cleanup,
      session⟩ := by
  obtain ⟨hsuccess, hfailure⟩ := prepared_transforms hp htotal hcomes hr
  have hevents : ∀ clear,
      transformsOf (before ++ r.2 ++ clear ++ cleanup) = transformsOf r.2 ++ transformsOf clear := by
    intro clear
    rw [transformsOf_append, transformsOf_append, transformsOf_append, transformsOf_prepares hbefore,
      transformsOf_prepares hcleanup, List.nil_append, List.append_nil]
  have hfailed : r.1 ≠ errorNone → transformsOf (before ++ r.2 ++
      (if r.1 = errorNone then transformClear (frames.map Frame.buffer) p.infos mediaType else []) ++ cleanup) =
      transformsOf r.2 := by
    intro hresult
    rw [hevents, if_neg hresult]
    exact List.append_nil _
  refine ⟨fun hresult => ⟨Frame.encrypted svp.hasMemory, p.totalBytesToDecrypt, mediaType, ?_⟩,
    fun hresult hnot => ?_, fun hresult => ?_⟩
  · dsimp only at hresult ⊢
    rw [hevents, if_pos hresult, hp.infos, transformsOf_clear, hsuccess hresult]
  · exact (hfailed hresult).trans ((hfailure hresult).1 hnot)
  · dsimp only
    rw [hfailed hresult]
    exact (hfailure hresult).2

/-- For every array of buffers of less than 2^32 bytes, and whatever the calls inside answer. -/
theorem handled_once (svp : MultiSvp) (session : Option Session) (frames : List Frame)
    (caps : Option (Option ParsedCaps)) (htotal : (frames.map fun f => f.buffer.bytes.length).sum < 4294967296) :
    HandledOnce svp frames (decryptBufferMultiOnce svp session (some (frames.map some)) caps) := by
  have hunmap := fun infos => (unmapEntries_maps svp.hasMemory infos).prepares
  have hmaps := (extractMulti_maps frames).prepares
  have hinvalid : ∀ session, HandledOnce svp frames ⟨errorInvalidSession, [], session⟩ := fun session =>
    handledOnce_failed (show errorInvalidSession ≠ errorNone by decide) fun e he => by cases he
  cases session with
  | none => exact hinvalid none
  | some session =>
    by_cases hempty : frames = []
    · subst hempty
      exact hinvalid (some session)
    have hupdate := updateDecryptToHostMulti_prepares svp session (mediaInfoMulti caps).2.1
    unfold decryptBufferMultiOnce
    rw [entriesOf_frames hempty]
    dsimp only
    split
    · rename_i hok
      obtain ⟨hinfos, hread⟩ := extractMulti_ok hok
      split
      · rename_i hprep
        obtain rfl := prepare_error hprep
        exact handledOnce_failed (show errorInvalidDecryptBuffer ≠ errorNone by decide)
          (onlyPreparesMulti_append (onlyPreparesMulti_append hmaps hupdate) (hunmap _))
      · rename_i p hprep
        have hcomes : p.totalBytesToDecrypt > 0 → svp.dataBlockSize > 0 → ComesToDecrypt svp frames :=
          fun hpos hsize => ⟨hok, hsize, p, hprep, hpos⟩
        rw [hinfos, List.zip_map'] at hprep
        have hp : PreparedFor _ ([] ++ frames) p := prepare_ok hread ⟨rfl, rfl, rfl, .nil, fun _ => rfl⟩ hprep
        exact handledOnce_prepared hp htotal hcomes (onlyPreparesMulti_append hmaps hupdate) (hunmap _) rfl
    · rename_i hfailed
      exact handledOnce_failed hfailed (onlyPreparesMulti_append hmaps (hunmap _))

/-- A clear buffer before an encrypted one. -/
theorem handled_once_mixed : HandledOnce plainMultiSvp [clearFrame, multiFrame 1 goodTable]
    (decryptBufferMultiOnce plainMultiSvp (some ⟨false, false⟩)
      (some ([clearFrame, multiFrame 1 goodTable].map some)) none) :=
  handled_once plainMultiSvp (some ⟨false, false⟩) [clearFrame, multiFrame 1 goodTable] none (by decide)

end Ocdm.Adapter
