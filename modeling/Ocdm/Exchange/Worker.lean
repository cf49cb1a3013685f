/-
The server's `DataExchange::Worker` (FrameworkRPC.cpp) for key systems other than com.apple.fps: what
one pass reads from the block, the calls it makes to the CDM, and what it leaves in the block. Only
the buffer, its size and the status change (`workerPass_frame`).
-/
import Ocdm.Exchange.Block

namespace Ocdm.Exchange

/-- `CDMi::SampleInfo` as the worker fills it. -/
structure SampleParams where
  scheme : UInt8
  pattern : EncryptionPattern
  iv : Blob
  keyId : Blob
  subSample : SubSampleMap
deriving DecidableEq, Repr

/-- The parameters a pass reads, by the branch it takes. -/
inductive Params where
  | decrypt (sample : SampleParams) (properties : MediaProperties)
  | decryptMulti (samples : List SampleParams) (properties : MediaProperties)
  | notImplemented
deriving DecidableEq, Repr

/-- `Samples(samples, count)`: each sample with the scheme, pattern and key id of the block. -/
def samplesOf (b : Block) (count : UInt16) : List SampleParams :=
  (List.range count.toNat).map fun i =>
    ⟨b.encScheme, b.encPattern, (b.samples i).iv, b.keyId, (b.samples i).subSample⟩

/-- What the worker reads; `batch` says whether the CDM session has the batch interface. -/
def workerParams (batch : Bool) (b : Block) : Params :=
  if b.sampleLength > 0 then
    if batch then .decryptMulti (samplesOf b b.sampleLength) b.mediaProperties else .notImplemented
  else .decrypt ⟨b.encScheme, b.encPattern, b.iv, b.keyId, b.subSample⟩ b.mediaProperties

/-- What the CDM makes of a call: its result, the buffer it was given, and the clear content, `none`
when that is in the buffer itself. -/
structure Answer where
  cr : UInt32
  buffer : List UInt8
  clearContentSize : UInt32
  clearContent : Option (List UInt8)
deriving DecidableEq, Repr

/-- A CDM session, called with the parameters, the buffer and `BytesWritten`. -/
abbrev Cdm := Params → List UInt8 → UInt32 → Answer

/-- `CDMi_METHOD_NOT_IMPLEMENTED` -/
def methodNotImplemented : UInt32 := 0x80000006

/-- The calls of the worker to the CDM session. -/
inductive CdmCall where
  | decrypt
  | decryptMulti
  | releaseClearContent
deriving DecidableEq, Repr

/-- The block when the call has returned, with its result and what it gave back. -/
def workerCall (batch : Bool) (cdm : Cdm) (b : Block) : Answer × List CdmCall :=
  match workerParams batch b with
  | .decrypt sample properties => (cdm (.decrypt sample properties) b.buffer b.bytesWritten, [.decrypt])
  | .decryptMulti samples properties =>
    (cdm (.decryptMulti samples properties) b.buffer b.bytesWritten, [.decryptMulti])
  | .notImplemented => (⟨methodNotImplemented, b.buffer, 0, none⟩, [])

/-- `Size(clearContentSize)` when the clear content has another size than what was written. -/
def adjustSize (b : Block) (clearContentSize : UInt32) : Block :=
  if clearContentSize ≠ b.bytesWritten then b.setSize clearContentSize else b

/-- One pass of the worker over a block it was handed: the block it hands back and the calls made. -/
def workerPass (batch : Bool) (cdm : Cdm) (b : Block) : Block × List CdmCall :=
  let (answer, calls) := workerCall batch cdm b
  let b := { b with buffer := answer.buffer }
  if answer.cr = 0 ∧ answer.clearContentSize ≠ 0 then
    let b := adjustSize b answer.clearContentSize
    match answer.clearContent with
    | some clearContent =>
      ((b.setBuffer answer.clearContentSize clearContent).setStatus answer.cr, calls ++ [.releaseClearContent])
    | none => (b.setStatus answer.cr, calls)
  else (b.setStatus answer.cr, calls)

theorem adjustSize_eq (b : Block) (clearContentSize : UInt32) :
    ∃ size, adjustSize b clearContentSize = { b with size := size } := by
  unfold adjustSize
  split <;> exact ⟨_, rfl⟩

/-- A pass changes the buffer, its size and the status, and nothing else. -/
theorem workerPass_frame (batch : Bool) (cdm : Cdm) (b : Block) :
    ∃ buffer size, (workerPass batch cdm b).1 =
      { b with buffer := buffer, size := size, status := (workerCall batch cdm b).1.cr } := by
  unfold workerPass
  generalize workerCall batch cdm b = r
  obtain ⟨⟨cr, buffer, clearContentSize, clearContent⟩, calls⟩ := r
  obtain ⟨size, hsize⟩ := adjustSize_eq { b with buffer := buffer } clearContentSize
  dsimp only
  rw [hsize]
  split
  · cases clearContent with
    | none => exact ⟨_, _, rfl⟩
    | some clearContent => exact ⟨_, _, rfl⟩
  · exact ⟨_, _, rfl⟩

/-- The calls a pass of the worker can make: the clear content is handed back only after the call that
gave it. -/
def passCalls : List (List CdmCall) :=
  [[], [.decrypt], [.decrypt, .releaseClearContent], [.decryptMulti], [.decryptMulti, .releaseClearContent]]

/-- A request without a call to the CDM has failed. -/
theorem workerCall_calls (batch : Bool) (cdm : Cdm) (b : Block) :
    (workerCall batch cdm b).2 = [.decrypt] ∨ (workerCall batch cdm b).2 = [.decryptMulti] ∨
    (workerCall batch cdm b).2 = [] ∧ (workerCall batch cdm b).1.cr ≠ 0 := by
  unfold workerCall
  split
  · exact .inl rfl
  · exact .inr (.inl rfl)
  · exact .inr (.inr ⟨rfl, show methodNotImplemented ≠ 0 by decide⟩)

theorem workerPass_calls (batch : Bool) (cdm : Cdm) (b : Block) : (workerPass batch cdm b).2 ∈ passCalls := by
  have hcall := workerCall_calls batch cdm b
  unfold workerPass
  generalize workerCall batch cdm b = r at hcall
  obtain ⟨⟨cr, buffer, clearContentSize, clearContent⟩, calls⟩ := r
  dsimp only at hcall ⊢
  split
  · rename_i hok
    cases clearContent with
    | none => rcases hcall with rfl | rfl | ⟨rfl, -⟩ <;> simp [passCalls]
    | some clearContent =>
      rcases hcall with rfl | rfl | ⟨rfl, hcr⟩
      · simp [passCalls]
      · simp [passCalls]
      · exact absurd hok.1 hcr
  · rcases hcall with rfl | rfl | ⟨rfl, -⟩ <;> simp [passCalls]

end Ocdm.Exchange
