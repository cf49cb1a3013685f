/-
The worker's loop for com.apple.fps (FrameworkRPC.cpp, `DataExchange::Worker`): the parameters it
reads, the memory it allocates for the clear data and the one call it makes. A request of
`Decrypt_fps` sets every parameter the loop reads, but a plain `Decrypt` on such a session sets none
of them and is decrypted with those of the last `Decrypt_fps` (`fpsParams_after`). Only audio is
handed back (`decryptFps_result`). The content type is tested three times, before the memory is
allocated, copied from and freed, and the three tests agree over a session's life (`fpsRun_memory`).
-/
import Ocdm.Exchange.Client
import Ocdm.Exchange.Worker
import Ocdm.Lib.Effects
import Mathlib.Data.List.Induction

namespace Ocdm.Exchange

/-- The content type of video decrypted into secure memory. -/
def fpsSvpVideo : UInt32 := 0x80000007
/-- The content type of audio. -/
def fpsAudio : UInt32 := 0xA

/-! ## A pass of the worker -/

/-- What the CDM's FPS `Decrypt` is called with. `svpOut` is the handle `decryptedmem` points to for
SVP video; it is `none` when `decryptedmem` is allocated memory, all zero. -/
structure FpsParams where
  movieId : UInt64
  cryptorId : UInt64
  contentType : UInt32
  payload : List UInt8
  dataSize : UInt32
  sliceInfoArray : Option (List FpsSliceInfo)
  sliceInfoArrayCount : UInt32
  svpOut : Option UInt32
deriving DecidableEq, Repr

/-- What the CDM makes of a call: its result, the payload and the memory as it leaves them. -/
structure FpsAnswer (dataSize : UInt32) where
  cr : UInt32
  payload : List UInt8
  memory : List UInt8
  memory_length : memory.length = dataSize.toNat

abbrev FpsCdm := (p : FpsParams) → FpsAnswer p.dataSize

/-- What `decryptedmem` points to: the handle on the worker's stack, or allocated memory by its address. -/
inductive FpsPointer where
  | handle
  | heap (memory : Nat)
deriving DecidableEq, Repr

/-- What the loop does besides the block. -/
inductive FpsEvent where
  | calloc (memory : Nat) (size : UInt32)
  | decrypt (p : FpsParams) (decryptedmem : FpsPointer)
  | setBuffer (decryptedmem : FpsPointer) (length : UInt32)
  | free (decryptedmem : FpsPointer)
deriving DecidableEq, Repr

/-- The parameters a pass reads. -/
def fpsParams (b : Block) : FpsParams where
  movieId := b.fps.movieId
  cryptorId := b.fps.cryptorId
  contentType := b.fps.contentType
  payload := b.buffer
  dataSize := b.bytesWritten
  sliceInfoArray := b.fps.sliceInfoArray
  sliceInfoArrayCount := b.fps.sliceInfoArrayCount
  svpOut := if b.fps.contentType = fpsSvpVideo then some b.fps.svpOut else none

/-- `decryptedmem`, and what is done to get it; `memory` is what `calloc` returns. -/
def fpsMemory (contentType encryptedDataSize : UInt32) (memory : Option Nat) : Option FpsPointer × List FpsEvent :=
  if contentType = fpsSvpVideo then (some .handle, [])
  else
    match memory with
    | some memory => (some (.heap memory), [.calloc memory encryptedDataSize])
    | none => (none, [])

/-- The clear data goes into the shared buffer. -/
def FpsCopies (contentType cr : UInt32) : Prop := cr = 0 ∧ contentType = fpsAudio

instance (contentType cr : UInt32) : Decidable (FpsCopies contentType cr) := inferInstanceAs (Decidable (_ ∧ _))

/-- The call and what follows it. -/
def fpsCall (cdm : FpsCdm) (decryptedmem : FpsPointer) (b : Block) : List FpsEvent :=
  let contentType := b.fps.contentType
  [.decrypt (fpsParams b) decryptedmem] ++
    (if FpsCopies contentType (cdm (fpsParams b)).cr then [.setBuffer decryptedmem b.bytesWritten] else []) ++
    if contentType ≠ fpsSvpVideo then [.free decryptedmem] else []

/-- The block when the call has returned. -/
def fpsAnswered (cdm : FpsCdm) (b : Block) : Block :=
  let answer := cdm (fpsParams b)
  let b := { b with buffer := answer.payload }
  let b := if FpsCopies b.fps.contentType answer.cr then b.setBuffer b.bytesWritten answer.memory else b
  b.setStatus answer.cr

/-- One pass over a block the worker was handed. -/
def fpsPass (memory : Option Nat) (cdm : FpsCdm) (b : Block) : Block × List FpsEvent :=
  match fpsMemory b.fps.contentType b.bytesWritten memory with
  | (some decryptedmem, allocated) => (fpsAnswered cdm b, allocated ++ fpsCall cdm decryptedmem b)
  -- `static_cast<uint32_t>(-1)`, and the CDM is not called
  | (none, allocated) => (b.setStatus 0xFFFFFFFF, allocated)

theorem fpsAnswered_frame (cdm : FpsCdm) (b : Block) :
    ∃ buffer, fpsAnswered cdm b = { b with buffer := buffer, status := (cdm (fpsParams b)).cr } := by
  unfold fpsAnswered
  dsimp only
  split
  · exact ⟨_, rfl⟩
  · exact ⟨_, rfl⟩

/-- The request reaches the CDM: it is SVP video, or there is memory for the clear data. -/
def Served (contentType : UInt32) (memory : Option Nat) : Prop := contentType = fpsSvpVideo ∨ memory ≠ none

instance (contentType : UInt32) (memory : Option Nat) : Decidable (Served contentType memory) :=
  inferInstanceAs (Decidable (_ ∨ _))

theorem fpsPass_block (memory : Option Nat) (cdm : FpsCdm) (b : Block) : (fpsPass memory cdm b).1 =
    if Served b.fps.contentType memory then fpsAnswered cdm b else b.setStatus 0xFFFFFFFF := by
  unfold fpsPass fpsMemory
  by_cases hsvp : b.fps.contentType = fpsSvpVideo
  · rw [if_pos hsvp, if_pos (.inl hsvp)]
  · rw [if_neg hsvp]
    cases memory with
    | none => rw [if_neg (show ¬ Served b.fps.contentType none from not_or.2 ⟨hsvp, not_not.2 rfl⟩)]
    | some memory => rw [if_pos (show Served b.fps.contentType (some memory) from .inr nofun)]

/-- A pass changes the buffer and the status, and nothing else. -/
theorem fpsPass_frame (memory : Option Nat) (cdm : FpsCdm) (b : Block) :
    ∃ buffer status, (fpsPass memory cdm b).1 = { b with buffer := buffer, status := status } := by
  rw [fpsPass_block]
  split
  · obtain ⟨buffer, h⟩ := fpsAnswered_frame cdm b
    exact ⟨buffer, _, h⟩
  · exact ⟨b.buffer, _, rfl⟩

/-- The call an event makes to the CDM session. -/
def FpsEvent.call? : FpsEvent → Option CdmCall
  | .decrypt _ _ => some .decrypt
  | _ => none

theorem fpsPass_calls (memory : Option Nat) (cdm : FpsCdm) (b : Block) :
    (fpsPass memory cdm b).2.filterMap FpsEvent.call? ∈ passCalls := by
  have hcall : ∀ decryptedmem, (fpsCall cdm decryptedmem b).filterMap FpsEvent.call? = [.decrypt] := fun _ => by
    unfold fpsCall
    dsimp only
    split <;> split <;> rfl
  unfold fpsPass fpsMemory
  split
  · rename_i decryptedmem allocated hmemory
    have hallocated : allocated.filterMap FpsEvent.call? = [] := by
      split at hmemory
      · cases hmemory; rfl
      · cases memory <;> cases hmemory; rfl
    rw [List.filterMap_append, hallocated, hcall]
    simp [passCalls]
  · rename_i allocated hmemory
    split at hmemory
    · cases hmemory
    · cases memory <;> cases hmemory
      simp [passCalls]

/-! ## Sessions -/

/-- An operation on an FPS session, what its two calls of `RequestProduce` return, and what the pass of
the worker meets. -/
structure FpsTurn where
  op : Op
  first : UInt32
  second : UInt32
  memory : Option Nat
  cdm : FpsCdm

def FpsTurn.outcome (t : FpsTurn) : Outcome := ⟨t.first, t.second, fun b => (fpsPass t.memory t.cdm b).1⟩

/-- The block after an operation, and what the worker did for it. -/
def FpsTurn.step (b : Block) (t : FpsTurn) : Block × List FpsEvent :=
  ((t.op.perform t.outcome b).block,
    if t.first = errorNone then (fpsPass t.memory t.cdm (t.op.fill b)).2 else [])

/-- A sequence of operations. -/
abbrev fpsRun (b : Block) (turns : List FpsTurn) : Block × List FpsEvent := Effects.run FpsTurn.step b turns

/-! ## The parameters -/

/-- What `Decrypt_fps` sets besides the data. -/
structure FpsRequest where
  movieId : UInt64
  cryptorId : UInt64
  contentType : UInt32
  sliceInfoArray : Option (List FpsSliceInfo)
  sliceInfoArrayCount : UInt32
  svpOut : UInt32
deriving DecidableEq, Repr

/-- The parameters of the call for a request and some data. -/
def FpsRequest.params (q : FpsRequest) (data : List UInt8) (length : UInt32) : FpsParams where
  movieId := q.movieId
  cryptorId := q.cryptorId
  contentType := q.contentType
  payload := data.take length.toNat
  dataSize := length
  sliceInfoArray := q.sliceInfoArray
  sliceInfoArrayCount := q.sliceInfoArrayCount
  svpOut := if q.contentType = fpsSvpVideo then some q.svpOut else none

/-- What an operation sets for the FPS loop; a plain `Decrypt` or `DecryptMulti` sets nothing. -/
def Op.fpsRequest : Op → Option FpsRequest
  | .request _ => none
  | .decryptFps movieID cryptorID contentType _ _ slices count svpout =>
    some ⟨movieID, cryptorID, contentType, slices, count, svpout⟩

/-- What is in the block for the FPS loop. -/
def Block.fpsRequest (b : Block) : FpsRequest :=
  ⟨b.fps.movieId, b.fps.cryptorId, b.fps.contentType, b.fps.sliceInfoArray, b.fps.sliceInfoArrayCount, b.fps.svpOut⟩

/-- The last request among some operations, or the one that was there before them. -/
def lastFps (q : FpsRequest) (ops : List Op) : FpsRequest := (ops.filterMap Op.fpsRequest).getLastD q

/-- The operations of a run that handed the block over. -/
def delivered (turns : List FpsTurn) : List Op :=
  (turns.filter fun t => decide (t.first = errorNone)).map FpsTurn.op

/-- The fields the loop reads are those of a request. The handle is read for SVP video alone. -/
structure Holds (b : Block) (q : FpsRequest) : Prop where
  movieId : b.fps.movieId = q.movieId
  cryptorId : b.fps.cryptorId = q.cryptorId
  contentType : b.fps.contentType = q.contentType
  slices : b.fps.sliceInfoArray = q.sliceInfoArray
  count : b.fps.sliceInfoArrayCount = q.sliceInfoArrayCount
  svpOut : q.contentType = fpsSvpVideo → b.fps.svpOut = q.svpOut

theorem Holds.of_fps_eq {b b' : Block} {q : FpsRequest} (h : Holds b q) (he : b'.fps = b.fps) : Holds b' q :=
  ⟨he ▸ h.movieId, he ▸ h.cryptorId, he ▸ h.contentType, he ▸ h.slices, he ▸ h.count, fun hc => he ▸ h.svpOut hc⟩

@[simp] theorem fillProperties_fps (b : Block) (properties : Option MediaProperties) :
    (fillProperties b properties).fps = b.fps := by
  cases properties <;> rfl

theorem fillSamples_fps (sampleInfo : Nat → SampleInfo) (count : Nat) (b : Block) :
    (fillSamples sampleInfo count b).fps = b.fps := by
  induction count with
  | zero => rfl
  | succ idx ih => exact ih

theorem Request.fill_fps (r : Request) (b : Block) : (r.fill b).fps = b.fps := by
  cases r with
  | decrypt data length sampleInfo initWithLast15 properties => cases properties <;> rfl
  | decryptMulti data length sampleInfo sampleInfoLength properties =>
    show (fillDecryptMulti data length sampleInfo sampleInfoLength properties b).fps = b.fps
    unfold fillDecryptMulti
    dsimp only [Block.write]
    rw [fillProperties_fps]
    cases sampleInfo with
    | none => rfl
    | some sampleInfo =>
      dsimp only
      split
      · rw [fillSamples_fps]; rfl
      · rfl

theorem Op.finish_fps (op : Op) (b : Block) : (op.finish b).fps = b.fps := by
  cases op with
  | request r => cases r <;> rfl
  | decryptFps => rfl

/-- The setters of `Decrypt_fps` touch the handle for SVP video alone. -/
theorem fillDecryptFps_fps (movieID cryptorID : UInt64) (contentType : UInt32) (data : List UInt8) (length : UInt32)
    (slices : Option (List FpsSliceInfo)) (count svpout : UInt32) (b : Block) :
    (fillDecryptFps movieID cryptorID contentType data length slices count svpout b).fps =
      ⟨cryptorID, movieID, contentType, count, slices, if contentType = fpsSvpVideo then svpout else b.fps.svpOut⟩ := by
  show (if contentType = fpsSvpVideo then _ else _) = _
  by_cases hc : contentType = fpsSvpVideo
  · rw [if_pos hc, if_pos hc]
  · rw [if_neg hc, if_neg hc]

theorem Op.fill_holds (op : Op) {b : Block} {q : FpsRequest} (h : Holds b q) :
    Holds (op.fill b) (op.fpsRequest.getD q) := by
  cases op with
  | request r => exact h.of_fps_eq (r.fill_fps b)
  | decryptFps movieID cryptorID contentType data length slices count svpout =>
    have hfps := fillDecryptFps_fps movieID cryptorID contentType data length slices count svpout b
    refine ⟨?_, ?_, ?_, ?_, ?_, fun hc => ?_⟩
    · exact congrArg FpsFields.movieId hfps
    · exact congrArg FpsFields.cryptorId hfps
    · exact congrArg FpsFields.contentType hfps
    · exact congrArg FpsFields.sliceInfoArray hfps
    · exact congrArg FpsFields.sliceInfoArrayCount hfps
    · exact (congrArg FpsFields.svpOut hfps).trans (if_pos hc)

theorem lastFps_concat (q : FpsRequest) (ops : List Op) (op : Op) :
    lastFps q (ops ++ [op]) = op.fpsRequest.getD (lastFps q ops) := by
  unfold lastFps
  rw [List.filterMap_append]
  cases h : op.fpsRequest with
  | none => simp [h]
  | some q' => simp [h]

theorem FpsTurn.step_holds {b : Block} {q : FpsRequest} (h : Holds b q) (t : FpsTurn) :
    Holds (t.step b).1 (if t.first = errorNone then t.op.fpsRequest.getD q else q) := by
  show Holds (t.op.perform t.outcome b).block _
  rw [t.op.perform_block]
  by_cases hfirst : t.first = errorNone
  · rw [if_pos hfirst, if_pos (show t.outcome.first = errorNone from hfirst)]
    obtain ⟨buffer, status, hpass⟩ := fpsPass_frame t.memory t.cdm (t.op.fill b)
    refine (t.op.fill_holds h).of_fps_eq ?_
    rw [t.op.finish_fps]
    show (fpsPass t.memory t.cdm (t.op.fill b)).1.fps = _
    rw [hpass]
  · rw [if_neg hfirst, if_neg (show ¬ t.outcome.first = errorNone from hfirst)]
    exact h

theorem delivered_concat (turns : List FpsTurn) (t : FpsTurn) :
    delivered (turns ++ [t]) = if t.first = errorNone then delivered turns ++ [t.op] else delivered turns := by
  unfold delivered
  rw [List.filter_append, List.map_append]
  by_cases hfirst : t.first = errorNone
  · simp [hfirst]
  · simp [hfirst]

/-- After a run the block holds the last request it delivered. -/
theorem fpsRun_holds {b : Block} {q : FpsRequest} (h : Holds b q) (turns : List FpsTurn) :
    Holds (fpsRun b turns).1 (lastFps q (delivered turns)) := by
  induction turns using List.reverseRecOn with
  | nil => exact h
  | append_singleton turns t ih =>
    have hstep := t.step_holds ih
    rw [fpsRun, Effects.run_concat, delivered_concat]
    by_cases hfirst : t.first = errorNone
    · rw [if_pos hfirst] at hstep ⊢
      rw [lastFps_concat]
      exact hstep
    · rw [if_neg hfirst] at hstep ⊢
      exact hstep

/-- What the CDM of an FPS session is called with for an operation, whatever was done on the session
before: the operation's own data, and the parameters of the last `Decrypt_fps` that was delivered,
itself included. -/
theorem fpsParams_after (b : Block) (turns : List FpsTurn) (op : Op) :
    fpsParams (op.fill (fpsRun b turns).1) =
      (lastFps b.fpsRequest (delivered turns ++ [op])).params op.payload.1 op.payload.2 := by
  have hrun := fpsRun_holds (b := b) (q := b.fpsRequest) ⟨rfl, rfl, rfl, rfl, rfl, fun _ => rfl⟩ turns
  have h := op.fill_holds hrun
  rw [← lastFps_concat] at h
  obtain ⟨hbuffer, hwritten⟩ := op.fill_payload (fpsRun b turns).1
  unfold fpsParams FpsRequest.params
  rw [h.movieId, h.cryptorId, h.contentType, h.slices, h.count, hbuffer, hwritten]
  congr 1
  by_cases hc : (lastFps b.fpsRequest (delivered turns ++ [op])).contentType = fpsSvpVideo
  · rw [if_pos hc, if_pos hc, h.svpOut hc]
  · rw [if_neg hc, if_neg hc]

/-- A plain request behind an audio request is decrypted with the parameters of the audio. -/
example : fpsParams ((Op.request (.decrypt [1, 2] 2 none 0 none)).fill
    (fpsRun Block.zero [⟨.decryptFps 7 9 0xA [0] 1 none 0 0, 0, 0, some 0x1000, fun p => ⟨0, p.payload,
      List.replicate p.dataSize.toNat 0, List.length_replicate⟩⟩]).1) = ⟨7, 9, 0xA, [1, 2], 2, none, 0, none⟩ := by
  decide

/-! ## The results -/

theorem fpsParams_fill (q : FpsRequest) (data : List UInt8) (length : UInt32) (b : Block) :
    fpsParams ((Op.decryptFps q.movieId q.cryptorId q.contentType data length q.sliceInfoArray q.sliceInfoArrayCount
      q.svpOut).fill b) = q.params data length := by
  have h := fpsParams_after b [] (.decryptFps q.movieId q.cryptorId q.contentType data length q.sliceInfoArray
    q.sliceInfoArrayCount q.svpOut)
  exact h

/-- What `Read` gives of a buffer in which the clear data was set. -/
theorem read_setBuffer (b : Block) {length : UInt32} {memory : List UInt8} (h : memory.length = length.toNat) :
    (b.setBuffer length memory).read length = memory := by
  show (memory.take length.toNat ++ b.buffer.drop length.toNat).take length.toNat = memory
  rw [← h, List.take_length, List.take_left]

/-- What a served request leaves: the clear data for audio, otherwise the payload. -/
theorem fpsAnswered_read (cdm : FpsCdm) (b : Block) : (fpsAnswered cdm b).read b.bytesWritten =
    if FpsCopies b.fps.contentType (cdm (fpsParams b)).cr then (cdm (fpsParams b)).memory
    else (cdm (fpsParams b)).payload.take b.bytesWritten.toNat := by
  unfold fpsAnswered
  dsimp only
  split
  · exact read_setBuffer { b with buffer := (cdm (fpsParams b)).payload } (cdm (fpsParams b)).memory_length
  · rfl

/-- What the caller of `Decrypt_fps` gets, whatever is in the block. When both calls of `RequestProduce`
succeed that is the CDM's result, or -1 when the memory for the clear data cannot be allocated, and bytes
for audio alone: the clear data when the CDM succeeds, and otherwise the payload as the CDM left it. When
one of them fails it is 0, and no bytes. -/
theorem decryptFps_result (q : FpsRequest) (data : List UInt8) (length : UInt32) (memory : Option Nat) (cdm : FpsCdm)
    (first second : UInt32) (b : Block) :
    ((Op.decryptFps q.movieId q.cryptorId q.contentType data length q.sliceInfoArray q.sliceInfoArrayCount
        q.svpOut).perform ⟨first, second, fun b => (fpsPass memory cdm b).1⟩ b).result =
      let answer := cdm (q.params data length)
      if first = errorNone ∧ second = errorNone then
        if Served q.contentType memory then
          ⟨answer.cr, if q.contentType = fpsAudio then
            some (if answer.cr = 0 then answer.memory else answer.payload.take length.toNat) else none⟩
        else ⟨0xFFFFFFFF, if q.contentType = fpsAudio then some (data.take length.toNat) else none⟩
      else ⟨0, none⟩ := by
  rw [Op.perform_result]
  refine if_congr Iff.rfl ?_ rfl
  dsimp only
  rw [fpsPass_block]
  set op := Op.decryptFps q.movieId q.cryptorId q.contentType data length q.sliceInfoArray q.sliceInfoArrayCount
    q.svpOut
  have hparams : fpsParams (op.fill b) = q.params data length := fpsParams_fill q data length b
  have htype : (op.fill b).fps.contentType = q.contentType := congrArg FpsParams.contentType hparams
  have hreads : op.reads = if q.contentType = fpsAudio then some length else none := rfl
  have hstatus : (fpsAnswered cdm (op.fill b)).status = (cdm (q.params data length)).cr := by
    obtain ⟨buffer, h⟩ := fpsAnswered_frame cdm (op.fill b)
    rw [h, hparams]
  have hread := fpsAnswered_read cdm (op.fill b)
  rw [hparams, htype] at hread
  rw [htype, hreads]
  by_cases haudio : q.contentType = fpsAudio
  · rw [if_pos haudio, if_pos haudio, if_pos haudio]
    by_cases hserved : Served q.contentType memory
    · rw [if_pos hserved, if_pos hserved, hstatus, Option.map_some]
      refine congrArg (Result.mk _ ∘ some) (hread.trans ?_)
      by_cases hcr : (cdm (q.params data length)).cr = 0
      · rw [if_pos (show FpsCopies _ _ from ⟨hcr, haudio⟩), if_pos hcr]
      · rw [if_neg fun h => hcr h.1, if_neg hcr]; rfl
    · rw [if_neg hserved, if_neg hserved]
      refine congrArg (Result.mk 0xFFFFFFFF ∘ some) ?_
      exact (List.take_take ..).trans (congrArg (data.take ·) (Nat.min_self _))
  · rw [if_neg haudio, if_neg haudio, if_neg haudio]
    by_cases hserved : Served q.contentType memory
    · rw [if_pos hserved, if_pos hserved, hstatus]; rfl
    · rw [if_neg hserved, if_neg hserved]; rfl

/-! ## The memory -/

/-- The allocated memory: each address with its size. -/
abbrev Heap := List (Nat × UInt32)

/-- How many bytes there are behind a pointer; none behind memory that is not allocated. -/
def FpsPointer.size (blocks : Heap) : FpsPointer → Option UInt32
  | .handle => some 4
  | .heap memory => blocks.lookup memory

/-- The bytes up to `length` are there. -/
def FpsPointer.holds (blocks : Heap) (pointer : FpsPointer) (length : UInt32) : Bool :=
  (pointer.size blocks).any fun size => length ≤ size

/-- How much the CDM writes behind `decryptedmem`: for SVP video that is the handle. -/
def FpsParams.clearSize (p : FpsParams) : UInt32 := if p.contentType = fpsSvpVideo then 4 else p.dataSize

/-- The memory after an event, if that is allowed: `calloc` gives memory that is not in use, nothing but allocated
memory is freed, and what is behind the pointer is there as far as it is written or read. -/
def FpsEvent.perform (blocks : Heap) : FpsEvent → Option Heap
  | .calloc memory size => if (blocks.lookup memory).isNone then some ((memory, size) :: blocks) else none
  | .decrypt p decryptedmem => if decryptedmem.holds blocks p.clearSize then some blocks else none
  | .setBuffer decryptedmem length => if decryptedmem.holds blocks length then some blocks else none
  | .free (.heap memory) =>
    if (blocks.lookup memory).isSome then some (blocks.filter fun block => block.1 != memory) else none
  | .free .handle => none

/-- A pass over an SVP video uses the handle alone. -/
theorem fpsCall_handle (cdm : FpsCdm) {b : Block} (hsvp : b.fps.contentType = fpsSvpVideo) :
    (fpsCall cdm .handle b).foldlM FpsEvent.perform [] = some [] := by
  have hcopies : ¬ FpsCopies b.fps.contentType (cdm (fpsParams b)).cr := fun h =>
    absurd (hsvp.symm.trans h.2) (by decide)
  have hsize : (fpsParams b).clearSize = 4 := if_pos hsvp
  unfold fpsCall
  dsimp only
  rw [if_neg hcopies, if_neg (not_not.2 hsvp)]
  have hdecrypt : FpsEvent.perform [] (.decrypt (fpsParams b) .handle) = some [] := by
    show (if FpsPointer.holds [] .handle (fpsParams b).clearSize then _ else _) = _
    rw [hsize, if_pos (by decide)]
  simp [hdecrypt]

/-- Any other pass uses the memory that it has allocated, and frees it. -/
theorem fpsCall_heap (cdm : FpsCdm) {b : Block} (hsvp : b.fps.contentType ≠ fpsSvpVideo) (memory : Nat) :
    (fpsCall cdm (.heap memory) b).foldlM FpsEvent.perform [(memory, b.bytesWritten)] = some [] := by
  have hsize : (fpsParams b).clearSize = b.bytesWritten := if_neg hsvp
  have hholds : FpsPointer.holds [(memory, b.bytesWritten)] (.heap memory) b.bytesWritten = true := by
    simp [FpsPointer.holds, FpsPointer.size]
  have hdecrypt : FpsEvent.perform [(memory, b.bytesWritten)] (.decrypt (fpsParams b) (.heap memory)) =
      some [(memory, b.bytesWritten)] := by
    show (if FpsPointer.holds _ _ (fpsParams b).clearSize then _ else _) = _
    rw [hsize, if_pos hholds]
  have hfree : FpsEvent.perform [(memory, b.bytesWritten)] (.free (.heap memory)) = some [] := by
    simp [FpsEvent.perform]
  unfold fpsCall
  dsimp only
  rw [if_pos hsvp]
  by_cases hcopies : FpsCopies b.fps.contentType (cdm (fpsParams b)).cr
  · have hset : FpsEvent.perform [(memory, b.bytesWritten)] (.setBuffer (.heap memory) b.bytesWritten) =
        some [(memory, b.bytesWritten)] := if_pos hholds
    rw [if_pos hcopies]
    simp [hdecrypt, hset, hfree]
  · rw [if_neg hcopies]
    simp [hdecrypt, hfree]

/-- A pass leaves nothing allocated. -/
theorem fpsPass_memory (memory : Option Nat) (cdm : FpsCdm) (b : Block) :
    (fpsPass memory cdm b).2.foldlM FpsEvent.perform [] = some [] := by
  unfold fpsPass fpsMemory
  by_cases hsvp : b.fps.contentType = fpsSvpVideo
  · rw [if_pos hsvp]
    exact fpsCall_handle cdm hsvp
  · rw [if_neg hsvp]
    cases memory with
    | none => rfl
    | some memory => exact fpsCall_heap cdm hsvp memory

/-- Over the life of an FPS session nothing is read, written or freed that is not there, and nothing is left
allocated after any operation. -/
theorem fpsRun_memory (b : Block) (turns : List FpsTurn) :
    (fpsRun b turns).2.foldlM FpsEvent.perform [] = some [] := by
  refine Effects.foldlM_run _ (fun b t => ?_) b turns
  unfold FpsTurn.step
  by_cases hfirst : t.first = errorNone
  · dsimp only
    rw [if_pos hfirst]
    exact fpsPass_memory t.memory t.cdm (t.op.fill b)
  · dsimp only
    rw [if_neg hfirst]
    rfl

end Ocdm.Exchange
