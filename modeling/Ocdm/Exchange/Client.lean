/-
The client's `DataExchange` (open_cdm_impl.h): `Decrypt`, `DecryptMulti` and `Decrypt_fps`. All
three are one handshake: the first `RequestProduce` takes the producer slot, the block is filled and
`Produced` hands it to the server, the second `RequestProduce` waits until the server has handed the
slot back, and the status is read. The result is the status when both calls succeed and 0 when one
of them fails, so the operations report what happened exactly when both succeed
(`Op.reports_iff`).
-/
import Ocdm.Exchange.Block

namespace Ocdm.Exchange

/-- `Core::ERROR_NONE` -/
def errorNone : UInt32 := 0

/-! ## The handshake -/

/-- What an operation does to the shared buffer, in order. -/
inductive Event where
  | requestProduce (result : UInt32)
  | produced
  | read (data : List UInt8)
  | status (value : UInt32)
  | consumed
deriving DecidableEq, Repr

/-- What an operation meets: the results of its two calls of `RequestProduce`, and what the server
makes of the block in between. -/
structure Outcome where
  first : UInt32
  second : UInt32
  serve : Block → Block

/-- What an operation leaves: its result, the block and the events. -/
structure Reply where
  ret : UInt32
  block : Block
  events : List Event

/-- The handshake around `fill` and `finish`; `reads` says whether the buffer is copied back. -/
def handshake (fill finish : Block → Block) (reads : Option UInt32) (o : Outcome) (b : Block) : Reply :=
  if o.first = errorNone then
    let b := o.serve (fill b)
    if o.second = errorNone then
      { ret := b.status
        block := finish b
        events := [.requestProduce o.first, .produced, .requestProduce o.second] ++
          (reads.map fun length => Event.read (b.read length)).toList ++ [.status b.status, .consumed] }
    -- the answer is not waited for: `ret` is what it was set to at the start
    else { ret := 0, block := finish b, events := [.requestProduce o.first, .produced, .requestProduce o.second] }
  else { ret := 0, block := b, events := [.requestProduce o.first] }

/-- The block after a handshake: what the server made of it, if it was handed over at all. -/
theorem handshake_block (fill finish : Block → Block) (reads : Option UInt32) (o : Outcome) (b : Block) :
    (handshake fill finish reads o b).block = if o.first = errorNone then finish (o.serve (fill b)) else b := by
  unfold handshake
  by_cases h1 : o.first = errorNone
  · rw [if_pos h1, if_pos h1]
    by_cases h2 : o.second = errorNone
    · dsimp only; rw [if_pos h2]
    · dsimp only; rw [if_neg h2]
  · rw [if_neg h1, if_neg h1]

/-! ## The operations -/

/-- `SetMediaProperties` when there are properties. -/
def fillProperties (b : Block) : Option MediaProperties → Block
  | none => b
  | some properties => b.setMediaProperties properties

/-- The sample `Decrypt` sends when it is given none. -/
def noSampleInfo : SampleInfo := ⟨.aesCtrCenc, ⟨0, 0⟩, ⟨0, none⟩, ⟨0, none⟩, ⟨0, none⟩⟩

/-- The setters of `Decrypt`. -/
def fillDecrypt (encryptedData : List UInt8) (encryptedDataLength : UInt32) (sampleInfo : Option SampleInfo)
    (initWithLast15 : UInt32) (properties : Option MediaProperties) (b : Block) : Block :=
  let sample := sampleInfo.getD noSampleInfo
  let b := b.setIV sample.iv
  let b := b.setKeyId sample.keyId
  let b := b.setSubSample sample.subSample
  let b := b.setEncScheme sample.scheme.code
  let b := b.setEncPattern sample.pattern
  let b := b.setInitWithLast15 initWithLast15
  let b := fillProperties b properties
  b.write encryptedDataLength encryptedData

/-- The loop of `SetSample` over the first `count` samples. -/
def fillSamples (sampleInfo : Nat → SampleInfo) : Nat → Block → Block
  | 0, b => b
  | idx + 1, b => (fillSamples sampleInfo idx b).setSample idx ⟨(sampleInfo idx).iv, (sampleInfo idx).subSample⟩

/-- The setters of `DecryptMulti`. -/
def fillDecryptMulti (encryptedData : List UInt8) (encryptedDataLength : UInt32)
    (sampleInfo : Option (Nat → SampleInfo)) (sampleInfoLength : UInt16) (properties : Option MediaProperties)
    (b : Block) : Block :=
  let b := match sampleInfo with
    | some sampleInfo =>
      if sampleInfoLength > 0 then
        let b := b.setKeyId (sampleInfo 0).keyId
        let b := b.setEncScheme (sampleInfo 0).scheme.code
        let b := b.setEncPattern (sampleInfo 0).pattern
        let b := b.setSubSample ⟨0, none⟩
        let b := b.setSampleLength sampleInfoLength
        fillSamples sampleInfo sampleInfoLength.toNat b
      else b
    | none => b
  let b := fillProperties b properties
  b.write encryptedDataLength encryptedData

/-- The setters of `Decrypt_fps`; `svpout` is what is there for a content type of SVP video. -/
def fillDecryptFps (movieID cryptorID : UInt64) (contentType : UInt32) (encryptedData : List UInt8)
    (encryptedDataLength : UInt32) (sliceInfoArray : Option (List FpsSliceInfo)) (sliceInfoArrayCount : UInt32)
    (svpout : UInt32) (b : Block) : Block :=
  let fps : FpsFields := { b.fps with
    cryptorId := cryptorID, movieId := movieID, contentType := contentType
    sliceInfoArrayCount := sliceInfoArrayCount, sliceInfoArray := sliceInfoArray }
  let b := b.setFps (if contentType = 0x80000007 then { fps with svpOut := svpout } else fps)
  b.write encryptedDataLength encryptedData

/-- A decrypt request of a session that is not FPS. A sample array is its elements by index. -/
inductive Request where
  | decrypt (encryptedData : List UInt8) (encryptedDataLength : UInt32) (sampleInfo : Option SampleInfo)
      (initWithLast15 : UInt32) (properties : Option MediaProperties)
  | decryptMulti (encryptedData : List UInt8) (encryptedDataLength : UInt32)
      (sampleInfo : Option (Nat → SampleInfo)) (sampleInfoLength : UInt16) (properties : Option MediaProperties)

/-- What a request writes into the block before it is handed over. -/
def Request.fill : Request → Block → Block
  | .decrypt data length sampleInfo initWithLast15 properties =>
    fillDecrypt data length sampleInfo initWithLast15 properties
  | .decryptMulti data length sampleInfo sampleInfoLength properties =>
    fillDecryptMulti data length sampleInfo sampleInfoLength properties

/-- `Decrypt` -/
def decrypt (encryptedData : List UInt8) (encryptedDataLength : UInt32) (sampleInfo : Option SampleInfo)
    (initWithLast15 : UInt32) (properties : Option MediaProperties) (o : Outcome) (b : Block) : Reply :=
  handshake (fillDecrypt encryptedData encryptedDataLength sampleInfo initWithLast15 properties) id
    (some encryptedDataLength) o b

/-- `DecryptMulti` -/
def decryptMulti (encryptedData : List UInt8) (encryptedDataLength : UInt32)
    (sampleInfo : Option (Nat → SampleInfo)) (sampleInfoLength : UInt16) (properties : Option MediaProperties)
    (o : Outcome) (b : Block) : Reply :=
  handshake (fillDecryptMulti encryptedData encryptedDataLength sampleInfo sampleInfoLength properties)
    (fun b => b.setSampleLength 0) (some encryptedDataLength) o b

/-- `Decrypt_fps`; only audio is copied back. -/
def decryptFps (movieID cryptorID : UInt64) (contentType : UInt32) (encryptedData : List UInt8)
    (encryptedDataLength : UInt32) (sliceInfoArray : Option (List FpsSliceInfo)) (sliceInfoArrayCount : UInt32)
    (svpout : UInt32) (o : Outcome) (b : Block) : Reply :=
  handshake
    (fillDecryptFps movieID cryptorID contentType encryptedData encryptedDataLength sliceInfoArray
      sliceInfoArrayCount svpout)
    id (if contentType = 0xA then some encryptedDataLength else none) o b

def Request.perform : Request → Outcome → Block → Reply
  | .decrypt data length sampleInfo initWithLast15 properties =>
    Exchange.decrypt data length sampleInfo initWithLast15 properties
  | .decryptMulti data length sampleInfo sampleInfoLength properties =>
    Exchange.decryptMulti data length sampleInfo sampleInfoLength properties

/-- The three operations of the client. -/
inductive Op where
  | request (r : Request)
  | decryptFps (movieID cryptorID : UInt64) (contentType : UInt32) (encryptedData : List UInt8)
      (encryptedDataLength : UInt32) (sliceInfoArray : Option (List FpsSliceInfo)) (sliceInfoArrayCount : UInt32)
      (svpout : UInt32)

def Op.perform : Op → Outcome → Block → Reply
  | .request r => r.perform
  | .decryptFps movieID cryptorID contentType data length slices count svpout =>
    Exchange.decryptFps movieID cryptorID contentType data length slices count svpout

/-- What an operation writes into the block before it is handed over. -/
def Op.fill : Op → Block → Block
  | .request r => r.fill
  | .decryptFps movieID cryptorID contentType data length slices count svpout =>
    fillDecryptFps movieID cryptorID contentType data length slices count svpout

/-- The data of an operation. -/
def Op.payload : Op → List UInt8 × UInt32
  | .request (.decrypt data length ..) => (data, length)
  | .request (.decryptMulti data length ..) => (data, length)
  | .decryptFps _ _ _ data length _ _ _ => (data, length)

/-- The data an operation wrote is what the block holds when it is handed over. -/
theorem Op.fill_payload (op : Op) (b : Block) :
    (op.fill b).buffer = op.payload.1.take op.payload.2.toNat ∧ (op.fill b).bytesWritten = op.payload.2 := by
  cases op with
  | request r => cases r <;> exact ⟨rfl, rfl⟩
  | decryptFps => exact ⟨rfl, rfl⟩

/-- What an operation writes into the block when the answer was taken; only `DecryptMulti` does. -/
def Op.finish : Op → Block → Block
  | .request (.decryptMulti ..) => fun b => b.setSampleLength 0
  | _ => id

/-- How much of the buffer an operation copies back. -/
def Op.reads : Op → Option UInt32
  | .request (.decrypt _ length _ _ _) => some length
  | .request (.decryptMulti _ length _ _ _) => some length
  | .decryptFps _ _ contentType _ length _ _ _ => if contentType = 0xA then some length else none

theorem Op.perform_eq (op : Op) (o : Outcome) (b : Block) :
    op.perform o b = handshake op.fill op.finish op.reads o b := by
  cases op with
  | request r => cases r <;> rfl
  | decryptFps => rfl

/-- What the caller of an operation gets: the result, and what was copied back. -/
structure Result where
  ret : UInt32
  data : Option (List UInt8)
deriving DecidableEq, Repr

/-- The bytes an event of an operation copied back. -/
def Event.data? : Event → Option (List UInt8)
  | .read data => some data
  | _ => none

def Reply.result (r : Reply) : Result := ⟨r.ret, r.events.findSome? Event.data?⟩

/-- A handshake in which a call of `RequestProduce` fails returns 0, and copies nothing back. -/
theorem handshake_unanswered {fill finish : Block → Block} {reads : Option UInt32} {o : Outcome} {b : Block}
    (h : ¬ (o.first = errorNone ∧ o.second = errorNone)) : (handshake fill finish reads o b).result = ⟨0, none⟩ := by
  unfold handshake
  by_cases h1 : o.first = errorNone
  · rw [if_pos h1]
    dsimp only
    rw [if_neg fun h2 => h ⟨h1, h2⟩]
    rfl
  · rw [if_neg h1]
    rfl

/-- The result of an operation: what the server answered when both calls of `RequestProduce` succeed, and
otherwise 0. -/
theorem Op.perform_result (op : Op) (o : Outcome) (b : Block) :
    (op.perform o b).result =
      if o.first = errorNone ∧ o.second = errorNone then
        ⟨(o.serve (op.fill b)).status, op.reads.map (o.serve (op.fill b)).read⟩
      else ⟨0, none⟩ := by
  rw [op.perform_eq]
  by_cases h : o.first = errorNone ∧ o.second = errorNone
  · rw [if_pos h]
    unfold handshake
    rw [if_pos h.1]
    dsimp only
    rw [if_pos h.2]
    cases op.reads <;> rfl
  · rw [if_neg h]
    exact handshake_unanswered h

theorem Op.perform_ret (op : Op) (o : Outcome) (b : Block) :
    (op.perform o b).ret =
      if o.first = errorNone ∧ o.second = errorNone then (o.serve (op.fill b)).status else 0 := by
  refine (congrArg Result.ret (op.perform_result o b)).trans ?_
  split <;> rfl

/-- The block after an operation whose first call of `RequestProduce` succeeds. -/
theorem Op.perform_block (op : Op) (o : Outcome) (b : Block) :
    (op.perform o b).block = if o.first = errorNone then op.finish (o.serve (op.fill b)) else b := by
  rw [op.perform_eq, handshake_block]

/-! ## The session's operations -/

/-- `OpenCDMError::ERROR_UNKNOWN` -/
def errorUnknown : UInt32 := 1
/-- `OpenCDMError::ERROR_INVALID_DECRYPT_BUFFER` -/
def errorInvalidDecryptBuffer : UInt32 := 0x80000004

/-- `OpenCDMSession::Decrypt`, `DecryptMulti` and `Decrypt_fps`: the operation on the session's buffer,
which is missing when it could not be created. -/
def sessionPerform (op : Op) (o : Outcome) (decryptSession : Option Block) : UInt32 :=
  match decryptSession with
  | some b => if (op.perform o b).ret ≠ 0 then errorUnknown else (op.perform o b).ret
  | none => errorInvalidDecryptBuffer

/-- A session's operation succeeds exactly when the operation on its buffer returns 0. -/
theorem sessionPerform_zero_iff (op : Op) (o : Outcome) (b : Block) :
    sessionPerform op o (some b) = 0 ↔ (op.perform o b).ret = 0 := by
  show (if (op.perform o b).ret ≠ 0 then errorUnknown else (op.perform o b).ret) = 0 ↔ _
  by_cases h : (op.perform o b).ret = 0
  · rw [if_neg (not_not.2 h)]
  · rw [if_pos h]
    exact iff_of_false (by decide) h

/-! ## What the results say -/

/-- The operation reports what happened: 0 only when the request was produced, the slot came back
and the status read then was 0, and something else when a call of `RequestProduce` failed. -/
structure Reports (o : Outcome) (r : Reply) : Prop where
  success : r.ret = 0 → [.produced, .requestProduce errorNone, .status 0, .consumed].Sublist r.events
  failure : o.first ≠ errorNone ∨ o.second ≠ errorNone → r.ret ≠ 0

theorem handshake_reports {fill finish : Block → Block} {reads : Option UInt32} {o : Outcome} {b : Block}
    (h1 : o.first = errorNone) (h2 : o.second = errorNone) : Reports o (handshake fill finish reads o b) := by
  refine ⟨fun hret => ?_, fun hf => ?_⟩
  · simp only [handshake, h1, h2, if_true] at hret ⊢
    rw [hret]
    refine .cons _ (.cons_cons _ (.cons_cons _ ?_))
    exact List.sublist_append_right _ _
  · rcases hf with hf | hf
    · exact absurd h1 hf
    · exact absurd h2 hf

theorem handshake_reports_iff (fill finish : Block → Block) (reads : Option UInt32) (o : Outcome) (b : Block) :
    Reports o (handshake fill finish reads o b) ↔ o.first = errorNone ∧ o.second = errorNone := by
  refine ⟨fun h => ?_, fun h => handshake_reports h.1 h.2⟩
  by_contra hn
  exact h.failure (not_and_or.1 hn) (congrArg Result.ret (handshake_unanswered hn))

/-- Every operation is the handshake around some setters. -/
theorem Op.exists_handshake (op : Op) :
    ∃ fill finish reads, ∀ o b, op.perform o b = handshake fill finish reads o b := by
  cases op with
  | request r =>
    cases r with
    | decrypt => exact ⟨_, _, _, fun _ _ => rfl⟩
    | decryptMulti => exact ⟨_, fun b => b.setSampleLength 0, _, fun _ _ => rfl⟩
  | decryptFps => exact ⟨_, _, _, fun _ _ => rfl⟩

/-- An operation reports what happened exactly when both its calls of `RequestProduce` succeed. -/
theorem Op.reports_iff (op : Op) (o : Outcome) (b : Block) :
    Reports o (op.perform o b) ↔ o.first = errorNone ∧ o.second = errorNone := by
  obtain ⟨fill, finish, reads, h⟩ := op.exists_handshake
  rw [h]
  exact handshake_reports_iff fill finish reads o b

/-- The first `RequestProduce` times out: no operation hands anything to the server, and all three
return 0. -/
theorem timeout_reported_as_success :
    (decrypt [0xAB] 1 none 0 none ⟨11, 0, id⟩ Block.zero).ret = 0 ∧
    (decryptMulti [0xAB] 1 none 0 none ⟨11, 0, id⟩ Block.zero).ret = 0 ∧
    (decryptFps 0 0 0xA [0xAB] 1 none 0 0 ⟨11, 0, id⟩ Block.zero).ret = 0 ∧
    ¬ Reports ⟨11, 0, id⟩ (decrypt [0xAB] 1 none 0 none ⟨11, 0, id⟩ Block.zero) := by
  refine ⟨by decide, by decide, by decide, fun h => ?_⟩
  exact h.failure (.inl (by decide)) (by decide)

end Ocdm.Exchange
