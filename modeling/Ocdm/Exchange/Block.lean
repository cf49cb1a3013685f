/-
The administration block a client and the server share for one session (Thunder's
`Exchange::DataExchange`), and the structures of open_cdm.h whose contents go through it. Every
setter stores its own field and every getter returns what was stored last. A pointer argument is
what it points to, `none` when it is null.
-/
import Mathlib.Tactic.Common

namespace Ocdm.Exchange

/-! ## Arguments -/

/-- `EncryptionScheme` -/
inductive EncryptionScheme where
  | clear
  | aesCtrCenc
  | aesCbcCbc1
  | aesCtrCens
  | aesCbcCbcs
deriving DecidableEq, Repr

/-- `static_cast<uint8_t>(scheme)` -/
def EncryptionScheme.code : EncryptionScheme → UInt8
  | .clear => 0
  | .aesCtrCenc => 1
  | .aesCbcCbc1 => 2
  | .aesCtrCens => 3
  | .aesCbcCbcs => 4

/-- `MediaType_t` -/
inductive MediaType where
  | unknown
  | video
  | audio
  | data
deriving DecidableEq, Repr

structure EncryptionPattern where
  encryptedBlocks : UInt32
  clearBlocks : UInt32
deriving DecidableEq, Repr

structure SubSampleInfo where
  clearBytes : UInt16
  encryptedBytes : UInt32
deriving DecidableEq, Repr

/-- Bytes behind a pointer, with the length that is passed along. -/
structure Blob where
  length : UInt8
  bytes : Option (List UInt8)
deriving DecidableEq, Repr

/-- A map of subsamples behind a pointer, with the count that is passed along. -/
structure SubSampleMap where
  count : UInt8
  entries : Option (List SubSampleInfo)
deriving DecidableEq, Repr

/-- `SampleInfo`: each pointer with its length. -/
structure SampleInfo where
  scheme : EncryptionScheme
  pattern : EncryptionPattern
  iv : Blob
  keyId : Blob
  subSample : SubSampleMap
deriving DecidableEq, Repr

structure MediaProperties where
  height : UInt16
  width : UInt16
  mediaType : MediaType
deriving DecidableEq, Repr

/-- `FPS_SliceInfo` -/
structure FpsSliceInfo where
  offset : UInt32
  size : UInt32
deriving DecidableEq, Repr

/-! ## The block -/

/-- What `SetSample` stores for one sample. -/
structure Sample where
  iv : Blob
  subSample : SubSampleMap
deriving DecidableEq, Repr

/-- The fields of the FPS setters. -/
structure FpsFields where
  cryptorId : UInt64
  movieId : UInt64
  contentType : UInt32
  sliceInfoArrayCount : UInt32
  sliceInfoArray : Option (List FpsSliceInfo)
  svpOut : UInt32
deriving DecidableEq, Repr

structure Block where
  status : UInt32
  iv : Blob
  keyId : Blob
  subSample : SubSampleMap
  encScheme : UInt8
  encPattern : EncryptionPattern
  initWithLast15 : UInt32
  mediaProperties : MediaProperties
  sampleLength : UInt16
  samples : Nat → Sample
  fps : FpsFields
  /-- the buffer, its size and `BytesWritten` -/
  buffer : List UInt8
  size : UInt32
  bytesWritten : UInt32

namespace Block

def setIV (b : Block) (iv : Blob) : Block := { b with iv := iv }
def setKeyId (b : Block) (keyId : Blob) : Block := { b with keyId := keyId }
def setSubSample (b : Block) (subSample : SubSampleMap) : Block := { b with subSample := subSample }
def setEncScheme (b : Block) (scheme : UInt8) : Block := { b with encScheme := scheme }
def setEncPattern (b : Block) (pattern : EncryptionPattern) : Block := { b with encPattern := pattern }
def setInitWithLast15 (b : Block) (value : UInt32) : Block := { b with initWithLast15 := value }
def setMediaProperties (b : Block) (properties : MediaProperties) : Block := { b with mediaProperties := properties }
def setSampleLength (b : Block) (length : UInt16) : Block := { b with sampleLength := length }
def setSample (b : Block) (idx : Nat) (sample : Sample) : Block :=
  { b with samples := fun i => if i = idx then sample else b.samples i }
def setFps (b : Block) (fps : FpsFields) : Block := { b with fps := fps }
def setStatus (b : Block) (status : UInt32) : Block := { b with status := status }
def setSize (b : Block) (size : UInt32) : Block := { b with size := size }

/-- `Write(length, data)` -/
def write (b : Block) (length : UInt32) (data : List UInt8) : Block :=
  { b with buffer := data.take length.toNat, bytesWritten := length }

/-- `SetBuffer(0, length, data)` -/
def setBuffer (b : Block) (length : UInt32) (data : List UInt8) : Block :=
  { b with buffer := data.take length.toNat ++ b.buffer.drop length.toNat }

/-- `Read(length, data)`: the bytes copied out. -/
def read (b : Block) (length : UInt32) : List UInt8 := b.buffer.take length.toNat

end Block

/-- A block with every field zero. -/
def Block.zero : Block where
  status := 0
  iv := ⟨0, none⟩
  keyId := ⟨0, none⟩
  subSample := ⟨0, none⟩
  encScheme := 0
  encPattern := ⟨0, 0⟩
  initWithLast15 := 0
  mediaProperties := ⟨0, 0, .unknown⟩
  sampleLength := 0
  samples _ := ⟨⟨0, none⟩, ⟨0, none⟩⟩
  fps := ⟨0, 0, 0, 0, none, 0⟩
  buffer := []
  size := 0
  bytesWritten := 0

end Ocdm.Exchange
