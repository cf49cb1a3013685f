/-
`opencdm_gstreamer_session_decrypt` of the GStreamer adapter (gstreamer/open_cdm_adapter.cpp), and
`opencdm_gstreamer_session_decrypt_once` of the RDK adapter (rdk/open_cdm_adapter.cpp). Both read the table of the
subsamples without looking at what the reader answers, add up the encrypted bytes in 32 bits, and copy the encrypted
ranges of the frame into a block of that size; the first one copies them back from the block afterwards. For ranges in
the frame that is gathering and scattering (`ranges_replaced`). For any other table nothing keeps the copies inside
(`copies_inside_iff`).
-/
import Ocdm.Adapter.MultiDecrypt
import Ocdm.Lib.Gather

namespace Ocdm.Adapter

open Exchange (SubSampleInfo EncryptionScheme EncryptionPattern)

/-! ## Calls -/

/-- A `GstBuffer` of any size; the bytes that it maps to. -/
structure SizedBuffer where
  id : Nat
  bytes : List UInt8
  mappable : Bool

/-- A frame, with its metadata. -/
structure DataBuffer extends SizedBuffer where
  info : Option MultiMeta

/-- What the reader of a table is given: the size is cast to 32 bits. -/
def SizedBuffer.readable (table : SizedBuffer) : List UInt8 := table.bytes.take (table.bytes.length % 4294967296)

/-- The arguments of `opencdm_session_decrypt`. -/
structure SessionCall where
  data : List UInt8
  dataLength : UInt32
  encScheme : EncryptionScheme
  pattern : EncryptionPattern
  iv : Option (List UInt8)
  ivLength : UInt32
  keyId : Option (List UInt8)
  keyIdLength : UInt32
  initWithLast15 : UInt32
deriving DecidableEq, Repr

/-- A `memcpy` of a subsample loop: its offsets in the mapped data and in the block, and its size. They do not depend on
what earlier copies have done. -/
structure LoopCopy where
  data : Nat
  block : Nat
  size : Nat
deriving DecidableEq, Repr

/-- The transform of a frame by the SVP library. -/
inductive SvpTransform where
  | append (buffer : Nat) (subSample : Option Nat) (subSampleCount : UInt32)
  | fromClear (buffer : Nat)
deriving DecidableEq, Repr

/-- What a call leaves: its result, the call of the CDM, the bytes of the frame, the copies of its subsample loops, the
size of the block for the encrypted bytes, and the transform. -/
structure SessionOutcome where
  result : OpenCDMError
  call : Option SessionCall := none
  data : List UInt8
  copies : List LoopCopy := []
  blockSize : Nat := 0
  transform : Option SvpTransform := none
deriving DecidableEq, Repr

/-! ## The loops -/

/-- The variables `inClear` and `inEncrypted` in the passes of a loop; a read that fails leaves its variable as it
was. -/
def readVars (table : List UInt8) : Nat → Nat → SubSampleInfo → List SubSampleInfo
  | 0, _, _ => []
  | count + 1, pos, last =>
    let clear := getUint16BE table pos
    let encrypted := getUint32BE table clear.2
    let entry : SubSampleInfo := ⟨clear.1.getD last.clearBytes, encrypted.1.getD last.encryptedBytes⟩
    entry :: readVars table count encrypted.2 entry

/-- The variables behind a loop. -/
def lastVars (entries : List SubSampleInfo) (before : SubSampleInfo) : SubSampleInfo := entries.getLast?.getD before

/-- `totalEncrypted` -/
def totalEncrypted (entries : List SubSampleInfo) : UInt32 := entries.foldl (fun sum e => sum + e.encryptedBytes) 0

structure GatherState where
  index : UInt32
  iter : Nat
  block : List UInt8
  copies : List LoopCopy

/-- A pass of the loop that fills the block. -/
def gatherStep (data : List UInt8) (s : GatherState) (e : SubSampleInfo) : GatherState :=
  let copy : LoopCopy := ⟨s.index.toNat + e.clearBytes.toNat, s.iter, e.encryptedBytes.toNat⟩
  { index := s.index + (e.clearBytes.toUInt32 + e.encryptedBytes)
    iter := s.iter + e.encryptedBytes.toNat
    block := Gather.splice s.block copy.block ((data.drop copy.data).take copy.size)
    copies := s.copies ++ [copy] }

structure ScatterState where
  index : UInt32
  total : UInt32
  data : List UInt8
  copies : List LoopCopy

/-- A pass of the loop that copies the block back. -/
def scatterStep (block : List UInt8) (s : ScatterState) (e : SubSampleInfo) : ScatterState :=
  let copy : LoopCopy := ⟨s.total.toNat + e.clearBytes.toNat, s.index.toNat, e.encryptedBytes.toNat⟩
  { index := s.index + e.encryptedBytes
    total := s.total + (e.clearBytes.toUInt32 + e.encryptedBytes)
    data := Gather.splice s.data copy.data ((block.drop copy.block).take copy.size)
    copies := s.copies ++ [copy] }

/-! ## The GStreamer adapter -/

/-- The arguments besides the data. -/
def sessionCall (encScheme : Option MultiMeta → EncryptionScheme) (info : Option MultiMeta)
    (IV keyID : Option GstBuffer) (initWithLast15 : UInt32) (data : List UInt8) (dataLength : UInt32) :
    SessionCall where
  data := data
  dataLength := dataLength
  encScheme := encScheme info
  pattern := ⟨(info.bind fun i => i.cryptByteBlock).getD 0, (info.bind fun i => i.skipByteBlock).getD 0⟩
  iv := IV.map GstBuffer.bytes
  ivLength := mappedSize IV
  keyId := keyID.map GstBuffer.bytes
  keyIdLength := mappedSize keyID
  initWithLast15 := initWithLast15

/-- The subsamples: three loops over the table, with the variables of one going on in the next, and the decryption
between the last two. `malloc` gives what the block holds; without one the pointer is null, and no byte may be
copied. -/
def decryptSubSamples (malloc : UInt32 → Option (List UInt8)) (decrypt : SessionCall → OpenCDMError × List UInt8)
    (call : List UInt8 → UInt32 → SessionCall) (data table : List UInt8) (subSampleCount : UInt32) : SessionOutcome :=
  let entries := readVars table subSampleCount.toNat 0 ⟨0, 0⟩
  let total := totalEncrypted entries
  let encryptedData := (malloc total).getD []
  let entries2 := readVars table subSampleCount.toNat 0 (lastVars entries ⟨0, 0⟩)
  let gathered := entries2.foldl (gatherStep data) ⟨0, 0, encryptedData, []⟩
  let r := decrypt (call gathered.block total)
  let entries3 := readVars table subSampleCount.toNat 0 (lastVars entries2 (lastVars entries ⟨0, 0⟩))
  let scattered := entries3.foldl (scatterStep r.2) ⟨0, 0, data, []⟩
  { result := r.1
    call := some (call gathered.block total)
    data := scattered.data
    copies := gathered.copies ++ scattered.copies
    blockSize := encryptedData.length }

/-- The scheme of the GStreamer adapter. -/
def gstreamerScheme (info : Option MultiMeta) : EncryptionScheme := (info.map schemeOf).getD .aesCtrCenc

/-- `opencdm_gstreamer_session_decrypt` of the GStreamer adapter. `decrypt` gives what the CDM makes of the data. -/
def gstreamerSessionDecrypt (malloc : UInt32 → Option (List UInt8))
    (decrypt : SessionCall → OpenCDMError × List UInt8) (session : Bool) (buffer : DataBuffer)
    (subSampleBuffer : Option SizedBuffer) (subSampleCount : UInt32) (IV keyID : Option GstBuffer)
    (initWithLast15 : UInt32) : SessionOutcome :=
  if session = false then { result := errorInvalidSession, data := buffer.bytes }
  else if subSampleBuffer.isNone && IV.isNone && keyID.isNone then { result := errorNone, data := buffer.bytes }
  else if buffer.mappable = false then { result := errorInvalidDecryptBuffer, data := buffer.bytes }
  else if canMap IV = false then { result := errorInvalidDecryptBuffer, data := buffer.bytes }
  else if keyID.isSome && !canMap keyID then { result := errorInvalidDecryptBuffer, data := buffer.bytes }
  else
    let call := sessionCall gstreamerScheme buffer.info IV keyID initWithLast15
    match subSampleBuffer with
    | some table =>
      if table.mappable then decryptSubSamples malloc decrypt call buffer.bytes table.readable subSampleCount
      else { result := errorInvalidDecryptBuffer, data := buffer.bytes }
    | none =>
      -- decrypted in place
      let r := decrypt (call buffer.bytes (UInt32.ofNat buffer.bytes.length))
      { result := r.1, call := some (call buffer.bytes (UInt32.ofNat buffer.bytes.length)), data := r.2 }

/-! ## The RDK adapter -/

/-- The SVP library: the area behind the header of a new data block, if there is one, and the size it returns. -/
structure OnceSvp where
  allocate : UInt32 → Option (List UInt8)
  dataBlockSize : UInt32 → UInt32

/-- The scheme of the RDK adapter. -/
def onceScheme (info : Option MultiMeta) : EncryptionScheme :=
  if info.bind (fun i => i.cipherMode) = some "cbcs" then .aesCbcCbcs else .aesCtrCenc

/-- The subsamples of a frame: two loops over the table, and the decryption, if there is anything to decrypt. -/
def decryptSubSamplesOnce (svp : OnceSvp) (decrypt : SessionCall → OpenCDMError × List UInt8)
    (call : List UInt8 → UInt32 → SessionCall) (buffer : DataBuffer) (subSample : SizedBuffer)
    (subSampleCount : UInt32) : SessionOutcome :=
  let entries := readVars subSample.readable subSampleCount.toNat 0 ⟨0, 0⟩
  let total := totalEncrypted entries
  if total > 0 then
    let svpData := (svp.allocate total).getD []
    let entries2 := readVars subSample.readable subSampleCount.toNat 0 (lastVars entries ⟨0, 0⟩)
    let gathered := entries2.foldl (gatherStep buffer.bytes) ⟨0, 0, svpData, []⟩
    let r := decrypt (call gathered.block (svp.dataBlockSize total))
    { result := r.1
      call := some (call gathered.block (svp.dataBlockSize total))
      data := buffer.bytes
      copies := gathered.copies
      blockSize := svpData.length
      transform := if r.1 = errorNone then some (.append buffer.id (some subSample.id) subSampleCount) else none }
  else { result := errorNone, data := buffer.bytes, transform := some (.fromClear buffer.id) }

/-- `opencdm_gstreamer_session_decrypt_once` of the RDK adapter. -/
def gstreamerSessionDecryptOnce (svp : OnceSvp) (decrypt : SessionCall → OpenCDMError × List UInt8) (session : Bool)
    (buffer : DataBuffer) (subSample : Option SizedBuffer) (subSampleCount : UInt32) (IV keyID : Option GstBuffer)
    (initWithLast15 : UInt32) : SessionOutcome :=
  if session = false then { result := errorInvalidSession, data := buffer.bytes }
  else if buffer.mappable = false then { result := errorInvalidDecryptBuffer, data := buffer.bytes }
  else if subSample.isNone && IV.isNone && keyID.isNone then
    { result := errorNone, data := buffer.bytes, transform := some (.fromClear buffer.id) }
  else if canMap IV = false then { result := errorInvalidDecryptBuffer, data := buffer.bytes }
  else if canMap keyID = false then { result := errorInvalidDecryptBuffer, data := buffer.bytes }
  else
    let call := sessionCall onceScheme buffer.info IV keyID initWithLast15
    match subSample with
    | some table =>
      if table.mappable then decryptSubSamplesOnce svp decrypt call buffer table subSampleCount
      else { result := errorInvalidDecryptBuffer, data := buffer.bytes }
    | none =>
      let mappedDataSize := UInt32.ofNat buffer.bytes.length
      let svpData := Gather.splice ((svp.allocate mappedDataSize).getD []) 0 (buffer.bytes.take mappedDataSize.toNat)
      let r := decrypt (call svpData (svp.dataBlockSize mappedDataSize))
      { result := r.1
        call := some (call svpData (svp.dataBlockSize mappedDataSize))
        data := buffer.bytes
        transform := if r.1 = errorNone then some (.append buffer.id none mappedDataSize) else none }

/-! ## Reading the table -/

/-- A table with room for its pairs is read as they are, whatever the variables were. -/
theorem readVars_pairsFrom {table : List UInt8} {count pos : Nat} (last : SubSampleInfo)
    (h : count = 0 ∨ pos + 6 * count ≤ table.length) : readVars table count pos last = pairsFrom table count pos := by
  induction count generalizing pos last with
  | zero => rfl
  | succ count ih =>
    rw [readVars, getUint16BE_some (by omega)]
    dsimp only
    rw [getUint32BE_some (by omega)]
    dsimp only
    rw [ih _ (by omega)]
    rfl

theorem readVars_pairs {table : List UInt8} {count : Nat} {ps : List SubSampleInfo} (last : SubSampleInfo)
    (h : pairs table count = some ps) : readVars table count 0 last = ps := by
  have hroom : count = 0 ∨ 6 * count ≤ table.length := .inr (pairs_some h).1
  rw [readVars_pairsFrom last (by omega)]
  exact Option.some.inj ((pairs_pairsFrom hroom).symm.trans h)

/-- Variables that a table too short to set them has left at zero. -/
def Unset (table : List UInt8) (last : SubSampleInfo) : Prop :=
  (table.length < 6 → last.encryptedBytes = 0) ∧ (table.length < 2 → last.clearBytes = 0)

theorem unset_zero (table : List UInt8) : Unset table ⟨0, 0⟩ := ⟨fun _ => rfl, fun _ => rfl⟩

theorem getUint16BE_short {table : List UInt8} {pos : Nat} (h : table.length < 2) :
    getUint16BE table pos = (none, pos) := if_neg (by omega)

/-- Behind the read of two bytes, or where it has failed, a short table has no four more. -/
theorem getUint32BE_short {table : List UInt8} {pos : Nat} (h : table.length < 6) :
    getUint32BE table (getUint16BE table pos).2 = (none, (getUint16BE table pos).2) := by
  unfold getUint16BE
  split
  · exact if_neg (by dsimp only; omega)
  · exact if_neg (by dsimp only; omega)

theorem unset_readVars {table : List UInt8} {count pos : Nat} {last : SubSampleInfo} (h : Unset table last) :
    ∀ e ∈ readVars table count pos last, Unset table e := by
  induction count generalizing pos last with
  | zero => exact fun e he => by cases he
  | succ count ih =>
    have hentry : Unset table ⟨(getUint16BE table pos).1.getD last.clearBytes,
        (getUint32BE table (getUint16BE table pos).2).1.getD last.encryptedBytes⟩ := by
      constructor
      · intro hshort
        dsimp only
        rw [getUint32BE_short hshort]
        exact h.1 hshort
      · intro hshort
        dsimp only
        rw [getUint16BE_short hshort]
        exact h.2 hshort
    rw [readVars]
    exact List.forall_mem_cons.2 ⟨hentry, ih hentry⟩

theorem unset_lastVars {table : List UInt8} {entries : List SubSampleInfo} {before : SubSampleInfo}
    (h : ∀ e ∈ entries, Unset table e) (hbefore : Unset table before) : Unset table (lastVars entries before) := by
  unfold lastVars
  cases hlast : entries.getLast? with
  | none => exact hbefore
  | some e => exact h e (List.mem_of_getLast? hlast)

/-- A loop from the start of the table sees the same, whatever it goes on from. -/
theorem readVars_same {table : List UInt8} (count : Nat) {a b : SubSampleInfo} (ha : Unset table a)
    (hb : Unset table b) : readVars table count 0 a = readVars table count 0 b := by
  cases count with
  | zero => rfl
  | succ count =>
    have hclear : (getUint16BE table 0).1.getD a.clearBytes = (getUint16BE table 0).1.getD b.clearBytes := by
      by_cases hshort : table.length < 2
      · rw [ha.2 hshort, hb.2 hshort]
      · rw [getUint16BE_some (by omega)]
        rfl
    have hencrypted : (getUint32BE table (getUint16BE table 0).2).1.getD a.encryptedBytes =
        (getUint32BE table (getUint16BE table 0).2).1.getD b.encryptedBytes := by
      by_cases hshort : table.length < 6
      · rw [ha.1 hshort, hb.1 hshort]
      · rw [getUint16BE_some (by omega)]
        dsimp only
        rw [getUint32BE_some (by omega)]
        rfl
    rw [readVars, readVars, hclear, hencrypted]

/-- The pairs as the first loop sees them. -/
def entriesRead (table : List UInt8) (count : UInt32) : List SubSampleInfo := readVars table count.toNat 0 ⟨0, 0⟩

/-- The other loops see them too. -/
theorem readVars_again (table : List UInt8) (count : UInt32) {before : SubSampleInfo} (h : Unset table before) :
    readVars table count.toNat 0 (lastVars (entriesRead table count) before) = entriesRead table count :=
  readVars_same _ (unset_lastVars (unset_readVars (unset_zero table)) h) (unset_zero table)

/-- The GStreamer adapter's three loops are over one list of pairs. -/
theorem decryptSubSamples_eq (malloc : UInt32 → Option (List UInt8))
    (decrypt : SessionCall → OpenCDMError × List UInt8) (call : List UInt8 → UInt32 → SessionCall)
    (data table : List UInt8) (subSampleCount : UInt32) :
    decryptSubSamples malloc decrypt call data table subSampleCount =
      let es := entriesRead table subSampleCount
      let encryptedData := (malloc (totalEncrypted es)).getD []
      let gathered := es.foldl (gatherStep data) ⟨0, 0, encryptedData, []⟩
      let r := decrypt (call gathered.block (totalEncrypted es))
      let scattered := es.foldl (scatterStep r.2) ⟨0, 0, data, []⟩
      { result := r.1
        call := some (call gathered.block (totalEncrypted es))
        data := scattered.data
        copies := gathered.copies ++ scattered.copies
        blockSize := encryptedData.length } := by
  have hfirst : readVars table subSampleCount.toNat 0 ⟨0, 0⟩ = entriesRead table subSampleCount := rfl
  have hunset : ∀ e ∈ readVars table subSampleCount.toNat 0 ⟨0, 0⟩, Unset table e := unset_readVars (unset_zero table)
  have hsecond := readVars_again table subSampleCount (unset_zero table)
  have hthird := readVars_again table subSampleCount (unset_lastVars hunset (unset_zero table))
  dsimp only [decryptSubSamples]
  rw [hfirst] at hthird ⊢
  rw [hsecond, hthird]

/-! ## The loops as copies -/

/-- The encrypted bytes of entries. -/
def encryptedSum (es : List SubSampleInfo) : Nat := (es.map fun e => e.encryptedBytes.toNat).sum

@[simp] theorem encryptedSum_nil : encryptedSum [] = 0 := rfl

@[simp] theorem encryptedSum_cons (e : SubSampleInfo) (es : List SubSampleInfo) :
    encryptedSum (e :: es) = e.encryptedBytes.toNat + encryptedSum es := by simp [encryptedSum]

theorem totalEncrypted_toNat (es : List SubSampleInfo) : (totalEncrypted es).toNat = encryptedSum es % 4294967296 := by
  have hloop : ∀ (es : List SubSampleInfo) (sum : UInt32),
      (es.foldl (fun sum e => sum + e.encryptedBytes) sum).toNat = (sum.toNat + encryptedSum es) % 4294967296 := by
    intro es
    induction es with
    | nil =>
      intro sum
      exact (Nat.mod_eq_of_lt sum.toNat_lt).symm
    | cons e es ih =>
      intro sum
      rw [List.foldl_cons, ih, encryptedSum_cons, UInt32.toNat_add]
      omega
  rw [totalEncrypted, hloop es 0]
  exact congrArg (· % 4294967296) (Nat.zero_add _)

/-- The next offset in the data, which wraps. -/
theorem next_toNat (n : UInt32) (e : SubSampleInfo) :
    (n + (e.clearBytes.toUInt32 + e.encryptedBytes)).toNat = (n.toNat + span e) % 4294967296 := by
  rw [UInt32.toNat_add, UInt32.toNat_add, UInt16.toNat_toUInt32, span]
  omega

/-- The copies of a loop over entries, from offsets in the data and in the block on. -/
def loopCopies (blockAt : Nat → Nat) (index : Nat) (es : List SubSampleInfo) : List LoopCopy :=
  (List.range es.length).map fun i =>
    ⟨(index + total (es.take i)) % 4294967296 + (es.getD i ⟨0, 0⟩).clearBytes.toNat, blockAt (encryptedSum (es.take i)),
      (es.getD i ⟨0, 0⟩).encryptedBytes.toNat⟩

/-- A copy of at least one byte is in the data and in the block. -/
def CopyInside (dataSize blockSize : Nat) (c : LoopCopy) : Prop :=
  0 < c.size → c.data + c.size ≤ dataSize ∧ c.block + c.size ≤ blockSize

/-- The encrypted bytes do not wrap, each range with encrypted bytes ends in the data, its start counted in 32 bits, and
if there are any, there is a block for them. -/
structure LoopFits (allocate : UInt32 → Option (List UInt8)) (dataSize : Nat) (es : List SubSampleInfo) : Prop where
  sum : encryptedSum es < 4294967296
  ranges : ∀ i < es.length, 0 < (es.getD i ⟨0, 0⟩).encryptedBytes.toNat →
    total (es.take i) % 4294967296 + span (es.getD i ⟨0, 0⟩) ≤ dataSize
  allocated : 0 < encryptedSum es → (allocate (totalEncrypted es)).isSome = true

theorem encryptedSum_take_le {es : List SubSampleInfo} {i : Nat} (h : i < es.length) :
    encryptedSum (es.take i) + (es.getD i ⟨0, 0⟩).encryptedBytes.toNat ≤ encryptedSum es := by
  induction es generalizing i with
  | nil => exact absurd h (Nat.not_lt_zero i)
  | cons e es ih =>
    cases i with
    | zero =>
      rw [List.take_zero, encryptedSum_nil, List.getD_cons_zero, encryptedSum_cons]
      omega
    | succ i =>
      have hrest := ih (Nat.lt_of_succ_lt_succ h)
      rw [List.take_succ_cons, List.getD_cons_succ, encryptedSum_cons, encryptedSum_cons]
      omega

/-- The last range with encrypted bytes ends where all of them do. -/
theorem exists_last {es : List SubSampleInfo} (h : 0 < encryptedSum es) : ∃ i < es.length,
    0 < (es.getD i ⟨0, 0⟩).encryptedBytes.toNat ∧
      encryptedSum (es.take i) + (es.getD i ⟨0, 0⟩).encryptedBytes.toNat = encryptedSum es := by
  induction es with
  | nil => exact absurd h (Nat.lt_irrefl 0)
  | cons e es ih =>
    rw [encryptedSum_cons] at h
    by_cases hrest : 0 < encryptedSum es
    · obtain ⟨i, hi, hpos, hend⟩ := ih hrest
      refine ⟨i + 1, Nat.succ_lt_succ hi, hpos, ?_⟩
      rw [List.take_succ_cons, List.getD_cons_succ, encryptedSum_cons, encryptedSum_cons, Nat.add_assoc, hend]
    · refine ⟨0, Nat.zero_lt_succ _, ?_, ?_⟩
      · rw [List.getD_cons_zero]
        omega
      · rw [List.take_zero, encryptedSum_nil, List.getD_cons_zero, encryptedSum_cons]
        omega

theorem mem_loopCopies {blockAt : Nat → Nat} {index : Nat} {es : List SubSampleInfo} {c : LoopCopy} :
    c ∈ loopCopies blockAt index es ↔ ∃ i < es.length,
      (⟨(index + total (es.take i)) % 4294967296 + (es.getD i ⟨0, 0⟩).clearBytes.toNat,
        blockAt (encryptedSum (es.take i)), (es.getD i ⟨0, 0⟩).encryptedBytes.toNat⟩ : LoopCopy) = c := by
  rw [loopCopies, List.mem_map]
  simp only [List.mem_range]

section

variable {allocate : UInt32 → Option (List UInt8)} {dataSize : Nat} {es : List SubSampleInfo}

theorem block_le (hallocate : ∀ n block, allocate n = some block → block.length = n.toNat) :
    ((allocate (totalEncrypted es)).getD []).length ≤ encryptedSum es % 4294967296 := by
  cases hblock : allocate (totalEncrypted es) with
  | none => exact Nat.zero_le _
  | some block => exact Nat.le_of_eq ((hallocate _ _ hblock).trans (totalEncrypted_toNat es))

/-- With a block for all encrypted bytes, a loop that does not wrap in the block stays inside. -/
theorem loopCopies_inside (hallocate : ∀ n block, allocate n = some block → block.length = n.toNat)
    (h : LoopFits allocate dataSize es) {blockAt : Nat → Nat} (hblockAt : ∀ n < 4294967296, blockAt n = n) :
    ∀ c ∈ loopCopies blockAt 0 es, CopyInside dataSize ((allocate (totalEncrypted es)).getD []).length c := by
  intro c hc hpos
  obtain ⟨i, hi, rfl⟩ := mem_loopCopies.1 hc
  dsimp only at hpos ⊢
  have hle := encryptedSum_take_le hi
  have hrange := h.ranges i hi hpos
  have hsum := h.sum
  have hblock : ((allocate (totalEncrypted es)).getD []).length = encryptedSum es := by
    obtain ⟨block, hblock⟩ := Option.isSome_iff_exists.1 (h.allocated (by omega))
    rw [hblock, Option.getD_some, hallocate _ _ hblock, totalEncrypted_toNat, Nat.mod_eq_of_lt hsum]
  rw [hblockAt _ (by omega), hblock, Nat.zero_add]
  rw [span] at hrange
  omega

/-- The loop that fills the block stays inside exactly if it fits. -/
theorem loopCopies_inside_iff (hallocate : ∀ n block, allocate n = some block → block.length = n.toNat) :
    (∀ c ∈ loopCopies (0 + ·) 0 es, CopyInside dataSize ((allocate (totalEncrypted es)).getD []).length c) ↔
      LoopFits allocate dataSize es := by
  refine ⟨fun h => ?_, fun h => loopCopies_inside hallocate h fun n _ => Nat.zero_add n⟩
  have hcopy := fun i (hi : i < es.length) => h _ (mem_loopCopies.2 ⟨i, hi, rfl⟩)
  have hblock : ((allocate (totalEncrypted es)).getD []).length ≤ encryptedSum es % 4294967296 := block_le hallocate
  -- all encrypted bytes end in the block, so that their sum has not wrapped
  have hend : 0 < encryptedSum es → encryptedSum es ≤ ((allocate (totalEncrypted es)).getD []).length := by
    intro hpos
    obtain ⟨i, hi, hlast, hsum⟩ := exists_last hpos
    have hinside := (hcopy i hi hlast).2
    dsimp only at hinside
    omega
  refine ⟨?_, fun i hi hpos => ?_, fun hpos => ?_⟩
  · by_contra hwrap
    have hle := hend (by omega)
    have hmod := Nat.mod_lt (encryptedSum es) (show 0 < 4294967296 by decide)
    omega
  · have hinside := (hcopy i hi hpos).1
    dsimp only at hinside
    rw [Nat.zero_add] at hinside
    rw [span]
    omega
  · have hle := hend hpos
    cases hallocated : allocate (totalEncrypted es) with
    | none =>
      rw [hallocated] at hle
      exact absurd hpos (Nat.not_lt.2 hle)
    | some block => rfl

end

theorem gather_copies (data : List UInt8) (es : List SubSampleInfo) (s : GatherState) :
    (es.foldl (gatherStep data) s).copies = s.copies ++ loopCopies (s.iter + ·) s.index.toNat es := by
  induction es generalizing s with
  | nil => exact (List.append_nil _).symm
  | cons e es ih =>
    rw [List.foldl_cons, ih, gatherStep]
    dsimp only
    rw [List.append_assoc, loopCopies, loopCopies, List.length_cons, List.range_succ_eq_map, List.map_cons,
      List.map_map, List.singleton_append]
    congr 2
    · rw [List.take_zero, total_nil, encryptedSum_nil, Nat.add_zero, Nat.mod_eq_of_lt s.index.toNat_lt]
      rfl
    · refine List.map_congr_left fun i _ => ?_
      dsimp only [Function.comp]
      rw [List.take_succ_cons, List.getD_cons_succ, total_cons, encryptedSum_cons, next_toNat, Nat.mod_add_mod,
        Nat.add_assoc, Nat.add_assoc]

theorem scatter_copies (block : List UInt8) (es : List SubSampleInfo) (s : ScatterState) :
    (es.foldl (scatterStep block) s).copies =
      s.copies ++ loopCopies (fun n => (s.index.toNat + n) % 4294967296) s.total.toNat es := by
  induction es generalizing s with
  | nil => exact (List.append_nil _).symm
  | cons e es ih =>
    rw [List.foldl_cons, ih, scatterStep]
    dsimp only
    rw [List.append_assoc, loopCopies, loopCopies, List.length_cons, List.range_succ_eq_map, List.map_cons,
      List.map_map, List.singleton_append]
    congr 2
    · rw [List.take_zero, total_nil, encryptedSum_nil, Nat.add_zero, Nat.add_zero, Nat.mod_eq_of_lt s.total.toNat_lt,
        Nat.mod_eq_of_lt s.index.toNat_lt]
      rfl
    · refine List.map_congr_left fun i _ => ?_
      dsimp only [Function.comp]
      rw [List.take_succ_cons, List.getD_cons_succ, total_cons, encryptedSum_cons, next_toNat, Nat.mod_add_mod,
        UInt32.toNat_add, Nat.mod_add_mod, Nat.add_assoc, Nat.add_assoc]

/-! ## The loops as gathering and scattering -/

/-- Entries as ranges: what is clear is skipped. -/
def rangesOf (es : List SubSampleInfo) : List (Nat × Nat) :=
  es.map fun e => (e.clearBytes.toNat, e.encryptedBytes.toNat)

theorem extent_rangesOf (es : List SubSampleInfo) : Gather.extent (rangesOf es) = total es := by
  rw [Gather.extent, rangesOf, List.map_map]
  rfl

theorem size_rangesOf (es : List SubSampleInfo) : Gather.size (rangesOf es) = encryptedSum es := by
  rw [Gather.size, rangesOf, List.map_map]
  rfl

/-- The first loop gathers, as long as its offset does not wrap. -/
theorem gather_block {data : List UInt8} {es : List SubSampleInfo} {s : GatherState}
    (h : s.index.toNat + total es < 4294967296) : (es.foldl (gatherStep data) s).block =
      Gather.gatherFrom data (rangesOf es) s.index.toNat s.iter s.block := by
  induction es generalizing s with
  | nil => rfl
  | cons e es ih =>
    rw [total_cons] at h
    have hnext := next_toNat s.index e
    rw [Nat.mod_eq_of_lt (by omega)] at hnext
    rw [List.foldl_cons, ih (by rw [gatherStep]; dsimp only; omega), gatherStep]
    dsimp only
    rw [hnext]
    rfl

/-- The last loop scatters, as long as its offsets do not wrap. -/
theorem scatter_data {block : List UInt8} {es : List SubSampleInfo} {s : ScatterState}
    (h : s.total.toNat + total es < 4294967296) (hindex : s.index.toNat + encryptedSum es < 4294967296) :
    (es.foldl (scatterStep block) s).data =
      Gather.scatterFrom block (rangesOf es) s.total.toNat s.index.toNat s.data := by
  induction es generalizing s with
  | nil => rfl
  | cons e es ih =>
    rw [total_cons] at h
    rw [encryptedSum_cons] at hindex
    have hnext := next_toNat s.total e
    rw [Nat.mod_eq_of_lt (by omega)] at hnext
    have hblock : (s.index + e.encryptedBytes).toNat = s.index.toNat + e.encryptedBytes.toNat := by
      rw [UInt32.toNat_add]
      exact Nat.mod_eq_of_lt (by omega)
    rw [List.foldl_cons, ih (by rw [scatterStep]; dsimp only; omega) (by rw [scatterStep]; dsimp only; omega),
      scatterStep]
    dsimp only
    rw [hnext, hblock]
    rfl

theorem encryptedSum_le_total (es : List SubSampleInfo) : encryptedSum es ≤ total es := by
  rw [← size_rangesOf, ← extent_rangesOf]
  exact Gather.size_le_extent _

/-- Into a block of the size of the encrypted ranges, they are gathered. -/
theorem loop_gathers {data block : List UInt8} {es : List SubSampleInfo} (hfit : total es ≤ data.length)
    (hsum : total es < 4294967296) (hblock : block.length = encryptedSum es) :
    (es.foldl (gatherStep data) ⟨0, 0, block, []⟩).block = Gather.gather (rangesOf es) data := by
  have hgather : Gather.gatherFrom data (rangesOf es) 0 0 block =
      [] ++ Gather.gather (rangesOf es) data ++ block.drop (Gather.size (rangesOf es)) :=
    Gather.gatherFrom_eq (by rw [extent_rangesOf]; omega) [] block
  have hrest : block.drop (Gather.size (rangesOf es)) = [] :=
    List.drop_eq_nil_of_le (Nat.le_of_eq (by rw [hblock, size_rangesOf]))
  rw [hrest, List.append_nil] at hgather
  exact (gather_block (s := ⟨0, 0, block, []⟩) ((Nat.zero_add _).trans_lt hsum)).trans hgather

/-- From such a block, the ranges are replaced. -/
theorem loop_replaces {data block : List UInt8} {es : List SubSampleInfo} (hfit : total es ≤ data.length)
    (hsum : total es < 4294967296) (hblock : block.length = encryptedSum es) :
    Gather.Replaced (rangesOf es) block data (es.foldl (scatterStep block) ⟨0, 0, data, []⟩).data := by
  have hle := encryptedSum_le_total es
  have hsize : block.length = Gather.size (rangesOf es) := by rw [hblock, size_rangesOf]
  have hextent : Gather.extent (rangesOf es) ≤ data.length := by rwa [extent_rangesOf]
  have hscatter : Gather.scatterFrom block (rangesOf es) 0 0 data = [] ++ Gather.scatter (rangesOf es) block data :=
    Gather.scatterFrom_eq (by omega) [] hextent
  have hloop : (es.foldl (scatterStep block) ⟨0, 0, data, []⟩).data = Gather.scatterFrom block (rangesOf es) 0 0 data :=
    scatter_data (s := ⟨0, 0, data, []⟩) ((Nat.zero_add _).trans_lt hsum)
      ((Nat.zero_add _).trans_lt (Nat.lt_of_le_of_lt hle hsum))
  rw [hloop.trans hscatter]
  exact Gather.scatter_replaced hextent hsize

/-! ## Coming to the loops -/

/-- There is a session, and everything is there and can be mapped; the key id of the GStreamer adapter may be
missing. -/
structure MapsAll (needsKey : Bool) (session : Bool) (buffer : DataBuffer) (table : SizedBuffer)
    (IV keyID : Option GstBuffer) : Prop where
  session : session = true
  buffer : buffer.mappable = true
  iv : canMap IV = true
  key : canMap keyID = true ∨ needsKey = false ∧ keyID = none
  table : table.mappable = true

section

variable {malloc : UInt32 → Option (List UInt8)} {svp : OnceSvp} {decrypt : SessionCall → OpenCDMError × List UInt8}
  {session : Bool} {buffer : DataBuffer} {table : SizedBuffer} {subSampleCount : UInt32} {IV keyID : Option GstBuffer}
  {initWithLast15 : UInt32}

theorem gstreamer_maps (h : MapsAll false session buffer table IV keyID) :
    gstreamerSessionDecrypt malloc decrypt session buffer (some table) subSampleCount IV keyID initWithLast15 =
      decryptSubSamples malloc decrypt (sessionCall gstreamerScheme buffer.info IV keyID initWithLast15) buffer.bytes
        table.readable subSampleCount := by
  obtain ⟨rfl, hbuffer, hiv, hkey, htable⟩ := h
  have hkeyID : (keyID.isSome && !canMap keyID) = false := by
    rcases hkey with hkey | ⟨-, rfl⟩
    · rw [hkey, Bool.not_true, Bool.and_false]
    · rfl
  unfold gstreamerSessionDecrypt
  rw [hbuffer, hiv, hkeyID]
  exact if_pos htable

/-- Otherwise nothing is copied, and the call fails. -/
theorem gstreamer_fails (h : ¬ MapsAll false session buffer table IV keyID) :
    ∃ e ≠ errorNone, gstreamerSessionDecrypt malloc decrypt session buffer (some table) subSampleCount IV keyID
      initWithLast15 = { result := e, data := buffer.bytes } := by
  have hinvalid : errorInvalidDecryptBuffer ≠ errorNone := by decide
  unfold gstreamerSessionDecrypt
  split
  · exact ⟨_, by decide, rfl⟩
  · rename_i hsession
    split
    · rename_i hall
      cases hall
    · split
      · exact ⟨_, hinvalid, rfl⟩
      · rename_i hbuffer
        split
        · exact ⟨_, hinvalid, rfl⟩
        · rename_i hiv
          split
          · exact ⟨_, hinvalid, rfl⟩
          · rename_i hkey
            dsimp only
            split
            · rename_i htable
              refine absurd ⟨Bool.eq_true_of_not_eq_false hsession, Bool.eq_true_of_not_eq_false hbuffer,
                Bool.eq_true_of_not_eq_false hiv, ?_, htable⟩ h
              cases keyID with
              | none => exact .inr ⟨rfl, rfl⟩
              | some key => exact .inl (by simpa using hkey)
            · exact ⟨_, hinvalid, rfl⟩

theorem once_maps (h : MapsAll true session buffer table IV keyID) :
    gstreamerSessionDecryptOnce svp decrypt session buffer (some table) subSampleCount IV keyID initWithLast15 =
      decryptSubSamplesOnce svp decrypt (sessionCall onceScheme buffer.info IV keyID initWithLast15) buffer table
        subSampleCount := by
  obtain ⟨rfl, hbuffer, hiv, hkey, htable⟩ := h
  have hkeyID : canMap keyID = true := hkey.resolve_right fun h => Bool.noConfusion h.1
  unfold gstreamerSessionDecryptOnce
  rw [hbuffer, hiv, hkeyID]
  exact if_pos htable

theorem once_fails (h : ¬ MapsAll true session buffer table IV keyID) :
    ∃ e ≠ errorNone, gstreamerSessionDecryptOnce svp decrypt session buffer (some table) subSampleCount IV keyID
      initWithLast15 = { result := e, data := buffer.bytes } := by
  have hinvalid : errorInvalidDecryptBuffer ≠ errorNone := by decide
  unfold gstreamerSessionDecryptOnce
  split
  · exact ⟨_, by decide, rfl⟩
  · rename_i hsession
    split
    · exact ⟨_, hinvalid, rfl⟩
    · rename_i hbuffer
      split
      · rename_i hall
        cases hall
      · split
        · exact ⟨_, hinvalid, rfl⟩
        · rename_i hiv
          split
          · exact ⟨_, hinvalid, rfl⟩
          · rename_i hkey
            dsimp only
            split
            · rename_i htable
              exact absurd ⟨Bool.eq_true_of_not_eq_false hsession, Bool.eq_true_of_not_eq_false hbuffer,
                Bool.eq_true_of_not_eq_false hiv, .inl (Bool.eq_true_of_not_eq_false hkey), htable⟩ h
            · exact ⟨_, hinvalid, rfl⟩

/-- Without a table there is no loop. -/
theorem gstreamer_copies_none : (gstreamerSessionDecrypt malloc decrypt session buffer none subSampleCount IV keyID
    initWithLast15).copies = [] := by
  unfold gstreamerSessionDecrypt
  dsimp only
  repeat' split
  all_goals rfl

theorem once_copies_none : (gstreamerSessionDecryptOnce svp decrypt session buffer none subSampleCount IV keyID
    initWithLast15).copies = [] := by
  unfold gstreamerSessionDecryptOnce
  dsimp only
  repeat' split
  all_goals rfl

/-! ## Ranges in the frame -/

/-- For a table of ranges in the frame, of less than 2^32 bytes, the CDM gets the encrypted ranges in order, and each of
them is replaced by its part of what the CDM makes of the block, and nothing else. -/
theorem ranges_replaced {ps : List SubSampleInfo} (hpairs : pairs table.readable subSampleCount.toNat = some ps)
    (hfit : total ps ≤ buffer.bytes.length) (hsum : total ps < 4294967296)
    (hmalloc : ((malloc (totalEncrypted ps)).getD []).length = (totalEncrypted ps).toNat)
    (hdecrypt : ∀ call, (decrypt call).2.length = call.data.length) :
    let o := gstreamerSessionDecrypt malloc decrypt session buffer (some table) subSampleCount IV keyID initWithLast15
    (MapsAll false session buffer table IV keyID → ∃ call, o.call = some call ∧ o.result = (decrypt call).1 ∧
      call.data = ((List.range (rangesOf ps).length).flatMap fun i =>
        (buffer.bytes.drop (Gather.start (rangesOf ps) i)).take ((rangesOf ps).getD i (0, 0)).2) ∧
      call.dataLength.toNat = call.data.length ∧
      Gather.Replaced (rangesOf ps) (decrypt call).2 buffer.bytes o.data) ∧
    (¬ MapsAll false session buffer table IV keyID →
      o.result ≠ errorNone ∧ o.call = none ∧ o.data = buffer.bytes) := by
  intro o
  constructor
  · intro hmaps
    have hentries : entriesRead table.readable subSampleCount = ps := readVars_pairs _ hpairs
    have htotal : (totalEncrypted ps).toNat = encryptedSum ps := by
      rw [totalEncrypted_toNat]
      exact Nat.mod_eq_of_lt (Nat.lt_of_le_of_lt (encryptedSum_le_total ps) hsum)
    have hblock := loop_gathers hfit hsum (hmalloc.trans htotal)
    have hlength : (Gather.gather (rangesOf ps) buffer.bytes).length = encryptedSum ps := by
      rw [Gather.gather_length (by rwa [extent_rangesOf]), size_rangesOf]
    have ho : o = decryptSubSamples malloc decrypt (sessionCall gstreamerScheme buffer.info IV keyID initWithLast15)
        buffer.bytes table.readable subSampleCount := gstreamer_maps hmaps
    rw [decryptSubSamples_eq, hentries] at ho
    dsimp only at ho
    rw [hblock] at ho
    refine ⟨sessionCall gstreamerScheme buffer.info IV keyID initWithLast15 (Gather.gather (rangesOf ps) buffer.bytes)
      (totalEncrypted ps), congrArg SessionOutcome.call ho, congrArg SessionOutcome.result ho, Gather.gather_eq _ _,
      htotal.trans hlength.symm, ?_⟩
    rw [ho]
    exact loop_replaces hfit hsum ((hdecrypt _).trans hlength)
  · intro hmaps
    obtain ⟨e, he, ho⟩ : ∃ e ≠ errorNone, o = { result := e, data := buffer.bytes } := gstreamer_fails hmaps
    rw [ho]
    exact ⟨he, rfl, rfl⟩

end

def exampleFrame (bytes : List UInt8) : DataBuffer := ⟨⟨1, bytes, true⟩, none⟩

def exampleTable (bytes : List UInt8) : SizedBuffer := ⟨2, bytes, true⟩

def exampleIV : GstBuffer := ⟨3, [0], true, by decide⟩

def zeroBlock (n : UInt32) : Option (List UInt8) := some (List.replicate n.toNat 0)

/-- A CDM that adds one to every byte. -/
def addOne (call : SessionCall) : OpenCDMError × List UInt8 := (errorNone, call.data.map (· + 1))

/-- Two ranges with an empty one between them, and a byte behind them. -/
theorem ranges_replaced_two :
    let table := exampleTable [0, 1, 0, 0, 0, 2, 0, 0, 0, 0, 0, 0, 0, 1, 0, 0, 0, 1]
    let ps : List SubSampleInfo := [⟨1, 2⟩, ⟨0, 0⟩, ⟨1, 1⟩]
    let frame := exampleFrame [10, 20, 30, 40, 50, 60]
    let o := gstreamerSessionDecrypt zeroBlock addOne true frame (some table) 3 (some exampleIV) none 0
    o.data = [10, 21, 31, 40, 51, 60] ∧ ∃ call, o.call = some call ∧ o.result = (addOne call).1 ∧
      call.data = ((List.range (rangesOf ps).length).flatMap fun i =>
        (frame.bytes.drop (Gather.start (rangesOf ps) i)).take ((rangesOf ps).getD i (0, 0)).2) ∧
      call.dataLength.toNat = call.data.length ∧
      Gather.Replaced (rangesOf ps) (addOne call).2 frame.bytes o.data := by
  intro table ps frame o
  have hmalloc : ((zeroBlock (totalEncrypted ps)).getD []).length = (totalEncrypted ps).toNat := List.length_replicate
  have hpairs : pairs table.readable (3 : UInt32).toNat = some ps := by decide +kernel
  have hfit : total ps ≤ frame.bytes.length := by decide
  have hdecrypt : ∀ call, (addOne call).2.length = call.data.length := fun _ => List.length_map _
  have hmaps : MapsAll false true frame table (some exampleIV) none := ⟨rfl, rfl, rfl, .inr ⟨rfl, rfl⟩, rfl⟩
  exact ⟨by decide +kernel, (ranges_replaced hpairs hfit (by decide) hmalloc hdecrypt).1 hmaps⟩

/-! ## Copies inside -/

/-- The loops touch only bytes of the frame and of the block, or the call fails without a copy. -/
def CopiesSafe (buffer : DataBuffer) (o : SessionOutcome) : Prop :=
  (∀ c ∈ o.copies, CopyInside buffer.bytes.length o.blockSize c) ∨ o.result ≠ errorNone ∧ o.copies = []

theorem copiesSafe_iff {buffer : DataBuffer} {o : SessionOutcome} :
    CopiesSafe buffer o ↔ ∀ c ∈ o.copies, CopyInside buffer.bytes.length o.blockSize c := by
  refine ⟨fun h c hc => ?_, .inl⟩
  rcases h with h | ⟨-, hempty⟩
  · exact h c hc
  · rw [hempty] at hc
    cases hc

theorem copiesSafe_of_empty {buffer : DataBuffer} {o : SessionOutcome} (h : o.copies = []) : CopiesSafe buffer o := by
  refine copiesSafe_iff.2 fun c hc => ?_
  rw [h] at hc
  cases hc

section

variable {malloc : UInt32 → Option (List UInt8)} {svp : OnceSvp} {decrypt : SessionCall → OpenCDMError × List UInt8}
  {call : List UInt8 → UInt32 → SessionCall} {buffer : DataBuffer}

theorem subSamples_safe_iff (hmalloc : ∀ n block, malloc n = some block → block.length = n.toNat)
    (table : List UInt8) (subSampleCount : UInt32) :
    CopiesSafe buffer (decryptSubSamples malloc decrypt call buffer.bytes table subSampleCount) ↔
      LoopFits malloc buffer.bytes.length (entriesRead table subSampleCount) := by
  rw [copiesSafe_iff, decryptSubSamples_eq]
  dsimp only
  rw [gather_copies, scatter_copies, List.nil_append, List.nil_append]
  refine ⟨fun h => (loopCopies_inside_iff hmalloc).1 fun c hc => h c (List.mem_append_left _ hc), fun h c hc => ?_⟩
  rcases List.mem_append.1 hc with hc | hc
  · exact (loopCopies_inside_iff hmalloc).2 h c hc
  · refine loopCopies_inside hmalloc h (fun n hn => ?_) c hc
    rw [UInt32.toNat_zero, Nat.zero_add, Nat.mod_eq_of_lt hn]

theorem subSamplesOnce_safe_iff (hallocate : ∀ n block, svp.allocate n = some block → block.length = n.toNat)
    (table : SizedBuffer) (subSampleCount : UInt32) :
    CopiesSafe buffer (decryptSubSamplesOnce svp decrypt call buffer table subSampleCount) ↔
      (0 < encryptedSum (entriesRead table.readable subSampleCount) % 4294967296 →
        LoopFits svp.allocate buffer.bytes.length (entriesRead table.readable subSampleCount)) := by
  have hfirst : readVars table.readable subSampleCount.toNat 0 ⟨0, 0⟩ = entriesRead table.readable subSampleCount := rfl
  have hsecond := readVars_again table.readable subSampleCount (unset_zero table.readable)
  have htotal : totalEncrypted (entriesRead table.readable subSampleCount) > 0 ↔
      0 < encryptedSum (entriesRead table.readable subSampleCount) % 4294967296 := by
    rw [gt_iff_lt, UInt32.lt_iff_toNat_lt, totalEncrypted_toNat, UInt32.toNat_zero]
  rw [← htotal]
  dsimp only [decryptSubSamplesOnce]
  rw [hfirst, hsecond]
  split
  · rename_i hpos
    rw [copiesSafe_iff, forall_prop_of_true hpos]
    dsimp only
    rw [gather_copies]
    exact loopCopies_inside_iff hallocate
  · rename_i hzero
    exact ⟨fun _ hpos => absurd hpos hzero, fun _ => copiesSafe_of_empty rfl⟩

/-- The loops of either adapter stay inside exactly if, once a call comes to them, its table fits; the RDK adapter comes
to its loop only if the sum in 32 bits is not zero. -/
theorem copies_inside_iff (hmalloc : ∀ n block, malloc n = some block → block.length = n.toNat)
    (hallocate : ∀ n block, svp.allocate n = some block → block.length = n.toNat) (session : Bool)
    (subSample : Option SizedBuffer) (subSampleCount : UInt32) (IV keyID : Option GstBuffer) (initWithLast15 : UInt32) :
    (CopiesSafe buffer
        (gstreamerSessionDecrypt malloc decrypt session buffer subSample subSampleCount IV keyID initWithLast15) ↔
      ∀ table, subSample = some table → MapsAll false session buffer table IV keyID →
        LoopFits malloc buffer.bytes.length (entriesRead table.readable subSampleCount)) ∧
    (CopiesSafe buffer
        (gstreamerSessionDecryptOnce svp decrypt session buffer subSample subSampleCount IV keyID initWithLast15) ↔
      ∀ table, subSample = some table → MapsAll true session buffer table IV keyID →
        0 < encryptedSum (entriesRead table.readable subSampleCount) % 4294967296 →
          LoopFits svp.allocate buffer.bytes.length (entriesRead table.readable subSampleCount)) := by
  cases subSample with
  | none =>
    exact ⟨iff_of_true (copiesSafe_of_empty gstreamer_copies_none) (fun _ h => nomatch h),
      iff_of_true (copiesSafe_of_empty once_copies_none) (fun _ h => nomatch h)⟩
  | some table =>
    simp only [Option.some.injEq, forall_eq']
    constructor
    · by_cases hmaps : MapsAll false session buffer table IV keyID
      · rw [gstreamer_maps hmaps, forall_prop_of_true hmaps]
        exact subSamples_safe_iff hmalloc _ _
      · obtain ⟨e, -, ho⟩ := gstreamer_fails hmaps
        rw [ho]
        exact iff_of_true (copiesSafe_of_empty rfl) fun h => absurd h hmaps
    · by_cases hmaps : MapsAll true session buffer table IV keyID
      · rw [once_maps hmaps, forall_prop_of_true hmaps]
        exact subSamplesOnce_safe_iff hallocate _ _
      · obtain ⟨e, -, ho⟩ := once_fails hmaps
        rw [ho]
        exact iff_of_true (copiesSafe_of_empty rfl) fun h => absurd h hmaps

end

/-- The SVP library with room for any block. -/
def exampleSvp : OnceSvp := ⟨zeroBlock, id⟩

theorem zeroBlock_length (n : UInt32) (block : List UInt8) (h : zeroBlock n = some block) : block.length = n.toNat := by
  cases h
  exact List.length_replicate

/-- Two encrypted bytes of a frame of four. -/
theorem copies_inside_pair :
    let table := exampleTable [0, 1, 0, 0, 0, 2]
    let frame := exampleFrame [10, 20, 30, 40]
    (CopiesSafe frame (gstreamerSessionDecrypt zeroBlock addOne true frame (some table) 1 (some exampleIV)
      (some exampleIV) 0) ↔
      ∀ t, some table = some t → MapsAll false true frame t (some exampleIV) (some exampleIV) →
        LoopFits zeroBlock frame.bytes.length (entriesRead t.readable 1)) ∧
    (CopiesSafe frame (gstreamerSessionDecryptOnce exampleSvp addOne true frame (some table) 1 (some exampleIV)
      (some exampleIV) 0) ↔
      ∀ t, some table = some t → MapsAll true true frame t (some exampleIV) (some exampleIV) →
        0 < encryptedSum (entriesRead t.readable 1) % 4294967296 →
          LoopFits exampleSvp.allocate frame.bytes.length (entriesRead t.readable 1)) :=
  copies_inside_iff zeroBlock_length zeroBlock_length true _ 1 (some exampleIV) (some exampleIV) 0

/-- A range of eight bytes in a frame of four: both adapters copy from behind the frame. -/
theorem range_behind_frame :
    let table := exampleTable [0, 0, 0, 0, 0, 8]
    let frame := exampleFrame [10, 20, 30, 40]
    ¬ CopiesSafe frame (gstreamerSessionDecrypt zeroBlock addOne true frame (some table) 1 (some exampleIV)
      (some exampleIV) 0) ∧
    ¬ CopiesSafe frame (gstreamerSessionDecryptOnce exampleSvp addOne true frame (some table) 1 (some exampleIV)
      (some exampleIV) 0) := by
  intro table frame
  constructor
  · intro h
    exact absurd ((copiesSafe_iff.1 h ⟨0, 0, 8⟩ (by decide +kernel)) (by decide)).1 (by decide +kernel)
  · intro h
    exact absurd ((copiesSafe_iff.1 h ⟨0, 0, 8⟩ (by decide +kernel)) (by decide)).1 (by decide +kernel)

end Ocdm.Adapter
