/-
Subsample maps of the RDK adapter (open_cdm_adapter.cpp): the loop that reads the table of a frame with
a `GstByteReader`, `extend_subsample_map` and `validate_subsample_map`. The reader leaves an entry as it
was allocated when the table runs out, and the totals wrap at 32 bits. A table that is long enough is
read as its big-endian pairs (`readTable_eq`), and extending a map appends clear entries that add up to
the bytes missing (`extend_eq`).
-/
import Ocdm.Exchange.Block
import Ocdm.Lib.Bytes

namespace Ocdm.Adapter

open Exchange (SubSampleInfo)

/-! ## Error codes -/

/-- `OpenCDMError` -/
abbrev OpenCDMError := UInt32

def errorNone : OpenCDMError := 0
def errorUnknown : OpenCDMError := 1
def errorInvalidSession : OpenCDMError := 0x80000003
def errorInvalidDecryptBuffer : OpenCDMError := 0x80000004
def errorOutOfMemory : OpenCDMError := 0x80000005
def errorFail : OpenCDMError := 0x80004005

/-! ## The byte reader -/

/-- `gst_byte_reader_get_uint16_be`: the value, if two bytes are left, and the position afterwards. -/
def getUint16BE (data : List UInt8) (pos : Nat) : Option UInt16 × Nat :=
  if pos + 2 ≤ data.length then
    (some (UInt16.ofNat ((data.getD pos 0).toNat * 256 + (data.getD (pos + 1) 0).toNat)), pos + 2)
  else (none, pos)

/-- `gst_byte_reader_get_uint32_be` -/
def getUint32BE (data : List UInt8) (pos : Nat) : Option UInt32 × Nat :=
  if pos + 4 ≤ data.length then
    (some (UInt32.ofNat ((data.getD pos 0).toNat * 16777216 + (data.getD (pos + 1) 0).toNat * 65536 +
      (data.getD (pos + 2) 0).toNat * 256 + (data.getD (pos + 3) 0).toNat)), pos + 4)
  else (none, pos)

/-! ## Reading a table -/

/-- The reader's position, the entries filled so far and the totals. -/
structure Table where
  pos : Nat
  entries : List SubSampleInfo
  totalEncryptedBytes : UInt32
  totalMappedBytes : UInt32
deriving DecidableEq, Repr

/-- One pass of the loop; `fresh` is what the entry holds before it. -/
def readEntry (data : List UInt8) (fresh : SubSampleInfo) (t : Table) : Table :=
  let clear := getUint16BE data t.pos
  let encrypted := getUint32BE data clear.2
  -- a read that fails leaves its half of the entry as it was allocated
  let entry : SubSampleInfo := ⟨clear.1.getD fresh.clearBytes, encrypted.1.getD fresh.encryptedBytes⟩
  { pos := encrypted.2
    entries := t.entries ++ [entry]
    totalEncryptedBytes := t.totalEncryptedBytes + entry.encryptedBytes
    totalMappedBytes := t.totalMappedBytes + (entry.clearBytes.toUInt32 + entry.encryptedBytes) }

/-- The loop over `count` entries of an array that holds `heap` when it is allocated. -/
def readTable (data : List UInt8) (heap : Nat → SubSampleInfo) : Nat → Table
  | 0 => ⟨0, [], 0, 0⟩
  | count + 1 => readEntry data (heap count) (readTable data heap count)

/-! ## Extending and validating a map -/

/-- A subsample array with its count. -/
structure SubMap where
  entries : List SubSampleInfo
  count : UInt32
deriving DecidableEq, Repr

/-- The loop that counts the extra entries; `fuel` bounds its passes. -/
def extraSubsamples : Nat → UInt32 → UInt32 → UInt32
  | 0, _, extra => extra
  | fuel + 1, additional, extra =>
    if additional > 0 then
      let clearBytes : UInt16 := if additional > 0xFFFF then 0xFFFF else additional.toUInt16
      extraSubsamples fuel (additional - clearBytes.toUInt32) (extra + 1)
    else extra

/-- The loop that fills all extra entries but the last. -/
def fillExtra : Nat → UInt32 → UInt32 → UInt32 → List SubSampleInfo → List SubSampleInfo × UInt32
  | 0, _, _, totalBytes, entries => (entries, totalBytes)
  | fuel + 1, count, extra, totalBytes, entries =>
    if extra > 1 then
      fillExtra fuel count (extra - 1) (totalBytes + 0xFFFF) (entries.set (count - extra).toNat ⟨0xFFFF, 0⟩)
    else (entries, totalBytes)

/-- `realloc` of an array to `count` entries. -/
def reallocEntries (entries : List SubSampleInfo) (count : Nat) (heap : Nat → SubSampleInfo) : List SubSampleInfo :=
  entries.take count ++ (List.range (count - entries.length)).map fun i => heap (entries.length + i)

/-- `extend_subsample_map`; `alloc` says whether `realloc` succeeds. -/
def extendSubsampleMap (m : SubMap) (bufferSize totalBytes : UInt32) (heap : Nat → SubSampleInfo) (alloc : Bool) :
    OpenCDMError × SubMap :=
  let additional := bufferSize - totalBytes
  let extra := extraSubsamples additional.toNat additional 0
  let count := m.count + extra
  if alloc then
    let entries := reallocEntries m.entries count.toNat heap
    let (entries, totalBytes) := fillExtra extra.toNat count extra totalBytes entries
    (errorNone, ⟨entries.set (count - 1).toNat ⟨(bufferSize - totalBytes).toUInt16, 0⟩, count⟩)
  else (errorOutOfMemory, m)

/-- `validate_subsample_map` for an array that is there. -/
def validateSubsampleMap (m : SubMap) (frameSize totalMappedBytes : UInt32) (heap : Nat → SubSampleInfo)
    (alloc : Bool) : OpenCDMError × SubMap :=
  if frameSize = 0 ∨ m.count = 0 then (errorNone, m)
  else if frameSize = totalMappedBytes then (errorNone, m)
  else if frameSize > totalMappedBytes then extendSubsampleMap m frameSize totalMappedBytes heap alloc
  else (errorInvalidDecryptBuffer, m)

/-! ## Sums -/

/-- The bytes an entry covers. -/
def span (e : SubSampleInfo) : Nat := e.clearBytes.toNat + e.encryptedBytes.toNat

/-- The bytes a map covers. -/
def total (entries : List SubSampleInfo) : Nat := (entries.map span).sum

@[simp] theorem total_nil : total [] = 0 := rfl

@[simp] theorem total_append (xs ys : List SubSampleInfo) : total (xs ++ ys) = total xs + total ys := by
  simp [total]

@[simp] theorem total_cons (e : SubSampleInfo) (es : List SubSampleInfo) : total (e :: es) = span e + total es := by
  simp [total]

@[simp] theorem total_replicate (n : Nat) (e : SubSampleInfo) : total (List.replicate n e) = n * span e := by
  simp [total]

/-! ## A table that is long enough -/

/-- The pair at `pos`. -/
def pairAt (data : List UInt8) (pos : Nat) : SubSampleInfo :=
  ⟨UInt16.ofNat ((data.getD pos 0).toNat * 256 + (data.getD (pos + 1) 0).toNat),
    UInt32.ofNat ((data.getD (pos + 2) 0).toNat * 16777216 + (data.getD (pos + 3) 0).toNat * 65536 +
      (data.getD (pos + 4) 0).toNat * 256 + (data.getD (pos + 5) 0).toNat)⟩

/-- The first `count` pairs of a table, six bytes each, if there are as many. -/
def pairs (data : List UInt8) (count : Nat) : Option (List SubSampleInfo) :=
  if 6 * count ≤ data.length then some ((List.range count).map fun i => pairAt data (6 * i)) else none

theorem getUint16BE_some {data : List UInt8} {pos : Nat} (h : pos + 2 ≤ data.length) :
    getUint16BE data pos = (some (pairAt data pos).clearBytes, pos + 2) := if_pos h

theorem getUint32BE_some {data : List UInt8} {pos : Nat} (h : pos + 2 + 4 ≤ data.length) :
    getUint32BE data (pos + 2) = (some (pairAt data pos).encryptedBytes, pos + 6) := if_pos h

theorem readEntry_pair {data : List UInt8} {fresh : SubSampleInfo} {t : Table} (h : t.pos + 6 ≤ data.length) :
    readEntry data fresh t =
      { pos := t.pos + 6
        entries := t.entries ++ [pairAt data t.pos]
        totalEncryptedBytes := t.totalEncryptedBytes + (pairAt data t.pos).encryptedBytes
        totalMappedBytes := t.totalMappedBytes +
          ((pairAt data t.pos).clearBytes.toUInt32 + (pairAt data t.pos).encryptedBytes) } := by
  unfold readEntry
  rw [getUint16BE_some (by omega)]
  dsimp only
  rw [getUint32BE_some h]
  rfl

theorem pairs_some {data : List UInt8} {count : Nat} {ps : List SubSampleInfo} (h : pairs data count = some ps) :
    6 * count ≤ data.length ∧ ps = (List.range count).map fun i => pairAt data (6 * i) := by
  unfold pairs at h
  split at h
  · rename_i hroom
    exact ⟨hroom, (Option.some.inj h).symm⟩
  · cases h

/-- A table with room for its pairs is read as they are, and the total is their total modulo 2^32. -/
theorem readTable_eq {data : List UInt8} (heap : Nat → SubSampleInfo) {count : Nat} (h : 6 * count ≤ data.length) :
    (readTable data heap count).pos = 6 * count ∧
    (readTable data heap count).entries = (List.range count).map (fun i => pairAt data (6 * i)) ∧
    (readTable data heap count).totalMappedBytes.toNat =
      total ((List.range count).map fun i => pairAt data (6 * i)) % 4294967296 := by
  induction count with
  | zero => exact ⟨rfl, rfl, rfl⟩
  | succ count ih =>
    obtain ⟨hpos, hentries, htotal⟩ := ih (by omega)
    rw [readTable, readEntry_pair (by rw [hpos]; omega), hpos]
    refine ⟨by show 6 * count + 6 = _; omega, ?_, ?_⟩
    · show (readTable data heap count).entries ++ _ = _
      rw [hentries, List.range_succ, List.map_append]
      rfl
    · show ((readTable data heap count).totalMappedBytes + _).toNat = _
      rw [List.range_succ, List.map_append, total_append, UInt32.toNat_add, UInt32.toNat_add, htotal]
      simp only [List.map_cons, List.map_nil, total_cons, total_nil, span, UInt16.toNat_toUInt32]
      omega

/-- A table with room for its pairs is read the same whatever the array held. -/
theorem readTable_heap {data : List UInt8} (heap heap' : Nat → SubSampleInfo) {count : Nat}
    (h : 6 * count ≤ data.length) : readTable data heap count = readTable data heap' count := by
  induction count with
  | zero => rfl
  | succ count ih =>
    have hpos : (readTable data heap' count).pos = 6 * count := (readTable_eq heap' (by omega)).1
    rw [readTable, readTable, ih (by omega), readEntry_pair (by rw [hpos]; omega), readEntry_pair (by rw [hpos]; omega)]

/-! ## Extending a map -/

/-- The number of clear entries that cover `bytes` bytes. -/
def entriesFor (bytes : Nat) : Nat := (bytes + 65534) / 65535

theorem extraSubsamples_eq (fuel : Nat) (additional extra : UInt32) (hfuel : additional.toNat ≤ fuel)
    (hextra : extra.toNat + entriesFor additional.toNat < 4294967296) :
    (extraSubsamples fuel additional extra).toNat = extra.toNat + entriesFor additional.toNat := by
  induction fuel generalizing additional extra with
  | zero =>
    have h0 : additional.toNat = 0 := by omega
    rw [extraSubsamples, h0]
    rfl
  | succ fuel ih =>
    rw [extraSubsamples]
    unfold entriesFor at *
    split
    · rename_i hpos
      rw [gt_iff_lt, UInt32.lt_iff_toNat_lt, UInt32.toNat_zero] at hpos
      have hstep : (extra + 1).toNat = extra.toNat + 1 := by
        rw [UInt32.toNat_add, UInt32.toNat_one]
        omega
      dsimp only
      split
      · rename_i hbig
        rw [gt_iff_lt, UInt32.lt_iff_toNat_lt] at hbig
        have hbig : 65535 < additional.toNat := hbig
        have hsub : (additional - (0xFFFF : UInt16).toUInt32).toNat = additional.toNat - 65535 :=
          UInt32.toNat_sub_of_le _ _ (UInt32.le_iff_toNat_le.2 (by show 65535 ≤ _; omega))
        rw [ih _ _ (by omega) (by rw [hstep, hsub]; omega), hstep, hsub]
        omega
      · rename_i hsmall
        rw [gt_iff_lt, UInt32.lt_iff_toNat_lt, not_lt] at hsmall
        have hsmall : additional.toNat ≤ 65535 := hsmall
        have hclear : additional.toUInt16.toUInt32 = additional := by
          apply UInt32.toNat_inj.1
          rw [UInt16.toNat_toUInt32, UInt32.toNat_toUInt16]
          omega
        have hsub : (additional - additional.toUInt16.toUInt32).toNat = 0 := by rw [hclear, UInt32.sub_self]; rfl
        rw [ih _ _ (by omega) (by rw [hstep, hsub]; omega), hstep, hsub]
        omega
    · rename_i hzero
      rw [gt_iff_lt, UInt32.lt_iff_toNat_lt, UInt32.toNat_zero, not_lt] at hzero
      omega

/-- A clear entry of the greatest size. -/
def fullEntry : SubSampleInfo := ⟨0xFFFF, 0⟩

/-- The loop fills all entries of `rest` but the last. -/
theorem fillExtra_eq (fuel : Nat) (count extra totalBytes : UInt32) (done : List SubSampleInfo)
    (rest : List SubSampleInfo)
    (last : SubSampleInfo) (hfuel : rest.length ≤ fuel) (hextra : extra.toNat = rest.length + 1)
    (hcount : count.toNat = done.length + (rest.length + 1)) :
    fillExtra fuel count extra totalBytes (done ++ rest ++ [last]) =
      (done ++ List.replicate rest.length fullEntry ++ [last], totalBytes + UInt32.ofNat (65535 * rest.length)) := by
  induction fuel generalizing extra totalBytes done rest with
  | zero =>
    have hnil : rest = [] := List.eq_nil_of_length_eq_zero (by omega)
    subst hnil
    simp [fillExtra]
  | succ fuel ih =>
    rw [fillExtra]
    cases rest with
    | nil =>
      have h1 : ¬ extra > 1 := by
        rw [gt_iff_lt, UInt32.lt_iff_toNat_lt, hextra]
        simp
      rw [if_neg h1]
      simp
    | cons e rest =>
      have h1 : extra > 1 := by
        rw [gt_iff_lt, UInt32.lt_iff_toNat_lt, hextra, UInt32.toNat_one, List.length_cons]
        omega
      have hidx : (count - extra).toNat = done.length := by
        rw [UInt32.toNat_sub_of_le _ _ (UInt32.le_iff_toNat_le.2 (by omega)), hcount, hextra]
        omega
      have hset : (done ++ e :: rest ++ [last]).set (count - extra).toNat ⟨0xFFFF, 0⟩ =
          (done ++ [fullEntry]) ++ rest ++ [last] := by
        rw [hidx, List.append_assoc, List.set_append_right _ _ (le_refl _), Nat.sub_self]
        simp [fullEntry]
      have hextra' : (extra - 1).toNat = rest.length + 1 := by
        rw [UInt32.toNat_sub_of_le _ _ (UInt32.le_iff_toNat_le.2 (by rw [UInt32.toNat_one]; omega)), hextra,
          UInt32.toNat_one, List.length_cons]
        omega
      rw [if_pos h1, hset, ih (extra - 1) (totalBytes + 0xFFFF) (done ++ [fullEntry]) rest
        (by simpa using hfuel) hextra'
        (by rw [hcount, List.length_append, List.length_cons, List.length_singleton]; omega)]
      refine Prod.ext ?_ ?_
      · simp [List.replicate_succ]
      · apply UInt32.toNat_inj.1
        simp only [UInt32.toNat_add, UInt32.toNat_ofNat', List.length_cons, UInt32.reduceToNat]
        omega

/-- An entry that covers clear bytes only, and some. -/
def Clear (e : SubSampleInfo) : Prop := e.encryptedBytes = 0 ∧ 0 < e.clearBytes.toNat

/-- The clear entries that cover `bytes` bytes: full ones, and one for what is left. -/
def extraEntries (bytes : Nat) : List SubSampleInfo :=
  List.replicate (entriesFor bytes - 1) fullEntry ++ [⟨UInt16.ofNat (bytes - 65535 * (entriesFor bytes - 1)), 0⟩]

theorem extraEntries_last {bytes : Nat} (h : 0 < bytes) :
    0 < bytes - 65535 * (entriesFor bytes - 1) ∧ bytes - 65535 * (entriesFor bytes - 1) < 65536 := by
  unfold entriesFor; omega

theorem extraEntries_length {bytes : Nat} (h : 0 < bytes) : (extraEntries bytes).length = entriesFor bytes := by
  unfold extraEntries
  rw [List.length_append, List.length_replicate, List.length_singleton]
  unfold entriesFor; omega

theorem extraEntries_clear {bytes : Nat} (h : 0 < bytes) : ∀ e ∈ extraEntries bytes, Clear e := by
  obtain ⟨hpos, hlt⟩ := extraEntries_last h
  intro e he
  rcases List.mem_append.1 he with he | he
  · rw [List.eq_of_mem_replicate he]
    exact ⟨rfl, by decide⟩
  · rw [List.mem_singleton.1 he]
    refine ⟨rfl, ?_⟩
    rw [UInt16.toNat_ofNat', Nat.mod_eq_of_lt hlt]
    exact hpos

theorem extraEntries_total {bytes : Nat} (h : 0 < bytes) : total (extraEntries bytes) = bytes := by
  have hfull : span fullEntry = 65535 := by decide
  have hlast : span ⟨UInt16.ofNat (bytes - 65535 * (entriesFor bytes - 1)), 0⟩ =
      bytes - 65535 * (entriesFor bytes - 1) := by
    unfold span
    rw [UInt16.toNat_ofNat', Nat.mod_eq_of_lt (extraEntries_last h).2, UInt32.toNat_zero, Nat.add_zero]
  unfold extraEntries
  rw [total_append, total_replicate, total_cons, total_nil, hfull, hlast]
  unfold entriesFor; omega

/-- One clear entry covers up to 65535 bytes. -/
theorem extraEntries_small {bytes : Nat} (hpos : 0 < bytes) (h : bytes ≤ 65535) :
    extraEntries bytes = [⟨UInt16.ofNat bytes, 0⟩] := by
  have hone : entriesFor bytes = 1 := by unfold entriesFor; omega
  rw [extraEntries, hone]
  rfl

/-- More bytes take a full entry, and those for the rest. -/
theorem extraEntries_big {bytes : Nat} (h : 65535 < bytes) :
    extraEntries bytes = fullEntry :: extraEntries (bytes - 65535) := by
  obtain ⟨k, hk⟩ : ∃ k, entriesFor (bytes - 65535) = k + 1 :=
    ⟨entriesFor (bytes - 65535) - 1, by unfold entriesFor; omega⟩
  have hnext : entriesFor bytes = k + 1 + 1 := by unfold entriesFor at hk ⊢; omega
  have hrest : bytes - 65535 * (k + 1) = bytes - 65535 - 65535 * k := by omega
  rw [extraEntries, extraEntries, hnext, hk, Nat.add_sub_cancel, Nat.add_sub_cancel, hrest]
  rfl

/-- No clear entries cover the bytes with fewer of them. -/
theorem entriesFor_le {entries : List SubSampleInfo} (h : ∀ e ∈ entries, e.encryptedBytes = 0) :
    entriesFor (total entries) ≤ entries.length := by
  have hbound : total entries ≤ 65535 * entries.length := by
    induction entries with
    | nil => exact Nat.le_refl _
    | cons e es ih =>
      have hspan : span e ≤ 65535 := by
        have := e.clearBytes.toNat_lt
        rw [span, h e (List.mem_cons_self ..), UInt32.toNat_zero]
        omega
      have hrest := ih fun e' he' => h e' (List.mem_cons_of_mem _ he')
      rw [total_cons, List.length_cons]
      omega
  unfold entriesFor; omega

/-- An array that grows keeps its entries. -/
theorem reallocEntries_grow (entries : List SubSampleInfo) (k : Nat) (heap : Nat → SubSampleInfo) :
    ∃ rest last, reallocEntries entries (entries.length + (k + 1)) heap = entries ++ rest ++ [last] ∧
      rest.length = k := by
  refine ⟨(List.range k).map fun i => heap (entries.length + i), heap (entries.length + k), ?_, by simp⟩
  unfold reallocEntries
  rw [List.take_of_length_le (by omega), Nat.add_sub_cancel_left, List.range_succ, List.map_append, List.append_assoc]
  rfl

/-- `extend_subsample_map` appends the clear entries that cover the bytes missing. -/
theorem extend_eq {m : SubMap} {bufferSize totalBytes : UInt32} (heap : Nat → SubSampleInfo)
    (hm : m.entries.length = m.count.toNat) (hlt : totalBytes < bufferSize)
    (hcount : m.count.toNat + entriesFor (bufferSize.toNat - totalBytes.toNat) < 4294967296) :
    ∃ count : UInt32, count.toNat = m.count.toNat + entriesFor (bufferSize.toNat - totalBytes.toNat) ∧
      extendSubsampleMap m bufferSize totalBytes heap true =
        (errorNone, ⟨m.entries ++ extraEntries (bufferSize.toNat - totalBytes.toNat), count⟩) := by
  have hlt' := UInt32.lt_iff_toNat_lt.1 hlt
  have hadd : (bufferSize - totalBytes).toNat = bufferSize.toNat - totalBytes.toNat :=
    UInt32.toNat_sub_of_le _ _ (UInt32.le_of_lt hlt)
  generalize hd : bufferSize.toNat - totalBytes.toNat = d at *
  obtain ⟨k, hk⟩ : ∃ k, entriesFor d = k + 1 := ⟨entriesFor d - 1, by unfold entriesFor; omega⟩
  have hextra : (extraSubsamples d (bufferSize - totalBytes) 0).toNat = k + 1 := by
    rw [extraSubsamples_eq _ _ _ (by omega) (by rw [hadd, UInt32.toNat_zero]; omega), hadd, UInt32.toNat_zero, hk]
    omega
  have hcount' : (m.count + extraSubsamples d (bufferSize - totalBytes) 0).toNat = m.entries.length + (k + 1) := by
    rw [UInt32.toNat_add, hextra, hm]
    omega
  obtain ⟨rest, last, hrealloc, hrest⟩ := reallocEntries_grow m.entries k heap
  have hfill := fillExtra_eq (k + 1) _ _ totalBytes m.entries rest last (by omega) (by rw [hextra, hrest])
    (by rw [hcount', hrest])
  have hidx : (m.count + extraSubsamples d (bufferSize - totalBytes) 0 - 1).toNat =
      (m.entries ++ List.replicate k fullEntry).length := by
    rw [UInt32.toNat_sub_of_le _ _ (UInt32.le_iff_toNat_le.2 (by rw [hcount', UInt32.toNat_one]; omega)), hcount',
      UInt32.toNat_one, List.length_append, List.length_replicate]
    omega
  -- the bytes the full entries leave, in 16 bits
  have hlast : (bufferSize - (totalBytes + UInt32.ofNat (65535 * k))).toUInt16 = UInt16.ofNat (d - 65535 * k) := by
    apply UInt16.toNat_inj.1
    rw [UInt32.toNat_toUInt16, UInt32.toNat_sub, UInt32.toNat_add, UInt32.toNat_ofNat', UInt16.toNat_ofNat']
    unfold entriesFor at hk
    have := bufferSize.toNat_lt
    omega
  refine ⟨m.count + extraSubsamples d (bufferSize - totalBytes) 0, by rw [hcount', hm, hk], ?_⟩
  unfold extendSubsampleMap extraEntries
  dsimp only
  rw [hadd, hextra, if_pos rfl, hcount', hrealloc, hfill, hrest]
  dsimp only
  rw [hidx, List.set_append_right _ _ (le_refl _), Nat.sub_self, hk, Nat.add_sub_cancel, hlast, List.append_assoc]
  rfl

/-- What `validate_subsample_map` leaves of a map it accepts: the given entries, and clear entries for the
bytes of the frame that are missing. -/
theorem validate_eq {m m' : SubMap} {frameSize totalBytes : UInt32} {heap : Nat → SubSampleInfo} {alloc : Bool}
    (hm : m.entries.length = m.count.toNat) (hframe : 0 < frameSize.toNat) (hpos : 0 < m.count.toNat)
    (hcount : m.count.toNat + 65538 < 4294967296)
    (h : validateSubsampleMap m frameSize totalBytes heap alloc = (errorNone, m')) :
    ∃ extra : List SubSampleInfo, m'.entries = m.entries ++ extra ∧ m'.count.toNat = m.count.toNat + extra.length ∧
      totalBytes.toNat ≤ frameSize.toNat ∧ extra.length = entriesFor (frameSize.toNat - totalBytes.toNat) ∧
      (∀ e ∈ extra, Clear e) ∧ total extra = frameSize.toNat - totalBytes.toNat := by
  unfold validateSubsampleMap at h
  have hne : ¬ (frameSize = 0 ∨ m.count = 0) := by
    rintro (h0 | h0)
    · rw [h0] at hframe; exact absurd hframe (by decide)
    · rw [h0] at hpos; exact absurd hpos (by decide)
  rw [if_neg hne] at h
  split at h
  · rename_i heq
    cases h
    exact ⟨[], by simp, rfl, by rw [heq], by rw [heq]; simp [entriesFor], by simp, by rw [heq]; simp⟩
  · split at h
    · rename_i hgt
      have hlt := UInt32.lt_iff_toNat_lt.1 hgt
      cases alloc with
      | true =>
        obtain ⟨count, hcnt, hres⟩ := extend_eq heap hm hgt (by
          have := frameSize.toNat_lt
          unfold entriesFor; omega)
        have hpos : 0 < frameSize.toNat - totalBytes.toNat := Nat.sub_pos_of_lt hlt
        rw [hres] at h
        cases h
        exact ⟨_, rfl, by rw [extraEntries_length hpos]; exact hcnt, le_of_lt hlt, extraEntries_length hpos,
          extraEntries_clear hpos, extraEntries_total hpos⟩
      | false => exact absurd (congrArg Prod.fst h) (show errorOutOfMemory ≠ errorNone by decide)
    · exact absurd (congrArg Prod.fst h) (show errorInvalidDecryptBuffer ≠ errorNone by decide)

/-- Two maps accepted for the same entries are the same, whatever the array held. -/
theorem validate_unique {m m₁ m₂ : SubMap} {frameSize totalBytes : UInt32} {heap₁ heap₂ : Nat → SubSampleInfo}
    {alloc₁ alloc₂ : Bool} (hm : m.entries.length = m.count.toNat) (hcount : m.count.toNat + 65538 < 4294967296)
    (h₁ : validateSubsampleMap m frameSize totalBytes heap₁ alloc₁ = (errorNone, m₁))
    (h₂ : validateSubsampleMap m frameSize totalBytes heap₂ alloc₂ = (errorNone, m₂)) : m₁ = m₂ := by
  unfold validateSubsampleMap at h₁ h₂
  split at h₁
  · rename_i hempty
    rw [if_pos hempty] at h₂
    cases h₁; cases h₂; rfl
  · rename_i hempty
    rw [if_neg hempty] at h₂
    split at h₁
    · rename_i heq
      rw [if_pos heq] at h₂
      cases h₁; cases h₂; rfl
    · rename_i heq
      rw [if_neg heq] at h₂
      split at h₁
      · rename_i hgt
        rw [if_pos hgt] at h₂
        have hextend : ∀ {alloc : Bool} {heap : Nat → SubSampleInfo} {m' : SubMap},
            extendSubsampleMap m frameSize totalBytes heap alloc = (errorNone, m') →
            ∃ count : UInt32, count.toNat = m.count.toNat + entriesFor (frameSize.toNat - totalBytes.toNat) ∧
              m' = ⟨m.entries ++ extraEntries (frameSize.toNat - totalBytes.toNat), count⟩ := by
          intro alloc heap m' h
          cases alloc with
          | true =>
            obtain ⟨count, hcnt, hres⟩ := extend_eq heap hm hgt (by
              have := frameSize.toNat_lt
              unfold entriesFor; omega)
            rw [hres] at h
            cases h
            exact ⟨count, hcnt, rfl⟩
          | false => exact absurd (congrArg Prod.fst h) (show errorOutOfMemory ≠ errorNone by decide)
        obtain ⟨c₁, hc₁, rfl⟩ := hextend h₁
        obtain ⟨c₂, hc₂, rfl⟩ := hextend h₂
        rw [UInt32.toNat_inj.1 (hc₁.trans hc₂.symm)]
      · exact absurd (congrArg Prod.fst h₁) (show errorInvalidDecryptBuffer ≠ errorNone by decide)

end Ocdm.Adapter
