/-
The bytes that `Parse` (CENCParser.h) reads itself, and the slices it hands to `ParsePSSHBox`. The size field is read
before anything is known about how many bytes are left, the tag when four are, and the size of a box is not compared
with its header of eight bytes. These reads are all that a pass depends on besides what it calls (`parsePass_agree`).
All of it stays inside exactly when there is room for the reads at every offset that a pass starts at, and every box
there is at least as large as its header (`parseSafe_iff`).
-/
import Ocdm.Cenc.BoxLoop

namespace Ocdm.Cenc

open Bytes Comp

section

variable (mem : Memory) (data : Nat) (length offset : UInt16)

/-! ## The reads of a pass -/

/-- `n` addresses from `a` on. -/
def addresses (a n : Nat) : List Nat := (List.range n).map (a + ·)

/-- The reads of the probe for `<WRM`; `&&` stops at the first character that differs. -/
def probeReads : List Nat :=
  data :: if mem data = 0x3c then
    (data + 2) :: if mem (data + 2) = 0x57 then
      (data + 4) :: if mem (data + 4) = 0x52 then [data + 6] else []
    else []
  else []

/-- The size field is at most what is left, and four bytes are left: the tests in front of the tag. -/
def testsTag : Bool :=
  let remaining : Int := length.toNat - offset.toNat
  read32BE mem (data + offset.toNat) ≤ u32 remaining && decide (remaining ≥ 4)

/-- The addresses `Parse` reads in a pass, in order: the size field, the tag, and at the start the size with its low
byte first, the probe, and all bytes in the search for `"kids"`. -/
def parseReads : List Nat :=
  addresses (data + offset.toNat) 4 ++
  (if testsTag mem data length offset then addresses (data + (offset.toNat + 4)) 4 else []) ++
  if acceptsBox mem data length offset then []
  else if offset = 0 then
    addresses (data + offset.toNat) 4 ++ probeReads mem data ++
      if startsWRM mem data then [] else addresses data length.toNat
  else []

/-- The addresses are in the array. -/
def Inside (as : List Nat) : Prop := ∀ a ∈ as, data ≤ a ∧ a < data + length.toNat

/-- The slice behind the header of a box is in the box, and its length is passed on as it is. -/
structure SliceInside : Prop where
  nonneg : (0 : Int) ≤ sizeField mem data offset - 4 - 4
  kept : ((u16 (read32BE mem (data + offset.toNat) - 4 - 4).toNat).toNat : Int) = sizeField mem data offset - 4 - 4
  inside : 4 + 4 + (u16 (read32BE mem (data + offset.toNat) - 4 - 4).toNat).toNat ≤ sizeField mem data offset

structure PassSafe : Prop where
  reads : Inside data length (parseReads mem data length offset)
  slice : acceptsBox mem data length offset = true → SliceInside mem data offset

/-- There is room for what a pass reads: the size field; the tag, if the size field is at most what is left; the probe,
as far as it goes. A box is at least as large as its header. -/
structure RoomAt : Prop where
  size : offset.toNat + 4 ≤ length.toNat
  tag : offset.toNat + sizeField mem data offset ≤ length.toNat → offset.toNat + 8 ≤ length.toNat
  probe : offset = 0 → mem data = 0x3c → mem (data + 2) = 0x57 →
    5 ≤ length.toNat ∧ (mem (data + 4) = 0x52 → 7 ≤ length.toNat)
  header : acceptsBox mem data length offset = true → 8 ≤ sizeField mem data offset

end

/-- Every pass that `Parse` comes to is safe. -/
def ParseSafe (K : Type) [Thunder K] (mem : Memory) (data : Nat) (length : UInt16) : Prop :=
  data ≠ nullptr → length ≠ 0 → ∀ c : BoxCursor K, Passes (parsePass mem data length) ⟨0, []⟩ c →
    PassSafe mem data length c.offset

/-- Every offset that `Parse` starts a pass at has room. -/
def RoomEverywhere (K : Type) [Thunder K] (mem : Memory) (data : Nat) (length : UInt16) : Prop :=
  data ≠ nullptr → length ≠ 0 → ∀ c : BoxCursor K, Passes (parsePass mem data length) ⟨0, []⟩ c →
    RoomAt mem data length c.offset

section

variable {mem : Memory} {data : Nat} {length offset : UInt16}

/-! ## What a pass depends on -/

/-- Two memories are the same where a pass reads. -/
def AgreeOn (mem mem' : Memory) (as : List Nat) : Prop := ∀ a ∈ as, mem' a = mem a

variable {mem' : Memory}

theorem AgreeOn.append_left {xs ys : List Nat} (h : AgreeOn mem mem' (xs ++ ys)) : AgreeOn mem mem' xs :=
  fun a ha => h a (List.mem_append_left ys ha)

theorem AgreeOn.append_right {xs ys : List Nat} (h : AgreeOn mem mem' (xs ++ ys)) : AgreeOn mem mem' ys :=
  fun a ha => h a (List.mem_append_right xs ha)

theorem AgreeOn.get {a n : Nat} (h : AgreeOn mem mem' (addresses a n)) {i : Nat} (hi : i < n) :
    mem' (a + i) = mem (a + i) :=
  h (a + i) (List.mem_map.2 ⟨i, List.mem_range.2 hi, rfl⟩)

theorem AgreeOn.read32BE {a : Nat} (h : AgreeOn mem mem' (addresses a 4)) : read32BE mem' a = read32BE mem a := by
  have h0 : mem' a = mem a := h.get (i := 0) (by omega)
  unfold Bytes.read32BE
  rw [h0, h.get (i := 1) (by omega), h.get (i := 2) (by omega), h.get (i := 3) (by omega)]

theorem AgreeOn.read32LE {a : Nat} (h : AgreeOn mem mem' (addresses a 4)) : read32LE mem' a = read32LE mem a := by
  have h0 : mem' a = mem a := h.get (i := 0) (by omega)
  unfold Bytes.read32LE
  rw [h0, h.get (i := 1) (by omega), h.get (i := 2) (by omega), h.get (i := 3) (by omega)]

theorem AgreeOn.slice {a n : Nat} (h : AgreeOn mem mem' (addresses a n)) : slice mem' a n = slice mem a n :=
  List.map_congr_left fun _ hi => h.get (List.mem_range.1 hi)

theorem AgreeOn.holds {a : Nat} (bs : List UInt8) (h : AgreeOn mem mem' (addresses a bs.length)) :
    Holds mem' a bs ↔ Holds mem a bs := by
  rw [← (holds_slice mem' a bs.length).eq_iff (slice_length ..) |>.symm, h.slice,
    (holds_slice mem a bs.length).eq_iff (slice_length ..)]

/-- The tag is read only when the tests in front of it hold. -/
theorem acceptsBox_agree (hsize : AgreeOn mem mem' (addresses (data + offset.toNat) 4))
    (htag : testsTag mem data length offset = true → AgreeOn mem mem' (addresses (data + (offset.toNat + 4)) 4)) :
    acceptsBox mem' data length offset = acceptsBox mem data length offset := by
  have hsplit : ∀ m : Memory, acceptsBox m data length offset =
      (testsTag m data length offset && decide (Holds m (data + (offset.toNat + 4)) psshHeader)) := fun _ => rfl
  have htests : testsTag mem' data length offset = testsTag mem data length offset := by
    unfold testsTag
    rw [hsize.read32BE]
  rw [hsplit, hsplit, htests]
  cases ht : testsTag mem data length offset with
  | false => rfl
  | true => exact congrArg (true && ·) (decide_eq_decide.2 (AgreeOn.holds psshHeader (htag ht)))

theorem startsWRM_agree (h : AgreeOn mem mem' (probeReads mem data)) : startsWRM mem' data = startsWRM mem data := by
  unfold probeReads at h
  unfold startsWRM
  rw [h data (List.mem_cons_self ..)]
  by_cases h0 : mem data = 0x3c
  · rw [if_pos h0] at h
    rw [h (data + 2) (by simp)]
    by_cases h2 : mem (data + 2) = 0x57
    · rw [if_pos h2] at h
      rw [h (data + 4) (by simp)]
      by_cases h4 : mem (data + 4) = 0x52
      · rw [if_pos h4] at h
        rw [h (data + 6) (by simp)]
      · rw [beq_false_of_ne h4, Bool.and_false, Bool.false_and, Bool.false_and]
    · rw [beq_false_of_ne h2, Bool.and_false, Bool.false_and, Bool.false_and, Bool.false_and, Bool.false_and]
  · rw [beq_false_of_ne h0, Bool.false_and, Bool.false_and, Bool.false_and, Bool.false_and, Bool.false_and,
      Bool.false_and]

/-- What a pass calls does the same over both memories. -/
structure CalleesAgree (K : Type) [Thunder K] (mem mem' : Memory) (data : Nat) (length offset : UInt16) : Prop where
  box : acceptsBox mem data length offset = true →
    ∀ keys : List (KeyId K), boxCall mem' data offset keys = boxCall mem data offset keys
  xml : startsWRM mem data = true →
    ∀ keys : List (KeyId K), parseXMLBox mem' data length keys = parseXMLBox mem data length keys
  playReady : read32LE mem data = length.toUInt32 → ∀ keys : List (KeyId K),
    parsePlayReadyPSSHData mem' data length keys = parsePlayReadyPSSHData mem data length keys

/-- Data without a box: the probe, the size with its low byte first, and the search for `"kids"`. -/
theorem parseUnboxed_agree {K : Type} [Thunder K] (hsize : AgreeOn mem mem' (addresses data 4))
    (hprobe : AgreeOn mem mem' (probeReads mem data))
    (hall : ¬ startsWRM mem data = true → AgreeOn mem mem' (addresses data length.toNat))
    (hcallees : CalleesAgree K mem mem' data length offset) (keys : List (KeyId K)) :
    parseUnboxed mem' data length keys = parseUnboxed mem data length keys := by
  unfold parseUnboxed
  rw [startsWRM_agree hprobe, hsize.read32LE]
  by_cases hwrm : startsWRM mem data = true
  · rw [if_pos hwrm, if_pos hwrm]
    exact hcallees.xml hwrm keys
  · rw [if_neg hwrm, if_neg hwrm]
    have hjson : parseJSONInitData mem' data length keys = parseJSONInitData mem data length keys := by
      unfold parseJSONInitData
      rw [(hall hwrm).slice]
    rw [(hall hwrm).slice, hjson]
    by_cases hobject : read32LE mem data = length.toUInt32
    · rw [hcallees.playReady hobject]
    · rw [if_neg hobject, if_neg hobject]

/-- Two memories that are the same at the reads of a pass give the same pass, as far as `Parse` itself goes. -/
theorem parsePass_agree {K : Type} [Thunder K] {c : BoxCursor K}
    (hreads : AgreeOn mem mem' (parseReads mem data length c.offset))
    (hcallees : CalleesAgree K mem mem' data length c.offset) :
    parsePass mem' data length c = parsePass mem data length c := by
  have hsize : AgreeOn mem mem' (addresses (data + c.offset.toNat) 4) := hreads.append_left.append_left
  have haccepts : acceptsBox mem' data length c.offset = acceptsBox mem data length c.offset := by
    refine acceptsBox_agree hsize fun ht => ?_
    have htag := hreads.append_left.append_right
    rwa [if_pos ht] at htag
  have hnext : nextOffset mem' data c.offset = nextOffset mem data c.offset := by
    unfold nextOffset
    rw [hsize.read32BE]
  have hrest := hreads.append_right
  unfold parsePass
  rw [haccepts, hnext]
  by_cases ha : acceptsBox mem data length c.offset = true
  · have hbox := hcallees.box ha c.keys
    unfold boxCall at hbox
    rw [if_pos ha, if_pos ha]
    dsimp only
    rw [hbox]
  · rw [if_neg ha, if_neg ha]
    rw [if_neg ha] at hrest
    by_cases hzero : c.offset = 0
    · rw [if_pos hzero] at hrest
      have hstart : data + c.offset.toNat = data := by rw [hzero]; rfl
      rw [hstart] at hrest
      rw [if_pos hzero, if_pos hzero, parseUnboxed_agree hrest.append_left.append_left hrest.append_left.append_right
        (fun hwrm => by have hall := hrest.append_right; rwa [if_neg hwrm] at hall) hcallees]
    · rw [if_neg hzero, if_neg hzero]

/-! ## Addresses in the array -/

theorem inside_append {xs ys : List Nat} :
    Inside data length (xs ++ ys) ↔ Inside data length xs ∧ Inside data length ys := List.forall_mem_append

theorem inside_addresses {k n : Nat} (hn : 0 < n) :
    Inside data length (addresses (data + k) n) ↔ k + n ≤ length.toNat := by
  constructor
  · intro h
    have hlast := h (data + k + (n - 1)) (List.mem_map.2 ⟨n - 1, List.mem_range.2 (by omega), rfl⟩)
    omega
  · intro h a ha
    obtain ⟨i, hi, rfl⟩ := List.mem_map.1 ha
    have := List.mem_range.1 hi
    omega

theorem inside_probe (hfour : 4 ≤ length.toNat) : Inside data length (probeReads mem data) ↔
    (mem data = 0x3c → mem (data + 2) = 0x57 → 5 ≤ length.toNat ∧ (mem (data + 4) = 0x52 → 7 ≤ length.toNat)) := by
  unfold probeReads
  split
  · rename_i h0
    split
    · rename_i h2
      split
      · rename_i h4
        simp only [Inside, List.mem_cons, List.not_mem_nil, or_false, forall_eq_or_imp, forall_eq, h0, h2, h4,
          forall_const]
        omega
      · rename_i h4
        simp only [Inside, List.mem_cons, List.not_mem_nil, or_false, forall_eq_or_imp, forall_eq, h0, h2, h4,
          forall_const, false_implies, and_true]
        omega
    · rename_i h2
      simp only [Inside, List.mem_cons, List.not_mem_nil, or_false, forall_eq_or_imp, forall_eq, h2, false_implies,
        implies_true, iff_true]
      omega
  · rename_i h0
    simp only [Inside, List.mem_cons, List.not_mem_nil, or_false, forall_eq, h0, false_implies, iff_true]
    omega

/-! ## A pass -/

theorem testsTag_iff (ho : offset < length) : testsTag mem data length offset = true ↔
    offset.toNat + sizeField mem data offset ≤ length.toNat ∧ offset.toNat + 4 ≤ length.toNat := by
  have hlt := UInt16.lt_iff_toNat_lt.1 ho
  have hl := length.toNat_lt
  have hrest := u32_eq (z := (length.toNat : Int) - offset.toNat) (n := length.toNat - offset.toNat)
    (by omega) (by omega)
  simp only [testsTag, Bool.and_eq_true, decide_eq_true_eq, UInt32.le_iff_toNat_le, hrest, sizeField]
  omega

/-- The slice of an accepted box is inside when the box is at least as large as its header. -/
theorem sliceInside_iff (ho : offset < length) (ha : acceptsBox mem data length offset = true) :
    SliceInside mem data offset ↔ 8 ≤ sizeField mem data offset := by
  constructor
  · intro h
    have := h.nonneg
    omega
  · intro h
    have hle := size_le_of_accepts ho ha
    have hl := length.toNat_lt
    have hsub : ((read32BE mem (data + offset.toNat) - 4 - 4).toNat : Int) = sizeField mem data offset - 4 - 4 := by
      unfold sizeField at h ⊢
      have hfour : (4 : UInt32).toNat = 4 := rfl
      have h1 : (read32BE mem (data + offset.toNat) - 4).toNat = (read32BE mem (data + offset.toNat)).toNat - 4 :=
        UInt32.toNat_sub_of_le _ _ (UInt32.le_iff_toNat_le.2 (by omega))
      have h2 : (read32BE mem (data + offset.toNat) - 4 - 4).toNat =
          (read32BE mem (data + offset.toNat) - 4).toNat - 4 :=
        UInt32.toNat_sub_of_le _ _ (UInt32.le_iff_toNat_le.2 (by omega))
      omega
    have hnarrow := u16_eq (z := ((read32BE mem (data + offset.toNat) - 4 - 4).toNat : Int)) rfl (by omega)
    exact ⟨by omega, by omega, by omega⟩

/-- The reads in a row, each with its room. -/
theorem inside_parseReads : Inside data length (parseReads mem data length offset) ↔
    offset.toNat + 4 ≤ length.toNat ∧
      (testsTag mem data length offset = true → offset.toNat + 4 + 4 ≤ length.toNat) ∧
      (acceptsBox mem data length offset = false → offset = 0 → Inside data length (probeReads mem data)) := by
  unfold parseReads
  rw [inside_append, inside_append, inside_addresses (by omega), and_assoc]
  refine and_congr_right fun hfour => and_congr ?_ ?_
  · split
    · rename_i ht
      rw [inside_addresses (by omega)]
      exact ⟨fun h _ => h, fun h => h ht⟩
    · rename_i ht
      exact iff_of_true (fun a ha => by cases ha) fun h => absurd h ht
  · split
    · rename_i ha
      exact iff_of_true (fun a h => by cases h) fun hno => absurd (ha.symm.trans hno) (by decide)
    · rename_i ha
      split
      · rename_i hzero
        have hall : Inside data length (addresses (data + 0) length.toNat) :=
          (inside_addresses (by omega)).2 (by omega)
        rw [inside_append, inside_append, inside_addresses (by omega)]
        constructor
        · intro h _ _
          exact h.1.2
        · intro h
          refine ⟨⟨hfour, h (Bool.eq_false_iff.2 ha) hzero⟩, ?_⟩
          split
          · exact fun a ha => by cases ha
          · exact hall
      · rename_i hzero
        exact iff_of_true (fun a h => by cases h) fun _ h => absurd h hzero

/-- A pass is safe exactly when there is room. -/
theorem passSafe_iff (ho : offset < length) : PassSafe mem data length offset ↔ RoomAt mem data length offset := by
  have htag : testsTag mem data length offset = true ↔
      offset.toNat + sizeField mem data offset ≤ length.toNat ∧ offset.toNat + 4 ≤ length.toNat := testsTag_iff ho
  constructor
  · rintro ⟨hr, hslice⟩
    obtain ⟨hsize, htagRoom, hprobe⟩ := inside_parseReads.1 hr
    refine ⟨hsize, fun hle => htagRoom (htag.2 ⟨hle, hsize⟩), fun hzero h0 => ?_, fun ha =>
      (sliceInside_iff ho ha).1 (hslice ha)⟩
    -- a size field that starts with `<` is larger than any array
    have hno : acceptsBox mem data length offset = false := by
      refine Bool.eq_false_iff.2 fun ha => ?_
      have hle := size_le_of_accepts ho ha
      have hl := length.toNat_lt
      have hbig := read32BE_toNat mem (data + offset.toNat)
      unfold sizeField at hle
      rw [hbig, hzero] at hle
      rw [UInt16.toNat_zero, Nat.add_zero, h0] at hle
      have : (0x3c : UInt8).toNat = 0x3c := rfl
      omega
    exact (inside_probe (by omega)).1 (hprobe hno hzero) h0
  · intro h
    refine ⟨inside_parseReads.2 ⟨h.size, fun ht => h.tag (htag.1 ht).1, fun _ hzero => ?_⟩, fun ha =>
      (sliceInside_iff ho ha).2 (h.header ha)⟩
    exact (inside_probe (by have := h.size; omega)).2 (h.probe hzero)

/-! ## Every pass -/

/-- `Parse` reads inside the array and passes on slices inside their boxes exactly when there is room at every offset
it starts a pass at. -/
theorem parseSafe_iff (K : Type) [Thunder K] (mem : Memory) (data : Nat) (length : UInt16) :
    ParseSafe K mem data length ↔ RoomEverywhere K mem data length := by
  constructor
  · intro h hd hl c hc
    exact (passSafe_iff (walk_lt (walk_of_passes hd hl hc))).1 (h hd hl c hc)
  · intro h hd hl c hc
    exact (passSafe_iff (walk_lt (walk_of_passes hd hl hc))).2 (h hd hl c hc)

/-! ## A short array -/

/-- Three bytes: the size field is read up to the fourth. -/
theorem short_input_read : ¬ ∀ (mem : Memory) (data : Nat) (length : UInt16), ParseSafe Kid mem data length := by
  intro h
  have hpass := h (place 1 [0, 0, 0] 0) 1 3 (by decide) (by decide) ⟨0, []⟩ .refl
  have hroom := ((passSafe_iff (by decide)).1 hpass).size
  exact absurd hroom (by decide)

end

end Ocdm.Cenc
