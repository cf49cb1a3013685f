/-
The guards of `ParsePSSHBox` (CENCParser.h): they compare the end of the key table and of the payload, computed in 32
bits, with the length of the box. `boxLayout` is what the box is then used for. It lies in the box exactly when neither
end, computed without a bound, is so large that it comes out short (`guarded_iff`).
-/
import Ocdm.Cenc.Parser

namespace Ocdm.Cenc

open Bytes Comp Thunder

section

variable (mem : Memory) (data : Nat) (length : UInt16)

/-! ## What a box is used for -/

/-- The parts that are used, none for a box without room for a header. -/
def boxLayout : PsshLayout := if length ≥ 24 then psshLayout mem data length else ⟨none, none⟩

/-- Where the keys of the table are read. -/
def tablePlaces (keyTable : Option (Nat × UInt32)) : List Nat :=
  keyTable.elim [] fun t => (List.range t.2.toNat).map fun i => t.1 + keyLength * i

variable {K : Type} [Thunder K]

/-- The key at a place. -/
def keyAt (system : SystemType) (a : Nat) : KeyId K := { id := keyId (slice mem a keyLength), systems := system.mask }

variable {mem data length}

theorem addTable_places (system : SystemType) (count a : Nat) (keys : List (KeyId K)) :
    addTable mem system count a keys =
      addAll keys (((List.range count).map fun i => a + keyLength * i).map (keyAt mem system)) := by
  induction count generalizing a keys with
  | zero => rfl
  | succ count ih =>
    have hnext : ∀ i, a + keyLength + keyLength * i = a + keyLength * (i + 1) := fun i => by
      rw [Nat.mul_succ, Nat.add_assoc, Nat.add_comm keyLength]
    rw [addTable, ih, List.range_succ_eq_map, List.map_cons, List.map_cons, addAll_cons]
    simp only [List.map_map, hnext]
    rfl

/-- The payload is decoded, and then the keys of the table are added. -/
theorem parsePSSHBox_eq (keys : List (KeyId K)) :
    parsePSSHBox mem data length keys = do
      let keys ← parsePayload mem (systemOf mem (data + 4)) (boxLayout mem data length).payload keys
      return addAll keys ((tablePlaces (boxLayout mem data length).keyTable).map
        (keyAt mem (systemOf mem (data + 4)))) := by
  have hnone : ∀ system : SystemType, parsePayload mem system none keys = pure keys :=
    fun system => by cases system <;> rfl
  unfold parsePSSHBox boxLayout
  split
  · obtain ⟨keyTable, payload⟩ := psshLayout mem data length
    cases keyTable with
    | some t =>
      rw [if_pos (.inl rfl)]
      simp only [addTable_places]
      rfl
    | none =>
      cases payload with
      | some p => exact if_pos (.inr rfl)
      | none =>
        rw [hnone]
        exact if_neg (by simp)
  · rw [hnone]
    rfl

/-! ## The guards over the integers -/

variable (mem data length)

/-- The end of the payload, from the start of the box. -/
def payloadEnd (size : UInt32) : Nat :=
  if mem data = 0 then 24 + size.toNat else 28 + 16 * (read32BE mem (data + 20)).toNat + size.toNat

/-- What is used lies in the box: the table with its keys, and the payload. -/
structure Guarded : Prop where
  table : ∀ a count, (boxLayout mem data length).keyTable = some (a, count) → 28 + 16 * count.toNat ≤ length.toNat
  payload : ∀ a size, (boxLayout mem data length).payload = some (a, size) → payloadEnd mem data size ≤ length.toNat
  keys : (tablePlaces (boxLayout mem data length).keyTable).length ≤ (length.toNat - 28) / 16
  reads : ∀ a ∈ tablePlaces (boxLayout mem data length).keyTable, data ≤ a ∧ a + 16 ≤ data + length.toNat

/-- The sums do not wrap where that makes them short. Sixteen times a count wraps to sixteen times its low 28
bits, which are short when a table of that many keys fits, or when they are all ones; a payload's end that
wraps is always short. -/
structure Unwrapped : Prop where
  v0 : mem data = 0 → 24 + (read32BE mem (data + 20)).toNat < 2 ^ 32
  count : mem data = 1 → (read32BE mem (data + 20)).toNat % 2 ^ 28 + 1 ≠ 2 ^ 28 ∧
    (2 ^ 28 ≤ (read32BE mem (data + 20)).toNat → length.toNat < 28 + 16 * ((read32BE mem (data + 20)).toNat % 2 ^ 28))
  v1 : mem data = 1 → 28 + 16 * (read32BE mem (data + 20)).toNat ≤ length.toNat →
    28 + 16 * (read32BE mem (data + 20)).toNat +
      (read32BE mem (data + 24 + 16 * (read32BE mem (data + 20)).toNat)).toNat < 2 ^ 32

variable {mem data length}

/-- A table that ends in the box: its keys are there. -/
theorem tablePlaces_fit (data : Nat) {count : UInt32} (h : 28 + 16 * count.toNat ≤ length.toNat) :
    (tablePlaces (some (data + 24, count))).length ≤ (length.toNat - 28) / 16 ∧
      ∀ a ∈ tablePlaces (some (data + 24, count)), data ≤ a ∧ a + 16 ≤ data + length.toNat := by
  refine ⟨?_, fun a ha => ?_⟩
  · show ((List.range count.toNat).map _).length ≤ _
    rw [List.length_map, List.length_range]
    omega
  · obtain ⟨i, hi, rfl⟩ := List.mem_map.1 (show a ∈ (List.range count.toNat).map _ from ha)
    have hi' := List.mem_range.1 hi
    unfold keyLength
    omega

/-- The guard of the table. -/
theorem table_guard (count : UInt32) (length : UInt16) :
    count * 16 + 28 > length.toUInt32 ↔ length.toNat < (16 * count.toNat + 28) % 2 ^ 32 := by
  rw [gt_iff_lt, UInt32.lt_iff_toNat_lt, UInt32.toNat_add, UInt32.toNat_mul, UInt16.toNat_toUInt32, Nat.mod_add_mod,
    Nat.mul_comm]
  rfl

/-- The guard of the payload. -/
theorem payload_guard (count size : UInt32) (length : UInt16) :
    size + 28 + count * 16 > length.toUInt32 ↔ length.toNat < (size.toNat + 28 + 16 * count.toNat) % 2 ^ 32 := by
  rw [gt_iff_lt, UInt32.lt_iff_toNat_lt, UInt32.toNat_add, UInt32.toNat_add, UInt32.toNat_mul, UInt16.toNat_toUInt32,
    ← Nat.add_mod, Nat.mul_comm]
  rfl

theorem payload_guard_v0 (size : UInt32) (length : UInt16) :
    size + 24 > length.toUInt32 ↔ length.toNat < (size.toNat + 24) % 2 ^ 32 := by
  rw [gt_iff_lt, UInt32.lt_iff_toNat_lt, UInt32.toNat_add, UInt16.toNat_toUInt32]
  rfl

theorem guarded_unused (h : boxLayout mem data length = ⟨none, none⟩) : Guarded mem data length := by
  refine ⟨fun a count hsome => ?_, fun a size hsome => ?_, ?_, fun a ha => ?_⟩
  · rw [h] at hsome
    cases hsome
  · rw [h] at hsome
    cases hsome
  · rw [h]
    exact Nat.zero_le _
  · rw [h] at ha
    cases ha

theorem boxLayout_v0 (hlength : length ≥ 24) (hv : mem data = 0) :
    boxLayout mem data length = ⟨none,
      if read32BE mem (data + 20) + 24 > length.toUInt32 then none
      else some (data + 24, read32BE mem (data + 20))⟩ := by
  rw [boxLayout, if_pos hlength, psshLayout, if_pos hv]
  rfl

theorem boxLayout_v1 (hlength : length ≥ 24) (hv : mem data = 1) {count : UInt32}
    (hcount : read32BE mem (data + 20) = count) : boxLayout mem data length =
      if count * 16 + 28 > length.toUInt32 then ⟨none, none⟩
      else ⟨some (data + 24, count),
        if read32BE mem (data + (28 + count * 16).toNat - 4) + 28 + count * 16 > length.toUInt32 then none
        else some (data + (28 + count * 16).toNat, read32BE mem (data + (28 + count * 16).toNat - 4))⟩ := by
  subst hcount
  rw [boxLayout, if_pos hlength, psshLayout, if_neg (by rw [hv]; decide), if_pos hv]
  rfl

/-- Where the table fits, the payload is where the integers say. -/
theorem tableEnd_toNat {count : UInt32} (h : 28 + 16 * count.toNat ≤ length.toNat) :
    (28 + count * 16).toNat = 28 + 16 * count.toNat := by
  have hlength := length.toNat_lt
  have hwrapped : (28 + count * 16).toNat = (28 + 16 * count.toNat) % 2 ^ 32 := by
    rw [UInt32.toNat_add, UInt32.toNat_mul, Nat.add_mod_mod, Nat.mul_comm]
    rfl
  rw [hwrapped]
  omega

theorem guarded_v0 (hlength : length ≥ 24) (hv : mem data = 0) :
    Guarded mem data length ↔ 24 + (read32BE mem (data + 20)).toNat < 2 ^ 32 := by
  have hlength' : 24 ≤ length.toNat := UInt16.le_iff_toNat_le.1 hlength
  have hlt := (read32BE mem (data + 20)).toNat_lt
  have hlayout := boxLayout_v0 hlength hv
  constructor
  · intro h
    by_contra hwraps
    have hguard : ¬ read32BE mem (data + 20) + 24 > length.toUInt32 := by
      rw [payload_guard_v0]
      omega
    have hend := h.payload (data + 24) (read32BE mem (data + 20)) (by rw [hlayout, if_neg hguard])
    rw [payloadEnd, if_pos hv] at hend
    have hlength16 := length.toNat_lt
    omega
  · intro h
    refine ⟨fun a count hsome => ?_, fun a size hsome => ?_, ?_, fun a ha => ?_⟩
    · rw [hlayout] at hsome
      cases hsome
    · rw [hlayout] at hsome
      dsimp only at hsome
      split at hsome
      · cases hsome
      · rename_i hguard
        cases hsome
        rw [payload_guard_v0] at hguard
        rw [payloadEnd, if_pos hv]
        omega
    · rw [hlayout]
      exact Nat.zero_le _
    · rw [hlayout] at ha
      cases ha

theorem guarded_v1 (hlength : length ≥ 24) (hv : mem data = 1) :
    Guarded mem data length ↔
      ((read32BE mem (data + 20)).toNat % 2 ^ 28 + 1 ≠ 2 ^ 28 ∧
        (2 ^ 28 ≤ (read32BE mem (data + 20)).toNat →
          length.toNat < 28 + 16 * ((read32BE mem (data + 20)).toNat % 2 ^ 28))) ∧
      (28 + 16 * (read32BE mem (data + 20)).toNat ≤ length.toNat →
        28 + 16 * (read32BE mem (data + 20)).toNat +
          (read32BE mem (data + 24 + 16 * (read32BE mem (data + 20)).toNat)).toNat < 2 ^ 32) := by
  have hlength' : 24 ≤ length.toNat := UInt16.le_iff_toNat_le.1 hlength
  have hlength16 := length.toNat_lt
  have hv0 : mem data ≠ 0 := by rw [hv]; decide
  set count := read32BE mem (data + 20) with hcountdef
  have hlt := count.toNat_lt
  have hlayout := boxLayout_v1 hlength hv hcountdef.symm
  have hsizeat : 28 + 16 * count.toNat ≤ length.toNat →
      read32BE mem (data + (28 + count * 16).toNat - 4) = read32BE mem (data + 24 + 16 * count.toNat) := fun hfits => by
    rw [tableEnd_toNat hfits]
    exact congrArg _ (by omega)
  constructor
  · intro h
    have htable : ¬ count * 16 + 28 > length.toUInt32 → 28 + 16 * count.toNat ≤ length.toNat := fun hguard =>
      h.table (data + 24) count (by rw [hlayout, if_neg hguard])
    rw [table_guard] at htable
    refine ⟨⟨by omega, by omega⟩, fun hfits => ?_⟩
    by_contra hwraps
    have hguard : ¬ count * 16 + 28 > length.toUInt32 := by
      rw [table_guard]
      omega
    have hsize := hsizeat hfits
    set size := read32BE mem (data + 24 + 16 * count.toNat) with hsizedef
    have hsizelt := size.toNat_lt
    have hguard' : ¬ size + 28 + count * 16 > length.toUInt32 := by
      rw [payload_guard]
      omega
    have hend := h.payload (data + (28 + count * 16).toNat) size
      (by rw [hlayout, if_neg hguard, hsize]; exact if_neg hguard')
    rw [payloadEnd, if_neg hv0, ← hcountdef] at hend
    omega
  · rintro ⟨⟨hones, hshort⟩, hpayload⟩
    by_cases hguard : count * 16 + 28 > length.toUInt32
    · exact guarded_unused (by rw [hlayout, if_pos hguard])
    · rw [if_neg hguard] at hlayout
      rw [table_guard] at hguard
      have hfits : 28 + 16 * count.toNat ≤ length.toNat := by omega
      obtain ⟨hnumber, hplaces⟩ := tablePlaces_fit data hfits
      refine ⟨fun a n hsome => ?_, fun a size hsome => ?_, ?_, fun a ha => ?_⟩
      · rw [hlayout] at hsome
        cases hsome
        exact hfits
      · rw [hlayout, hsizeat hfits] at hsome
        dsimp only at hsome
        split at hsome
        · cases hsome
        · rename_i hguard'
          cases hsome
          rw [payload_guard] at hguard'
          have hwraps := hpayload hfits
          rw [payloadEnd, if_neg hv0, ← hcountdef]
          omega
      · rw [hlayout]
        exact hnumber
      · rw [hlayout] at ha
        exact hplaces a ha

/-- For every box, of any length and with any count and size: the payload is decoded and the keys of the table
are added, and what is used of them lies in the box exactly when the sums do not wrap. -/
theorem guarded_iff (mem : Memory) (data : Nat) (length : UInt16) (keys : List (KeyId K)) :
    (parsePSSHBox mem data length keys = do
      let keys ← parsePayload mem (systemOf mem (data + 4)) (boxLayout mem data length).payload keys
      return addAll keys ((tablePlaces (boxLayout mem data length).keyTable).map
        (keyAt mem (systemOf mem (data + 4))))) ∧
    (Guarded mem data length ↔ (length ≥ 24 → Unwrapped mem data length)) := by
  refine ⟨parsePSSHBox_eq keys, ?_⟩
  by_cases hlength : length ≥ 24
  · rw [imp_iff_right hlength]
    by_cases hv0 : mem data = 0
    · have hv1 : mem data ≠ 1 := by rw [hv0]; decide
      rw [guarded_v0 hlength hv0]
      exact ⟨fun h => ⟨fun _ => h, fun hv => absurd hv hv1, fun hv => absurd hv hv1⟩, fun h => h.v0 hv0⟩
    · by_cases hv1 : mem data = 1
      · rw [guarded_v1 hlength hv1]
        exact ⟨fun h => ⟨fun hv => absurd hv hv0, fun _ => h.1, fun _ => h.2⟩, fun h => ⟨h.count hv1, h.v1 hv1⟩⟩
      · refine iff_of_true (guarded_unused ?_) ⟨fun hv => absurd hv hv0, fun hv => absurd hv hv1,
        fun hv => absurd hv hv1⟩
        rw [boxLayout, if_pos hlength, psshLayout, if_neg hv0, if_neg hv1]
  · exact iff_of_true (guarded_unused (if_neg hlength)) fun h => absurd h hlength

end

/-- A version 1 box of 28 bytes with a count of 2^28: the table is used, of 2^28 keys. -/
def wrappedCount : List UInt8 := [1, 0, 0, 0] ++ clearKey ++ [0x10, 0, 0, 0] ++ [0, 0, 0, 0]

theorem wrappedCount_unguarded : wrappedCount.length = 28 ∧ ¬ Guarded (place 1 wrappedCount 0) 1 28 := by
  refine ⟨by decide, fun h => ?_⟩
  have hfits := h.table 25 0x10000000 (by decide +kernel)
  revert hfits
  decide

end Ocdm.Cenc
