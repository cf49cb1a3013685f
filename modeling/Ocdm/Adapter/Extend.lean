/-
`extend_subsample_map` and `extend_subsample_map_multi` (open_cdm_adapter.cpp), for the bytes of a frame that its
table leaves out. The first one counts the entries it takes, grows the array and fills it from the back; the second
one appends in one loop. Both append the same clear entries, as few as cover the bytes (`extend_agree`).
-/
import Ocdm.Adapter.MultiDecrypt

namespace Ocdm.Adapter

open Exchange (SubSampleInfo)

/-- Clear entries that cover the bytes, as few as possible; their sixteen bits hold up to 65535 bytes. -/
structure ClearCover (bytes : Nat) (extra : List SubSampleInfo) : Prop where
  clear : ∀ e ∈ extra, e.encryptedBytes = 0 ∧ 1 ≤ e.clearBytes.toNat ∧ e.clearBytes.toNat ≤ 65535
  sum : (extra.map fun e => e.clearBytes.toNat).sum = bytes
  least : ∀ other : List SubSampleInfo, (∀ e ∈ other, e.encryptedBytes = 0) →
    (other.map fun e => e.clearBytes.toNat).sum = bytes → extra.length ≤ other.length

/-- Clear entries cover their clear bytes. -/
theorem total_clear {entries : List SubSampleInfo} (h : ∀ e ∈ entries, e.encryptedBytes = 0) :
    total entries = (entries.map fun e => e.clearBytes.toNat).sum := by
  have hspan : entries.map span = entries.map fun e => e.clearBytes.toNat := List.map_congr_left fun e he => by
    rw [span, h e he]
    rfl
  rw [total, hspan]

theorem extraEntries_cover {bytes : Nat} (h : 0 < bytes) : ClearCover bytes (extraEntries bytes) := by
  have hclear := extraEntries_clear h
  refine ⟨fun e he => ⟨(hclear e he).1, (hclear e he).2, ?_⟩, ?_, fun other hother hsum => ?_⟩
  · have := e.clearBytes.toNat_lt
    omega
  · rw [← total_clear fun e he => (hclear e he).1, extraEntries_total h]
  · rw [extraEntries_length h, ← hsum, ← total_clear hother]
    exact entriesFor_le hother

/-- For every list of subsamples whose count stays within its 32 bits, and every frame larger than the list covers:
both functions keep the list and append the fewest clear entries that cover the rest. -/
theorem extend_agree (entries : List SubSampleInfo) (frameSize totalBytes : UInt32) (heap : Nat → SubSampleInfo)
    (hlt : totalBytes < frameSize)
    (hcount : entries.length + entriesFor (frameSize.toNat - totalBytes.toNat) < 4294967296) :
    ∃ extra m,
      extendSubsampleMap ⟨entries, UInt32.ofNat entries.length⟩ frameSize totalBytes heap true = (errorNone, m) ∧
      m.entries = entries ++ extra ∧ m.count.toNat = m.entries.length ∧
      ClearCover (frameSize.toNat - totalBytes.toNat) extra ∧
      extendSubsampleMapMulti (frameSize - totalBytes).toNat (frameSize - totalBytes) entries = entries ++ extra := by
  have hlt' := UInt32.lt_iff_toNat_lt.1 hlt
  have hpos : 0 < frameSize.toNat - totalBytes.toNat := Nat.sub_pos_of_lt hlt'
  have hsub : (frameSize - totalBytes).toNat = frameSize.toNat - totalBytes.toNat :=
    UInt32.toNat_sub_of_le _ _ (UInt32.le_of_lt hlt)
  have hshort : entries.length < 4294967296 := by omega
  have hlen : (UInt32.ofNat entries.length).toNat = entries.length := UInt32.toNat_ofNat_of_lt' hshort
  obtain ⟨count, hcount', hextend⟩ := extend_eq (m := ⟨entries, UInt32.ofNat entries.length⟩) heap hlen.symm hlt
    (by rw [hlen]; exact hcount)
  refine ⟨extraEntries (frameSize.toNat - totalBytes.toNat), _, hextend, rfl, ?_, extraEntries_cover hpos, ?_⟩
  · rw [List.length_append, extraEntries_length hpos]
    dsimp only at hcount' ⊢
    rw [hcount', hlen]
  · rw [extendMulti_extra (Nat.le_refl _) (by omega), hsub]

/-- Two bytes more than one entry holds. -/
theorem extend_agree_two : ∃ extra m,
    extendSubsampleMap ⟨[⟨3, 4⟩], UInt32.ofNat [(⟨3, 4⟩ : SubSampleInfo)].length⟩ 65544 7 (fun _ => ⟨9, 9⟩) true =
      (errorNone, m) ∧
      m.entries = [⟨3, 4⟩] ++ extra ∧ m.count.toNat = m.entries.length ∧
      ClearCover ((65544 : UInt32).toNat - (7 : UInt32).toNat) extra ∧
      extendSubsampleMapMulti ((65544 : UInt32) - 7).toNat (65544 - 7) [⟨3, 4⟩] = [⟨3, 4⟩] ++ extra :=
  extend_agree [⟨3, 4⟩] 65544 7 (fun _ => ⟨9, 9⟩) (by decide) (by decide)

end Ocdm.Adapter
