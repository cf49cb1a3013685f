/-
The box loop of `Parse`: which offsets it reaches, and how far it comes. The walk over the boxes depends
on the bytes alone: each accepted box is skipped by its size field. The acceptance test bounds that
field from above only, so a box whose size field is zero is accepted and skipped by zero bytes, for
ever; without such a box no run of the loop is infinite.
-/
import Ocdm.Cenc.Parser

namespace Ocdm.Cenc

open Bytes Comp

/-! ## The walk -/

/-- The offsets the box loop starts a pass at, when every call to `ParsePSSHBox` returns. -/
inductive Walk (mem : Memory) (data : Nat) (length : UInt16) : UInt16 → Prop where
  | start : data ≠ nullptr → length ≠ 0 → Walk mem data length 0
  | skip {offset : UInt16} : Walk mem data length offset → acceptsBox mem data length offset = true →
      nextOffset mem data offset < length → Walk mem data length (nextOffset mem data offset)

/-- The size field of the box at `offset`. -/
def sizeField (mem : Memory) (data : Nat) (offset : UInt16) : Nat := (read32BE mem (data + offset.toNat)).toNat

/-- No box the walk meets has a size field of zero. -/
def NoZeroBox (mem : Memory) (data : Nat) (length : UInt16) : Prop :=
  ∀ offset, Walk mem data length offset → acceptsBox mem data length offset = true → sizeField mem data offset ≠ 0

section

variable {mem : Memory} {data : Nat} {length offset : UInt16}

theorem walk_lt (h : Walk mem data length offset) : offset < length := by
  cases h with
  | start hd hl =>
    rw [UInt16.lt_iff_toNat_lt]
    have : length.toNat ≠ 0 := fun h0 => hl (UInt16.toNat_inj.1 h0)
    simp only [UInt16.toNat_zero]; omega
  | skip _ _ hlt => exact hlt

/-- The acceptance test bounds the size field by what is left. -/
theorem size_le_of_accepts (ho : offset < length) (h : acceptsBox mem data length offset = true) :
    offset.toNat + sizeField mem data offset ≤ length.toNat := by
  have hlt := UInt16.lt_iff_toNat_lt.1 ho
  simp only [acceptsBox, Bool.and_eq_true, decide_eq_true_eq, UInt32.le_iff_toNat_le] at h
  have hl := length.toNat_lt
  have := u32_eq (z := (length.toNat : Int) - offset.toNat) (n := length.toNat - offset.toNat) (by omega) (by omega)
  unfold sizeField
  omega

theorem nextOffset_toNat (ho : offset < length) (h : acceptsBox mem data length offset = true) :
    (nextOffset mem data offset).toNat = offset.toNat + sizeField mem data offset := by
  have hle := size_le_of_accepts ho h
  have hl := length.toNat_lt
  exact u16_eq (by unfold sizeField; push_cast; rfl) (by omega)

theorem nextOffset_le (ho : offset < length) (h : acceptsBox mem data length offset = true) :
    nextOffset mem data offset ≤ length := by
  rw [UInt16.le_iff_toNat_le, nextOffset_toNat ho h]
  exact size_le_of_accepts ho h

/-- An accepted box moves the offset forward exactly when its size field is not zero. -/
theorem lt_nextOffset_iff (ho : offset < length) (h : acceptsBox mem data length offset = true) :
    offset < nextOffset mem data offset ↔ sizeField mem data offset ≠ 0 := by
  rw [UInt16.lt_iff_toNat_lt, nextOffset_toNat ho h]; omega

theorem nextOffset_of_zero (hz : sizeField mem data offset = 0) : nextOffset mem data offset = offset := by
  apply UInt16.toNat_inj.1
  have hlt := offset.toNat_lt
  exact u16_eq (by unfold sizeField at hz; rw [hz]; simp) (by omega)

end

/-! ## Passes of the loop -/

section

variable {K : Type} [Thunder K] {mem : Memory} {data : Nat} {length : UInt16}

/-- The call of `ParsePSSHBox` for the box at `offset`. -/
def boxCall (mem : Memory) (data : Nat) (offset : UInt16) (keys : List (KeyId K)) : Comp (List (KeyId K)) :=
  parsePSSHBox mem (data + (offset.toNat + 4 + 4)) (u16 (read32BE mem (data + offset.toNat) - 4 - 4).toNat) keys

/-- A pass that goes on has accepted a box, parsed it and skipped it. -/
theorem parsePass_again {c c' : BoxCursor K} (h : (parsePass mem data length c).Returns (.again c')) :
    acceptsBox mem data length c.offset = true ∧ c'.offset = nextOffset mem data c.offset ∧
      nextOffset mem data c.offset < length ∧ (boxCall mem data c.offset c.keys).Returns c'.keys := by
  unfold parsePass at h
  split at h
  · rename_i ha
    obtain ⟨keys, hk, h⟩ := returns_bind.1 h
    dsimp only at h
    split at h
    · rename_i hlt
      cases returns_pure.1 h
      exact ⟨ha, rfl, hlt, hk⟩
    · cases returns_pure.1 h
  · split at h
    · obtain ⟨keys, -, h⟩ := returns_bind.1 h
      cases returns_pure.1 h
    · cases returns_pure.1 h

/-- A pass that accepts a box goes on when its parser returns and the offset stays below the length. -/
theorem parsePass_accepts {c : BoxCursor K} (ha : acceptsBox mem data length c.offset = true) {keys : List (KeyId K)}
    (hk : (boxCall mem data c.offset c.keys).Returns keys) :
    (parsePass mem data length c).Returns
      (if nextOffset mem data c.offset < length then .again ⟨nextOffset mem data c.offset, keys⟩ else .done keys) := by
  unfold parsePass
  rw [if_pos ha]
  refine Returns.bind hk ?_
  dsimp only
  split <;> exact returns_pure.2 rfl

/-- Every pass starts at an offset of the walk. -/
theorem walk_of_passes (hd : data ≠ nullptr) (hl : length ≠ 0) {c : BoxCursor K}
    (h : Passes (parsePass mem data length) ⟨0, []⟩ c) : Walk mem data length c.offset := by
  induction h with
  | refl => exact .start hd hl
  | tail _ hg ih =>
    obtain ⟨ha, ho, hlt, -⟩ := parsePass_again hg
    rw [ho]
    exact .skip ih ha hlt

/-! ## Runs of the loop -/

theorem no_infinite_run (h : NoZeroBox mem data length) :
    ¬ ∃ run : Nat → BoxCursor K, Passes (parsePass mem data length) ⟨0, []⟩ (run 0) ∧
      data ≠ nullptr ∧ length ≠ 0 ∧ ∀ n, Goes (parsePass mem data length) (run n) (run (n + 1)) := by
  rintro ⟨run, h0, hd, hl, hgo⟩
  have hpass : ∀ n, Passes (parsePass mem data length) ⟨0, []⟩ (run n) := by
    intro n
    induction n with
    | zero => exact h0
    | succ n ih => exact ih.tail (hgo n)
  have hgrow : ∀ n, n ≤ (run n).offset.toNat := by
    intro n
    induction n with
    | zero => exact Nat.zero_le _
    | succ n ih =>
      obtain ⟨ha, ho, -, -⟩ := parsePass_again (hgo n)
      have hw := walk_of_passes hd hl (hpass n)
      have := (lt_nextOffset_iff (walk_lt hw) ha).2 (h _ hw ha)
      rw [UInt16.lt_iff_toNat_lt, ← ho] at this
      omega
  have := (run 65536).offset.toNat_lt
  have := hgrow 65536
  omega

/-- A box with a size field of zero keeps the loop at its offset for ever. -/
theorem loop_diverges_of_zero {c : BoxCursor K} (hw : Walk mem data length c.offset)
    (ha : acceptsBox mem data length c.offset = true) (hz : sizeField mem data c.offset = 0) :
    ¬ (loop (parsePass mem data length) c).Terminates := by
  refine loop_diverges (fun s => s.offset = c.offset) ?_ rfl
  intro s p hs hp
  have ha' : acceptsBox mem data length s.offset = true := by rw [hs]; exact ha
  have hlt := walk_lt hw
  unfold parsePass at hp
  rw [if_pos ha'] at hp
  obtain ⟨keys, -, hp⟩ := returns_bind.1 hp
  have hnext : nextOffset mem data s.offset = c.offset := by rw [hs]; exact nextOffset_of_zero hz
  dsimp only at hp
  rw [hnext, if_pos hlt] at hp
  exact ⟨_, (returns_pure.1 hp).symm, rfl⟩

end

end Ocdm.Cenc
