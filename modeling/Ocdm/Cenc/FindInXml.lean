/-
What `FindInXML` (CENCParser.h) is asked for, against what it returns. Its loop goes on at an offset equal to the
length, so it also finds a key whose last character is the one behind the text, and from a length of 65534 on its
16-bit offset never passes the end. It returns the first place of the key in the text, or an offset that is none in it,
exactly when no such place is found (`findInXML_least_iff`).
-/
import Ocdm.Cenc.XmlText

namespace Ocdm.Cenc

open Bytes Comp

/-! ## What is looked for -/

/-- The key is spelled at character `p`, with all of its characters in the text. -/
def Occurs (mem : Memory) (data : Nat) (length : UInt16) (key : List UInt8) (p : Nat) : Prop :=
  Holds (wide mem data) p key ∧ 2 * (p + key.length) ≤ length.toNat

/-- The least offset at which the key occurs, or one that is not in the text. -/
def LeastOffset (mem : Memory) (data : Nat) (length : UInt16) (key : List UInt8) (r : UInt16) : Prop :=
  (∃ p, Occurs mem data length key p ∧ (∀ q < p, ¬ Occurs mem data length key q) ∧ r.toNat = 2 * p) ∨
    (∀ p, ¬ Occurs mem data length key p) ∧ length ≤ r

/-- The search ends with it. -/
def FindsLeast (mem : Memory) (data : Nat) (length : UInt16) (key : List UInt8) (keyLength : UInt8) : Prop :=
  ∃ r, (findInXML mem data length key keyLength).Returns r ∧ LeastOffset mem data length key r

/-- The key occurs; or the length can be passed and no key ends with the character behind the text; or the place the
search comes to first, the offset running around behind 65534, is the length. -/
def Findable (mem : Memory) (data : Nat) (length : UInt16) (key : List UInt8) : Prop :=
  (∃ p, Occurs mem data length key p) ∨
    (length.toNat < 65534 ∧ ∀ p, p + key.length = length.toNat / 2 + 1 → ¬ Holds (wide mem data) p key) ∨
    ∃ p, FirstAt (ring mem data) key p ∧ 2 * p = length.toNat

section

variable {mem : Memory} {data : Nat} {length : UInt16} {key : List UInt8} {keyLength : UInt8}

/-! ## In the text -/

theorem Occurs.in_ring {p : Nat} (h : Occurs mem data length key p) : Holds (ring mem data) p key := by
  have hlength := length.toNat_lt
  have hin := h.2
  exact (holds_ring (by omega)).2 h.1

/-- Where the key occurs the search finds it first. -/
theorem Occurs.finds {p : Nat} (h : Occurs mem data length key p) :
    ∃ q, Finds mem data key length.toNat q ∧ Occurs mem data length key q ∧
      ∀ q' < q, ¬ Occurs mem data length key q' := by
  have hlength := length.toNat_lt
  have hin := h.2
  obtain ⟨q, hq⟩ := exists_firstAt h.in_ring
  have hle : q ≤ p := Nat.le_of_not_lt fun hlt => hq.2 p hlt h.in_ring
  have hqin : 2 * (q + key.length) ≤ length.toNat := by omega
  refine ⟨q, ⟨hq, fun _ => by omega⟩, ⟨(holds_ring (by omega)).1 hq.1, hqin⟩, ?_⟩
  rintro q' hlt hoccurs
  exact hq.2 q' hlt hoccurs.in_ring

theorem findsLeast_of_occurs (hk : keyLength.toNat = key.length) {p : Nat} (h : Occurs mem data length key p) :
    FindsLeast mem data length key keyLength := by
  obtain ⟨q, hfinds, hoccurs, hleast⟩ := h.finds
  obtain ⟨r, hr, hrq⟩ := findInXML_finds length keyLength hk hfinds
  exact ⟨r, hr, .inl ⟨q, hoccurs, hleast, hrq⟩⟩

/-! ## Behind the text -/

/-- A place found behind the text ends with the character there, or begins at the length. -/
theorem Finds.behind {p : Nat} (h : Finds mem data key length.toNat p) (hno : ∀ p, ¬ Occurs mem data length key p)
    (hl : length.toNat < 65534) : p + key.length = length.toNat / 2 + 1 ∧ Holds (wide mem data) p key := by
  have hin := h.2 hl
  have hholds := (holds_ring (by omega)).1 h.1.1
  have hout : ¬ 2 * (p + key.length) ≤ length.toNat := fun hle => hno p ⟨hholds, hle⟩
  exact ⟨by omega, hholds⟩

/-- A key that ends with the character behind the text is found there, when it does not occur. -/
theorem finds_behind {p : Nat} (hp : p + key.length = length.toNat / 2 + 1) (hholds : Holds (wide mem data) p key)
    (hno : ∀ p, ¬ Occurs mem data length key p) (hl : length.toNat < 65534) : Finds mem data key length.toNat p := by
  refine ⟨⟨(holds_ring (by omega)).2 hholds, ?_⟩, fun _ => by omega⟩
  rintro q hq hring
  exact hno q ⟨(holds_ring (by omega)).1 hring, by omega⟩

theorem findsLeast_of_passed (hk : keyLength.toNat = key.length) (hno : ∀ p, ¬ Occurs mem data length key p)
    (hl : length.toNat < 65534) (hbehind : ∀ p, p + key.length = length.toNat / 2 + 1 → ¬ Holds (wide mem data) p key) :
    FindsLeast mem data length key keyLength := by
  obtain ⟨r, hr, hresult⟩ := findInXML_short mem data length keyLength hk hl
  refine ⟨r, hr, .inr ⟨hno, UInt16.le_iff_toNat_le.2 ?_⟩⟩
  rcases hresult with ⟨p, hp, -⟩ | ⟨-, -, hrn⟩
  · obtain ⟨hend, hholds⟩ := hp.behind hno hl
    exact absurd hholds (hbehind p hend)
  · omega

/-- A first place that is the length: a place of one character, or of the whole ring. -/
theorem findsLeast_of_length (hk : keyLength.toNat = key.length) (hno : ∀ p, ¬ Occurs mem data length key p) {p : Nat}
    (hp : FirstAt (ring mem data) key p) (hlength : 2 * p = length.toNat) :
    FindsLeast mem data length key keyLength := by
  have hends : (findInXML mem data length key keyLength).Terminates := findInXML_ends hk (.inr ⟨p, hp.1⟩)
  obtain ⟨r, hr⟩ := hends
  refine ⟨r, hr, .inr ⟨hno, UInt16.le_iff_toNat_le.2 ?_⟩⟩
  rcases findInXML_result hk hr with ⟨q, hq, hrq⟩ | ⟨-, -, hrn⟩
  · rw [hrq, hq.1.unique hp, hlength]
  · omega

/-- A result behind the text without an occurrence comes from one of the two. -/
theorem findable_of_result (hk : keyLength.toNat = key.length) (hno : ∀ p, ¬ Occurs mem data length key p) {r : UInt16}
    (hr : (findInXML mem data length key keyLength).Returns r) (hle : length ≤ r) :
    Findable mem data length key := by
  have hle := UInt16.le_iff_toNat_le.1 hle
  have hlength := length.toNat_lt
  rcases findInXML_result hk hr with ⟨p, hp, hrp⟩ | ⟨hl, hnone, -⟩
  · have hlt := hp.1.lt_ring
    by_cases hl : length.toNat < 65534
    · -- a place of one character at the length, for more would end before it
      obtain ⟨hend, hholds⟩ := hp.behind hno hl
      have hone : key.length ≠ 0 := fun hzero => hno 0 ⟨by rw [List.length_eq_zero_iff.1 hzero]; trivial, by omega⟩
      exact .inr (.inr ⟨p, hp.1, by omega⟩)
    · exact .inr (.inr ⟨p, hp.1, by omega⟩)
  · refine .inr (.inl ⟨hl, ?_⟩)
    rintro p hend hholds
    exact hnone p (finds_behind hend hholds hno hl)

/-- For every memory, length and key `FindInXML` ends with the least offset at which the key occurs, or with one that is
not in the text, exactly when the key is found only there. -/
theorem findInXML_least_iff (mem : Memory) (data : Nat) (length : UInt16) {key : List UInt8} {keyLength : UInt8}
    (hk : keyLength.toNat = key.length) :
    FindsLeast mem data length key keyLength ↔ Findable mem data length key := by
  by_cases hoccurs : ∃ p, Occurs mem data length key p
  · obtain ⟨p, hp⟩ := hoccurs
    exact iff_of_true (findsLeast_of_occurs hk hp) (.inl ⟨p, hp⟩)
  · have hno : ∀ p, ¬ Occurs mem data length key p := fun p hp => hoccurs ⟨p, hp⟩
    constructor
    · rintro ⟨r, hr, ⟨p, hp, -⟩ | ⟨-, hle⟩⟩
      · exact absurd hp (hno p)
      · exact findable_of_result hk hno hr hle
    · rintro (h | ⟨hl, hbehind⟩ | ⟨p, hp, hlength⟩)
      · exact absurd h hoccurs
      · exact findsLeast_of_passed hk hno hl hbehind
      · exact findsLeast_of_length hk hno hp hlength

end

/-! ## At the end of a text -/

/-- A tag of ten bytes. -/
def tagMemory : Memory := place 0 (utf16 (ascii "<KID>")) 0

theorem tag_findsLeast : FindsLeast tagMemory 0 10 (ascii "<KID>") 5 := by
  refine (findInXML_least_iff tagMemory 0 10 (by decide)).2 (.inl ⟨0, ?_, by decide⟩)
  exact holds_wide (k := 0) (holds_place 0 (utf16 (ascii "<KID>")) 0)

/-- In eight bytes it is found too, at the start of a text it does not fit in. -/
theorem cutTag_not_findsLeast : ¬ FindsLeast tagMemory 0 8 (ascii "<KID>") 5 := by
  have hzero : (findInXML tagMemory 0 8 (ascii "<KID>") 5).Returns 0 := ⟨8, by decide +kernel⟩
  rintro ⟨r, hr, ⟨p, hp, -⟩ | ⟨-, hle⟩⟩
  · have hin : 2 * (p + 5) ≤ 8 := hp.2
    omega
  · cases hr.unique hzero
    exact absurd hle (by decide)

end Ocdm.Cenc
