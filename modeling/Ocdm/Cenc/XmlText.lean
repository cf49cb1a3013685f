/-
The scanners behind `ParseXMLBox`, over text in every other byte: `FindInXML` finds the first
occurrence of its key, or passes the end, and `Base64` gives back the bytes a padded base64 text
encodes.
-/
import Ocdm.Cenc.Parser
import Mathlib.Data.Nat.Find

namespace Ocdm.Cenc

open Bytes Comp

/-! ## FindInXML -/

/-- The key occurs at `p` and nowhere before. -/
def FirstAt (text : Memory) (key : List UInt8) (p : Nat) : Prop := Holds text p key ∧ ∀ q < p, ¬ Holds text q key

theorem FirstAt.unique {text : Memory} {key : List UInt8} {p q : Nat} (hp : FirstAt text key p)
    (hq : FirstAt text key q) : p = q := by
  rcases Nat.lt_trichotomy p q with h | h | h
  · exact absurd hp.1 (hq.2 p h)
  · exact h
  · exact absurd hq.1 (hp.2 q h)

/-- What `FindInXML` returns: where the key first occurs with at most its last character past the
end, or an offset past the end. -/
def Found (text : Memory) (key : List UInt8) (length r : UInt16) : Prop :=
  (∃ p, FirstAt text key p ∧ p + key.length ≤ length.toNat / 2 + 1 ∧ r.toNat = 2 * p) ∨
    (∀ p, p + key.length ≤ length.toNat / 2 + 1 → ¬ Holds text p key) ∧ length < r

/-- The text that `FindInXML` reads: its offset is a `uint16_t`, and comes back to the start behind 32768 characters. -/
def ring (mem : Memory) (data : Nat) : Memory := fun i => mem (data + 2 * (i % 32768))

/-- What `FindInXML` finds: the first occurrence, with at most its last character past the end. No offset is past an end
of 65534 or more. -/
def Finds (mem : Memory) (data : Nat) (key : List UInt8) (length p : Nat) : Prop :=
  FirstAt (ring mem data) key p ∧ (length < 65534 → p + key.length ≤ length / 2 + 1)

/-- What it returns: the offset found, or the first one past the end. -/
def FindResult (mem : Memory) (data : Nat) (key : List UInt8) (length r : Nat) : Prop :=
  (∃ p, Finds mem data key length p ∧ r = 2 * p) ∨
    length < 65534 ∧ (∀ p, ¬ Finds mem data key length p) ∧ r = 2 * (length / 2 + 1)

section

variable {mem : Memory} {data : Nat} {length : UInt16} {key : List UInt8} {keyLength : UInt8}

/-- In the first 65536 bytes it is the text itself. -/
theorem holds_ring {p : Nat} (h : p + key.length ≤ 32768) :
    Holds (ring mem data) p key ↔ Holds (wide mem data) p key := by
  have hsame : ∀ i < key.length, ring mem data (p + i) = wide mem data (p + i) := fun i hi => by
    rw [ring, Nat.mod_eq_of_lt (by omega)]
    rfl
  exact ⟨fun hr => holds_of_get fun i hi => (hsame i hi).symm.trans (hr.get hi),
    fun hw => holds_of_get fun i hi => (hsame i hi).trans (hw.get hi)⟩

/-- What occurs occurs in the first round. -/
theorem FirstAt.lt_ring {p : Nat} (h : FirstAt (ring mem data) key p) : p < 32768 := by
  by_contra hge
  refine h.2 (p - 32768) (by omega) (holds_of_get fun i hi => ?_)
  have hsame : (p - 32768 + i) % 32768 = (p + i) % 32768 := by omega
  show mem (data + 2 * ((p - 32768 + i) % 32768)) = key[i]
  rw [hsame]
  exact h.1.get hi

/-- A key that occurs occurs somewhere first. -/
theorem exists_firstAt {text : Memory} {p : Nat} (h : Holds text p key) : ∃ q, FirstAt text key q := by
  have hex : ∃ p, Holds text p key := ⟨p, h⟩
  exact ⟨Nat.find hex, Nat.find_spec hex, fun q hq => Nat.find_min hex hq⟩

theorem Finds.unique {length p q : Nat} (hp : Finds mem data key length p) (hq : Finds mem data key length q) : p = q :=
  hp.1.unique hq.1

theorem FindResult.unique {length r r' : Nat} (h : FindResult mem data key length r)
    (h' : FindResult mem data key length r') : r = r' := by
  rcases h with ⟨p, hp, rfl⟩ | ⟨-, hno, rfl⟩ <;> rcases h' with ⟨q, hq, rfl⟩ | ⟨-, hno', rfl⟩
  · rw [hp.unique hq]
  · exact absurd hp (hno' p)
  · exact absurd hq (hno q)
  · rfl

/-- The scan has excluded the positions before `q` and matched `index` characters at `q`. -/
structure Scanning (text : Memory) (key : List UInt8) (length : UInt16) (q : Nat) (s : FindState) : Prop where
  result : s.result.toNat = 2 * (q + s.index.toNat) % 65536
  index : s.index.toNat ≤ key.length
  matched : Holds text q (key.take s.index.toNat)
  before : ∀ p < q, ¬ Holds text p key
  inside : length.toNat < 65534 → q + s.index.toNat ≤ length.toNat / 2 + 1

theorem take_succ_holds {text : Memory} {q j : Nat} (h : Holds text q (key.take j)) (hj : j < key.length)
    (hget : key[j] = text (q + j)) : Holds text q (key.take (j + 1)) := by
  rw [List.take_succ_eq_append_getElem hj, holds_append, List.length_take, Nat.min_eq_left (by omega)]
  exact ⟨h, hget.symm, trivial⟩

namespace Scanning

variable {q : Nat} {s : FindState}

theorem start : Scanning (ring mem data) key length 0 ⟨0, 0⟩ :=
  ⟨rfl, Nat.zero_le _, trivial, fun p hp => absurd hp (Nat.not_lt_zero p), fun _ => Nat.zero_le _⟩

theorem result_le (h : Scanning (ring mem data) key length q s) :
    s.result ≤ length ↔ (length.toNat < 65534 → q + s.index.toNat ≤ length.toNat / 2) := by
  have hinside := h.inside
  rw [UInt16.le_iff_toNat_le, h.result]
  omega

theorem read (h : Scanning (ring mem data) key length q s) :
    mem (data + s.result.toNat) = ring mem data (q + s.index.toNat) := by
  rw [h.result]
  exact congrArg mem (by omega)

theorem result_add (h : Scanning (ring mem data) key length q s) :
    (s.result + 2).toNat = 2 * (q + s.index.toNat + 1) % 65536 := by
  rw [UInt16.toNat_add, h.result]
  show (2 * (q + s.index.toNat) % 65536 + 2) % 65536 = _
  omega

/-- One more character is matched. -/
theorem goOn (h : Scanning (ring mem data) key length q s) (hin : s.result ≤ length) (hj : s.index.toNat < key.length)
    (hadd : (s.index + 1).toNat = s.index.toNat + 1) (hc : key[s.index.toNat] = ring mem data (q + s.index.toNat)) :
    Scanning (ring mem data) key length q ⟨s.index + 1, s.result + 2⟩ := by
  rw [h.result_le] at hin
  refine ⟨?_, ?_, ?_, h.before, fun hl => ?_⟩
  · show (s.result + 2).toNat = 2 * (q + (s.index + 1).toNat) % 65536
    rw [h.result_add, hadd]
    rfl
  · show (s.index + 1).toNat ≤ key.length
    omega
  · show Holds (ring mem data) q (key.take (s.index + 1).toNat)
    rw [hadd]
    exact take_succ_holds h.matched hj hc
  · show q + (s.index + 1).toNat ≤ _
    have := hin hl
    omega

/-- A character that differs excludes the position. -/
theorem excluded (h : Scanning (ring mem data) key length q s) (hj : s.index.toNat < key.length)
    (hc : key[s.index.toNat] ≠ ring mem data (q + s.index.toNat)) :
    ∀ p < q + 1, ¬ Holds (ring mem data) p key := by
  intro p hp hholds
  rcases Nat.lt_succ_iff_lt_or_eq.1 hp with hp | rfl
  · exact h.before p hp hholds
  · exact hc (hholds.get hj).symm

/-- The scan starts again one position on. -/
theorem restart {r : UInt16} (hno : ∀ p < q + 1, ¬ Holds (ring mem data) p key) (hr : r.toNat = 2 * (q + 1) % 65536)
    (hin : length.toNat < 65534 → q ≤ length.toNat / 2) : Scanning (ring mem data) key length (q + 1) ⟨0, r⟩ :=
  ⟨hr, Nat.zero_le _, trivial, hno, fun hl => Nat.succ_le_succ (hin hl)⟩

/-- Where `FindInXML` leaves its loop it has found the key, or is past the end. -/
theorem stop (h : Scanning (ring mem data) key length q s) (hk : keyLength.toNat = key.length)
    (hgo : ¬ (s.result ≤ length ∧ s.index < keyLength)) :
    FindResult mem data key length.toNat
      (if s.index = keyLength then u16 (s.result.toNat - keyLength.toNat * 2) else s.result).toNat := by
  have hresult := h.result
  have hinside := h.inside
  by_cases hend : s.index = keyLength
  · have hi : s.index.toNat = key.length := by rw [hend, hk]
    have hmatched := h.matched
    rw [hi, List.take_length] at hmatched
    have hlt := FirstAt.lt_ring ⟨hmatched, h.before⟩
    have hu16 := toNat_u16 (s.result.toNat - keyLength.toNat * 2)
    rw [if_pos hend]
    exact .inl ⟨q, ⟨⟨hmatched, h.before⟩, fun hl => by have := hinside hl; omega⟩, by omega⟩
  · have hi : s.index.toNat ≠ key.length := fun he => hend (UInt8.toNat_inj.1 (by rw [he, hk]))
    have hindex := h.index
    have hpast : ¬ s.result ≤ length := fun hr => hgo ⟨hr, UInt8.lt_iff_toNat_lt.2 (by omega)⟩
    rw [h.result_le] at hpast
    rw [if_neg hend]
    refine .inr ⟨by omega, fun p hp => ?_, by omega⟩
    have hpinside := hp.2 (by omega)
    exact h.before p (by omega) hp.1.1

end Scanning

/-- One pass: the scan goes on, or it is done. -/
theorem findInXMLPass_step (hk : keyLength.toNat = key.length) {q : Nat} {s : FindState}
    (h : Scanning (ring mem data) key length q s) :
    (∃ q' s', (findInXMLPass mem data length key keyLength s).Returns (.again s') ∧
      Scanning (ring mem data) key length q' s' ∧
      (q' = q ∧ s'.index.toNat = s.index.toNat + 1 ∨ q' = q + 1 ∧ s'.index.toNat = 0)) ∨
    ∃ r, (findInXMLPass mem data length key keyLength s).Returns (.done r) ∧
      FindResult mem data key length.toNat r.toNat := by
  have hklt := keyLength.toNat_lt
  have hresult := h.result
  by_cases hgo : s.result ≤ length ∧ s.index < keyLength
  · have hj : s.index.toNat < key.length := by rw [← hk]; exact UInt8.lt_iff_toNat_lt.1 hgo.2
    have hin := h.result_le.1 hgo.1
    left
    by_cases hc : key.getD s.index.toNat 0 = mem (data + s.result.toNat)
    · have hadd : (s.index + 1).toNat = s.index.toNat + 1 := u8_add rfl (by omega)
      refine ⟨q, ⟨s.index + 1, s.result + 2⟩, ?_, h.goOn hgo.1 hj hadd ?_, .inl ⟨rfl, hadd⟩⟩
      · rw [findInXMLPass, if_pos hgo, if_pos hc]; exact returns_pure.2 rfl
      · rwa [List.getD_eq_getElem _ _ hj, h.read] at hc
    · have hno : ∀ p < q + 1, ¬ Holds (ring mem data) p key := by
        rw [List.getD_eq_getElem _ _ hj, h.read] at hc
        exact h.excluded hj hc
      by_cases hz : s.index > 0
      · -- characters were matched: `result` goes back over all of them but the first
        have hi : 0 < s.index.toNat := UInt8.lt_iff_toNat_lt.1 hz
        have hu16 := toNat_u16 (s.result.toNat - (s.index.toNat - 1) * 2)
        refine ⟨q + 1, ⟨0, u16 (s.result.toNat - (s.index.toNat - 1) * 2)⟩, ?_,
          Scanning.restart hno (by omega) (by omega), .inr ⟨rfl, rfl⟩⟩
        rw [findInXMLPass, if_pos hgo, if_neg hc, if_pos hz]; exact returns_pure.2 rfl
      · have hi : s.index = 0 := by
          refine UInt8.toNat_inj.1 (Nat.eq_zero_of_not_pos fun hpos => hz ?_)
          exact UInt8.lt_iff_toNat_lt.2 hpos
        have hi0 : s.index.toNat = 0 := by rw [hi]; rfl
        refine ⟨q + 1, ⟨s.index, s.result + 2⟩, ?_, ?_, .inr ⟨rfl, hi0⟩⟩
        · rw [findInXMLPass, if_pos hgo, if_neg hc, if_neg hz]; exact returns_pure.2 rfl
        · rw [hi]
          exact Scanning.restart hno (by rw [h.result_add, hi0]) (by omega)
  · right
    refine ⟨_, ?_, h.stop hk hgo⟩
    rw [findInXMLPass, if_neg hgo]
    split <;> exact returns_pure.2 rfl

/-- What `FindInXML` returns, when it returns. -/
theorem findInXML_result (hk : keyLength.toNat = key.length) {r : UInt16}
    (h : (findInXML mem data length key keyLength).Returns r) : FindResult mem data key length.toNat r.toNat := by
  refine loop_post (fun s => ∃ q, Scanning (ring mem data) key length q s)
    (fun r => FindResult mem data key length.toNat r.toNat)
    ?_ ?_ ⟨0, .start⟩ h
  · rintro s s' ⟨q, hq⟩ hs
    rcases findInXMLPass_step hk hq with ⟨q', s'', hr, hq', -⟩ | ⟨r, hr, -⟩
    · cases hs.unique hr
      exact ⟨q', hq'⟩
    · cases hs.unique hr
  · rintro s b ⟨q, hq⟩ hs
    rcases findInXMLPass_step hk hq with ⟨q', s'', hr, -, -⟩ | ⟨r, hr, hresult⟩
    · cases hs.unique hr
    · cases hs.unique hr
      exact hresult

/-- It ends when the end can be passed, and when the key occurs. -/
theorem findInXML_ends (hk : keyLength.toNat = key.length)
    (h : length.toNat < 65534 ∨ ∃ p, Holds (ring mem data) p key) :
    (findInXML mem data length key keyLength).Terminates := by
  have hklt := keyLength.toNat_lt
  have hbound : ∀ {q s}, Scanning (ring mem data) key length q s → q < 32768 := fun {q s} hq => by
    rcases h with hl | ⟨p, hp⟩
    · have := hq.inside hl
      omega
    · obtain ⟨q', hq'⟩ := exists_firstAt hp
      have hlt := hq'.lt_ring
      have hle : ¬ q' < q := fun hlt => hq.before q' hlt hq'.1
      omega
  -- the position can be told from the state
  have hposition : ∀ {q s}, Scanning (ring mem data) key length q s →
      (s.result.toNat / 2 + 32768 - s.index.toNat) % 32768 = q := fun {q s} hq => by
    have := hbound hq
    have hresult := hq.result
    have hindex := hq.index
    omega
  refine (loop_variant (fun s => ∃ q, Scanning (ring mem data) key length q s) (fun _ => True)
    (fun s => (32768 - (s.result.toNat / 2 + 32768 - s.index.toNat) % 32768) * (key.length + 1) +
      (key.length - s.index.toNat)) ?_ ⟨0, .start⟩).imp fun r hr => hr.1
  rintro s ⟨q, hq⟩
  rcases findInXMLPass_step hk hq with ⟨q', s', hr, hq', hmove⟩ | ⟨r, hr, -⟩
  · refine .inl ⟨s', hr, ⟨q', hq'⟩, ?_⟩
    have hlt := hbound hq'
    have hindex := hq'.index
    rw [hposition hq, hposition hq']
    rcases hmove with ⟨rfl, hi⟩ | ⟨rfl, hi⟩
    · omega
    · rw [show 32768 - q = 32768 - (q + 1) + 1 by omega, Nat.succ_mul]
      omega
  · exact .inr ⟨r, hr, trivial⟩

/-- Without an end that can be passed, a key that does not occur is looked for forever. -/
theorem findInXML_endless (hk : keyLength.toNat = key.length) (hl : 65534 ≤ length.toNat)
    (hno : ∀ p, ¬ Holds (ring mem data) p key) : ¬ (findInXML mem data length key keyLength).Terminates := by
  rintro ⟨r, hr⟩
  rcases findInXML_result hk hr with ⟨p, hp, -⟩ | ⟨hlt, -⟩
  · exact hno p hp.1.1
  · omega

/-- What is there to be found is found. -/
theorem findInXML_finds (length : UInt16) (keyLength : UInt8) (hk : keyLength.toNat = key.length) {p : Nat}
    (hp : Finds mem data key length.toNat p) :
    ∃ r, (findInXML mem data length key keyLength).Returns r ∧ r.toNat = 2 * p := by
  have hends : (findInXML mem data length key keyLength).Terminates := findInXML_ends hk (.inr ⟨p, hp.1.1⟩)
  exact hends.imp fun r hr => ⟨hr, (findInXML_result hk hr).unique (.inl ⟨p, hp, rfl⟩)⟩

/-- In a text whose end can be passed the search has a result. -/
theorem findInXML_short (mem : Memory) (data : Nat) (length : UInt16) (keyLength : UInt8)
    (hk : keyLength.toNat = key.length) (hl : length.toNat < 65534) :
    ∃ r, (findInXML mem data length key keyLength).Returns r ∧ FindResult mem data key length.toNat r.toNat := by
  have hends : (findInXML mem data length key keyLength).Terminates := findInXML_ends hk (.inl hl)
  exact hends.imp fun r hr => ⟨hr, findInXML_result hk hr⟩

theorem findInXML_found (mem : Memory) (data : Nat) (hk : keyLength.toNat = key.length) (hl : length.toNat < 65500) :
    ∃ r, (findInXML mem data length key keyLength).Returns r ∧ Found (wide mem data) key length r := by
  obtain ⟨r, hr, hresult⟩ := findInXML_short mem data length keyLength hk (Nat.lt_trans hl (by decide))
  refine ⟨r, hr, ?_⟩
  have hring : ∀ {p}, p + key.length ≤ length.toNat / 2 + 1 →
    (Holds (ring mem data) p key ↔ Holds (wide mem data) p key) :=
    fun hp => holds_ring (by omega)
  rcases hresult with ⟨p, hp, hrp⟩ | ⟨-, hno, hrn⟩
  · have hin := hp.2 (by omega)
    refine .inl ⟨p, ⟨(hring hin).1 hp.1.1, fun q hq hholds => ?_⟩, hin, hrp⟩
    exact hp.1.2 q hq ((hring (by omega)).2 hholds)
  · refine .inr ⟨fun p hp hholds => ?_, UInt16.lt_iff_toNat_lt.2 (by omega)⟩
    obtain ⟨q, hq⟩ := exists_firstAt ((hring hp).2 hholds)
    have hle : ¬ p < q := fun hlt => hq.2 p hlt ((hring hp).2 hholds)
    exact hno q ⟨hq, fun _ => by omega⟩

/-- The first occurrence is found. -/
theorem findInXML_first (length : UInt16) (keyLength : UInt8) (hk : keyLength.toNat = key.length)
    (hl : length.toNat < 65500) {p : Nat}
    (h : FirstAt (wide mem data) key p) (hp : p + key.length ≤ length.toNat / 2 + 1) :
    ∃ r, (findInXML mem data length key keyLength).Returns r ∧ r.toNat = 2 * p := by
  obtain ⟨r, hr, ⟨q, hq, -, hrq⟩ | ⟨hno, -⟩⟩ := findInXML_found mem data hk hl
  · exact ⟨r, hr, by rw [hrq, hq.unique h]⟩
  · exact absurd h.1 (hno p hp)

/-- A key that does not occur is not found. -/
theorem findInXML_none (length : UInt16) (keyLength : UInt8) (hk : keyLength.toNat = key.length)
    (hl : length.toNat < 65500)
    (h : ∀ p, p + key.length ≤ length.toNat / 2 + 1 → ¬ Holds (wide mem data) p key) :
    ∃ r, (findInXML mem data length key keyLength).Returns r ∧ length < r := by
  obtain ⟨r, hr, ⟨q, hq, hin, -⟩ | ⟨-, hlt⟩⟩ := findInXML_found mem data hk hl
  · exact absurd hq.1 (h q hin)
  · exact ⟨r, hr, hlt⟩

end

/-! ## Base64 -/

/-- The character of a base64 digit. -/
def base64Char (digit : UInt8) : UInt8 :=
  if digit < 26 then digit + 0x41
  else if digit < 52 then digit - 26 + 0x61
  else if digit < 62 then digit - 52 + 0x30
  else if digit = 62 then 0x2b
  else 0x2f

/-- Base64 with padding. -/
def encodeBase64 : List UInt8 → List UInt8
  | b0 :: b1 :: b2 :: bs =>
    base64Char (b0 >>> 2) :: base64Char ((b0 &&& 0x03) <<< 4 ||| b1 >>> 4) ::
      base64Char ((b1 &&& 0x0F) <<< 2 ||| b2 >>> 6) :: base64Char (b2 &&& 0x3F) :: encodeBase64 bs
  | [b0, b1] =>
    [base64Char (b0 >>> 2), base64Char ((b0 &&& 0x03) <<< 4 ||| b1 >>> 4), base64Char ((b1 &&& 0x0F) <<< 2), 0x3d]
  | [b0] => [base64Char (b0 >>> 2), base64Char ((b0 &&& 0x03) <<< 4), 0x3d, 0x3d]
  | [] => []

theorem encodeBase64_length : ∀ bs : List UInt8, (encodeBase64 bs).length = 4 * ((bs.length + 2) / 3)
  | [] => rfl
  | [_] => by simp [encodeBase64]
  | [_, _] => by simp [encodeBase64]
  | b0 :: b1 :: b2 :: bs => by
    simp only [encodeBase64, List.length_cons, encodeBase64_length bs]
    omega

/-- The characters of base64 texts. -/
theorem encodeBase64_chars : ∀ (bs : List UInt8), ∀ c ∈ encodeBase64 bs, c = 0x3d ∨ ∃ d, c = base64Char d
  | [], c, hc => by cases hc
  | [b0], c, hc => by
    simp only [encodeBase64, List.mem_cons, List.not_mem_nil, or_false] at hc
    rcases hc with rfl | rfl | rfl | rfl
    · exact .inr ⟨_, rfl⟩
    · exact .inr ⟨_, rfl⟩
    · exact .inl rfl
    · exact .inl rfl
  | [b0, b1], c, hc => by
    simp only [encodeBase64, List.mem_cons, List.not_mem_nil, or_false] at hc
    rcases hc with rfl | rfl | rfl | rfl
    · exact .inr ⟨_, rfl⟩
    · exact .inr ⟨_, rfl⟩
    · exact .inr ⟨_, rfl⟩
    · exact .inl rfl
  | b0 :: b1 :: b2 :: bs, c, hc => by
    simp only [encodeBase64, List.mem_cons] at hc
    rcases hc with rfl | rfl | rfl | rfl | hc
    · exact .inr ⟨_, rfl⟩
    · exact .inr ⟨_, rfl⟩
    · exact .inr ⟨_, rfl⟩
    · exact .inr ⟨_, rfl⟩
    · exact encodeBase64_chars bs c hc

theorem base64Char_plain (d : UInt8) : base64Char d ≠ 0x22 ∧ base64Char d ≠ 0x3c := by
  have h := (by decide +kernel : ∀ m : Fin 256, base64Char (UInt8.ofNat m) ≠ 0x22 ∧ base64Char (UInt8.ofNat m) ≠ 0x3c)
    ⟨d.toNat, d.toNat_lt⟩
  rwa [UInt8.ofNat_toNat] at h

/-- Base64 texts have no quotes and no `<`. -/
theorem encodeBase64_plain (bs : List UInt8) : 0x22 ∉ encodeBase64 bs ∧ 0x3c ∉ encodeBase64 bs := by
  constructor
  · intro h
    rcases encodeBase64_chars bs _ h with h | ⟨d, hd⟩
    · exact absurd h (by decide)
    · exact (base64Char_plain d).1 hd.symm
  · intro h
    rcases encodeBase64_chars bs _ h with h | ⟨d, hd⟩
    · exact absurd h (by decide)
    · exact (base64Char_plain d).2 hd.symm

theorem base64Digit_char {d : UInt8} (hd : d.toNat < 64) : base64Digit (base64Char d) = some d := by
  have h := (by decide : ∀ n < 64, base64Digit (base64Char (UInt8.ofNat n)) = some (UInt8.ofNat n)) d.toNat hd
  rwa [UInt8.ofNat_toNat] at h

/-! The bits of a byte: six and two, four and four, two and six. -/

theorem bits_6_2 (b : UInt8) {x : UInt8} (hx : x.toNat < 16) :
    ((b &&& 0x03) <<< 4 ||| x).toNat < 64 ∧
      ((((b &&& 0x03) <<< 4 ||| x) &&& 0x30) >>> 4 ||| b >>> 2 <<< 2) = b ∧
      (((b &&& 0x03) <<< 4 ||| x) &&& 0x0F) <<< 4 = x <<< 4 := by
  have hb := (by decide +kernel : ∀ m : Fin 256,
    (UInt8.ofNat m &&& 0x03).toNat < 4 ∧ (UInt8.ofNat m &&& (0x03 : UInt8) ||| UInt8.ofNat m >>> 2 <<< 2) =
      UInt8.ofNat m)
    ⟨b.toNat, b.toNat_lt⟩
  rw [UInt8.ofNat_toNat] at hb
  have hjoin := (by decide +kernel : ∀ m : Fin 4, ∀ n : Fin 16,
    (UInt8.ofNat m <<< 4 ||| UInt8.ofNat n).toNat < 64 ∧
      ((UInt8.ofNat m <<< 4 ||| UInt8.ofNat n) &&& 0x30) >>> 4 = UInt8.ofNat m ∧
      ((UInt8.ofNat m <<< 4 ||| UInt8.ofNat n) &&& 0x0F) <<< 4 = UInt8.ofNat n <<< 4)
    ⟨(b &&& 0x03).toNat, hb.1⟩ ⟨x.toNat, hx⟩
  rw [UInt8.ofNat_toNat, UInt8.ofNat_toNat] at hjoin
  exact ⟨hjoin.1, by rw [hjoin.2.1, hb.2], hjoin.2.2⟩

theorem bits_4_4 (b : UInt8) {x : UInt8} (hx : x.toNat < 4) :
    ((b &&& 0x0F) <<< 2 ||| x).toNat < 64 ∧
      ((((b &&& 0x0F) <<< 2 ||| x) &&& 0x3C) >>> 2 ||| b >>> 4 <<< 4) = b ∧
      (((b &&& 0x0F) <<< 2 ||| x) &&& 0x03) <<< 6 = x <<< 6 := by
  have hb := (by decide +kernel : ∀ m : Fin 256,
    (UInt8.ofNat m &&& 0x0F).toNat < 16 ∧ (UInt8.ofNat m &&& (0x0F : UInt8) ||| UInt8.ofNat m >>> 4 <<< 4) =
      UInt8.ofNat m)
    ⟨b.toNat, b.toNat_lt⟩
  rw [UInt8.ofNat_toNat] at hb
  have hjoin := (by decide +kernel : ∀ m : Fin 16, ∀ n : Fin 4,
    (UInt8.ofNat m <<< 2 ||| UInt8.ofNat n).toNat < 64 ∧
      ((UInt8.ofNat m <<< 2 ||| UInt8.ofNat n) &&& 0x3C) >>> 2 = UInt8.ofNat m ∧
      ((UInt8.ofNat m <<< 2 ||| UInt8.ofNat n) &&& 0x03) <<< 6 = UInt8.ofNat n <<< 6)
    ⟨(b &&& 0x0F).toNat, hb.1⟩ ⟨x.toNat, hx⟩
  rw [UInt8.ofNat_toNat, UInt8.ofNat_toNat] at hjoin
  exact ⟨hjoin.1, by rw [hjoin.2.1, hb.2], hjoin.2.2⟩

theorem bits_2_6 (b : UInt8) :
    (b >>> 2).toNat < 64 ∧ (b >>> 4).toNat < 16 ∧ (b >>> 6).toNat < 4 ∧ (b &&& 0x3F).toNat < 64 ∧
      ((b &&& (0x3F : UInt8)) &&& (0x3F : UInt8) ||| b >>> 6 <<< 6) = b := by
  have h := (by decide +kernel : ∀ m : Fin 256,
    (UInt8.ofNat m >>> 2).toNat < 64 ∧ (UInt8.ofNat m >>> 4).toNat < 16 ∧ (UInt8.ofNat m >>> 6).toNat < 4 ∧
      (UInt8.ofNat m &&& 0x3F).toNat < 64 ∧
      ((UInt8.ofNat m &&& (0x3F : UInt8)) &&& (0x3F : UInt8) ||| UInt8.ofNat m >>> 6 <<< 6) = UInt8.ofNat m)
    ⟨b.toNat, b.toNat_lt⟩
  rwa [UInt8.ofNat_toNat] at h

/-! What a digit does in each of the four states. -/

section

variable {s : Base64State} (d : UInt8)

theorem base64Put_first (h : s.state = 0) : base64Put s d = { s with lastStuff := d <<< 2, state := 1 } := by
  rw [base64Put, if_pos h]

theorem base64Put_second (h : s.state = 1) : base64Put s d = ⟨2, s.index, s.filler + 1, (d &&& 0x0F) <<< 4,
    Function.update s.object s.filler.toNat (((d &&& 0x30) >>> 4) ||| s.lastStuff)⟩ := by
  rw [base64Put, if_neg (by rw [h]; decide), if_pos h]

theorem base64Put_third (h : s.state = 2) : base64Put s d = ⟨3, s.index, s.filler + 1, (d &&& 0x03) <<< 6,
    Function.update s.object s.filler.toNat (((d &&& 0x3C) >>> 2) ||| s.lastStuff)⟩ := by
  rw [base64Put, if_neg (by rw [h]; decide), if_neg (by rw [h]; decide), if_pos h]

theorem base64Put_fourth (h : s.state = 3) : base64Put s d = ⟨0, s.index, s.filler + 1, s.lastStuff,
    Function.update s.object s.filler.toNat ((d &&& 0x3F) ||| s.lastStuff)⟩ := by
  rw [base64Put, if_neg (by rw [h]; decide), if_neg (by rw [h]; decide), if_neg (by rw [h]; decide), if_pos h]

end

section

variable {mem : Memory} {value : Nat} {sourceLength length : UInt8}

/-- A pass over a digit, `k` characters in and `f` bytes written. -/
theorem base64_goes {state last d : UInt8} {object : Memory} {k f : Nat} (hd : d.toNat < 64)
    (hc : wide mem value k = base64Char d) (hk : 2 * k < sourceLength.toNat) (hf : f < length.toNat) {s : Base64State}
    (hs : base64Put ⟨state, UInt8.ofNat (2 * k), UInt8.ofNat f, last, object⟩ d = s) :
    Goes (base64Pass mem value sourceLength length) ⟨state, UInt8.ofNat (2 * k), UInt8.ofNat f, last, object⟩
      { s with index := UInt8.ofNat (2 * (k + 1)) } := by
  have hsl := sourceLength.toNat_lt
  have hl := length.toNat_lt
  have hi : (UInt8.ofNat (2 * k)).toNat = 2 * k := by rw [UInt8.toNat_ofNat']; omega
  have hfill : (UInt8.ofNat f).toNat = f := by rw [UInt8.toNat_ofNat']; omega
  have hread : mem (value + (UInt8.ofNat (2 * k)).toNat) = base64Char d := by rw [hi]; exact hc
  have hin : UInt8.ofNat (2 * k) < sourceLength ∧ UInt8.ofNat f < length := by
    rw [UInt8.lt_iff_toNat_lt, UInt8.lt_iff_toNat_lt, hi, hfill]; exact ⟨hk, hf⟩
  rw [Goes, base64Pass, if_pos hin]
  simp only [hread, base64Digit_char hd, hs]
  refine returns_pure.2 ?_
  rw [show UInt8.ofNat (2 * (k + 1)) = UInt8.ofNat (2 * k) + 2 by rw [Nat.mul_add, UInt8.ofNat_add]; rfl]

/-! The four states of the decoder: each finishes the byte the digit before began. -/

theorem base64_digit0 {b last : UInt8} {object : Memory} {k f : Nat} (hc : wide mem value k = base64Char (b >>> 2))
    (hk : 2 * k < sourceLength.toNat) (hf : f < length.toNat) :
    Goes (base64Pass mem value sourceLength length) ⟨0, UInt8.ofNat (2 * k), UInt8.ofNat f, last, object⟩
      ⟨1, UInt8.ofNat (2 * (k + 1)), UInt8.ofNat f, b >>> 2 <<< 2, object⟩ :=
  base64_goes (bits_2_6 b).1 hc hk hf rfl

theorem base64_digit1 {b x : UInt8} (hx : x.toNat < 16) {object : Memory} {k f : Nat}
    (hc : wide mem value k = base64Char ((b &&& 0x03) <<< 4 ||| x))
    (hk : 2 * k < sourceLength.toNat) (hf : f < length.toNat) :
    Goes (base64Pass mem value sourceLength length) ⟨1, UInt8.ofNat (2 * k), UInt8.ofNat f, b >>> 2 <<< 2, object⟩
      ⟨2, UInt8.ofNat (2 * (k + 1)), UInt8.ofNat (f + 1), x <<< 4, Function.update object f b⟩ := by
  obtain ⟨hd, hb, hs⟩ := bits_6_2 b hx
  have hl := length.toNat_lt
  refine base64_goes hd hc hk hf
    (s := ⟨2, UInt8.ofNat (2 * k), UInt8.ofNat (f + 1), x <<< 4, Function.update object f b⟩) ?_
  show Base64State.mk _ _ _ _ (Function.update object (UInt8.ofNat f).toNat _) = _
  rw [hb, hs, UInt8.toNat_ofNat', Nat.mod_eq_of_lt (by omega), UInt8.ofNat_add]; rfl

theorem base64_digit2 {b x : UInt8} (hx : x.toNat < 4) {object : Memory} {k f : Nat}
    (hc : wide mem value k = base64Char ((b &&& 0x0F) <<< 2 ||| x))
    (hk : 2 * k < sourceLength.toNat) (hf : f < length.toNat) :
    Goes (base64Pass mem value sourceLength length) ⟨2, UInt8.ofNat (2 * k), UInt8.ofNat f, b >>> 4 <<< 4, object⟩
      ⟨3, UInt8.ofNat (2 * (k + 1)), UInt8.ofNat (f + 1), x <<< 6, Function.update object f b⟩ := by
  obtain ⟨hd, hb, hs⟩ := bits_4_4 b hx
  have hl := length.toNat_lt
  refine base64_goes hd hc hk hf
    (s := ⟨3, UInt8.ofNat (2 * k), UInt8.ofNat (f + 1), x <<< 6, Function.update object f b⟩) ?_
  show Base64State.mk _ _ _ _ (Function.update object (UInt8.ofNat f).toNat _) = _
  rw [hb, hs, UInt8.toNat_ofNat', Nat.mod_eq_of_lt (by omega), UInt8.ofNat_add]; rfl

theorem base64_digit3 {b : UInt8} {object : Memory} {k f : Nat} (hc : wide mem value k = base64Char (b &&& 0x3F))
    (hk : 2 * k < sourceLength.toNat) (hf : f < length.toNat) :
    Goes (base64Pass mem value sourceLength length) ⟨3, UInt8.ofNat (2 * k), UInt8.ofNat f, b >>> 6 <<< 6, object⟩
      ⟨0, UInt8.ofNat (2 * (k + 1)), UInt8.ofNat (f + 1), b >>> 6 <<< 6, Function.update object f b⟩ := by
  obtain ⟨-, -, -, hd, hb⟩ := bits_2_6 b
  have hl := length.toNat_lt
  refine base64_goes hd hc hk hf
    (s := ⟨0, UInt8.ofNat (2 * k), UInt8.ofNat (f + 1), b >>> 6 <<< 6, Function.update object f b⟩) ?_
  show Base64State.mk _ _ _ _ (Function.update object (UInt8.ofNat f).toNat _) = _
  rw [hb, UInt8.toNat_ofNat', Nat.mod_eq_of_lt (by omega), UInt8.ofNat_add]; rfl

/-- Padding ends the text. -/
theorem base64_padding {s : Base64State} {k : Nat} (hi : s.index = UInt8.ofNat (2 * k)) (hk : 2 * k < 256)
    (hc : wide mem value k = 0x3d) :
    (base64Pass mem value sourceLength length s).Returns (.done (s.filler, s.object)) := by
  have hread : mem (value + s.index.toNat) = 0x3d := by
    rw [hi, UInt8.toNat_ofNat', Nat.mod_eq_of_lt (by omega)]; exact hc
  unfold base64Pass
  split
  · rw [hread]; exact returns_pure.2 rfl
  · exact returns_pure.2 rfl

/-- Writing the next byte of the object. -/
theorem slice_update (object : Memory) (f : Nat) (b : UInt8) :
    slice (Function.update object f b) 0 (f + 1) = slice object 0 f ++ [b] := by
  unfold slice
  rw [List.range_succ, List.map_append, List.map_singleton, Nat.zero_add, Function.update_self]
  refine congrArg (· ++ [b]) (List.map_congr_left fun i hi => ?_)
  rw [Nat.zero_add, Function.update_of_ne (Nat.ne_of_lt (List.mem_range.1 hi))]

/-- The memory with `bs` written from `f` on. -/
def overwrite (object : Memory) (f : Nat) (bs : List UInt8) : Memory := fun i =>
  if f ≤ i then bs.getD (i - f) (object i) else object i

theorem overwrite_nil (object : Memory) (f : Nat) : overwrite object f [] = object := by
  funext i
  unfold overwrite
  split <;> rfl

/-- A byte written before the others. -/
theorem overwrite_update (object : Memory) (f : Nat) (b : UInt8) (bs : List UInt8) :
    overwrite (Function.update object f b) (f + 1) bs = overwrite object f (b :: bs) := by
  funext i
  unfold overwrite
  rcases Nat.lt_trichotomy i f with hlt | rfl | hgt
  · rw [if_neg (by omega), if_neg (by omega), Function.update_of_ne (by omega)]
  · rw [if_neg (by omega), if_pos (Nat.le_refl i), Nat.sub_self, Function.update_self]
    rfl
  · rw [if_pos (by omega), if_pos (by omega), Function.update_of_ne (by omega),
      show i - f = i - (f + 1) + 1 by omega]
    rfl

theorem slice_overwrite (object : Memory) (bs : List UInt8) : slice (overwrite object 0 bs) 0 bs.length = bs := by
  refine Holds.slice_eq (holds_of_get fun i hi => ?_)
  show (if 0 ≤ 0 + i then _ else _) = _
  rw [if_pos (Nat.zero_le _), Nat.zero_add, Nat.sub_zero, List.getD_eq_getElem _ _ hi]

/-- The text is used up, or the array is full. -/
theorem base64_used_up {s : Base64State} (h : ¬ (s.index < sourceLength ∧ s.filler < length)) :
    (base64Pass mem value sourceLength length s).Returns (.done (s.filler, s.object)) := by
  rw [base64Pass, if_neg h]
  exact returns_pure.2 rfl

/-- The decoder gives back the bytes of a text, from any group of it on. A text without padding has to end with the
source. -/
theorem base64_loop (last : UInt8) (object : Memory) {bs : List UInt8} {k f : Nat}
    (h : Holds (wide mem value) k (encodeBase64 bs))
    (hk : 2 * (k + (encodeBase64 bs).length) ≤ sourceLength.toNat + 3) (hsmall : k + (encodeBase64 bs).length ≤ 128)
    (hfull : bs.length % 3 = 0 → sourceLength.toNat = 2 * (k + (encodeBase64 bs).length))
    (hf : f + bs.length ≤ length.toNat) :
    (loop (base64Pass mem value sourceLength length) ⟨0, UInt8.ofNat (2 * k), UInt8.ofNat f, last, object⟩).Returns
      (UInt8.ofNat (f + bs.length), overwrite object f bs) := by
  have hsl := sourceLength.toNat_lt
  match bs with
  | [] =>
    have hend : sourceLength.toNat = 2 * k := hfull rfl
    rw [overwrite_nil]
    refine loop_done (base64_used_up fun hin => ?_)
    have hlt := UInt8.lt_iff_toNat_lt.1 hin.1
    rw [UInt8.toNat_ofNat'] at hlt
    omega
  | [b] =>
    obtain ⟨h0, h1, h2, -⟩ := h
    simp only [encodeBase64, List.length_cons, List.length_nil] at hk hf
    rw [← UInt8.or_zero (a := (b &&& 3) <<< 4)] at h1
    have hp : Passes (base64Pass mem value sourceLength length)
        ⟨0, UInt8.ofNat (2 * k), UInt8.ofNat f, last, object⟩
        ⟨2, UInt8.ofNat (2 * (k + 1 + 1)), UInt8.ofNat (f + 1), (0 : UInt8) <<< 4, Function.update object f b⟩ :=
      .head (base64_digit0 h0 (by omega) (by omega))
        (.single (base64_digit1 (by decide) h1 (by omega) (by omega)))
    rw [← overwrite_update, overwrite_nil]
    exact hp.returns_iff.2 (loop_done (base64_padding rfl (by omega) h2))
  | [b0, b1] =>
    obtain ⟨h0, h1, h2, h3, -⟩ := h
    simp only [encodeBase64, List.length_cons, List.length_nil] at hk hf hsmall
    rw [← UInt8.or_zero (a := (b1 &&& 0x0F) <<< 2)] at h2
    have hp : Passes (base64Pass mem value sourceLength length)
        ⟨0, UInt8.ofNat (2 * k), UInt8.ofNat f, last, object⟩
        ⟨3, UInt8.ofNat (2 * (k + 1 + 1 + 1)), UInt8.ofNat (f + 1 + 1), (0 : UInt8) <<< 6,
          Function.update (Function.update object f b0) (f + 1) b1⟩ :=
      .head (base64_digit0 h0 (by omega) (by omega))
        (.head (base64_digit1 (bits_2_6 b1).2.1 h1 (by omega) (by omega))
          (.single (base64_digit2 (by decide) h2 (by omega) (by omega))))
    rw [← overwrite_update, ← overwrite_update, overwrite_nil]
    exact hp.returns_iff.2 (loop_done (base64_padding rfl (by omega) h3))
  | b0 :: b1 :: b2 :: bs =>
    obtain ⟨h0, h1, h2, h3, h⟩ := h
    have hlen : f + (b0 :: b1 :: b2 :: bs).length = f + 1 + 1 + 1 + bs.length := by
      simp only [List.length_cons]; omega
    simp only [encodeBase64, List.length_cons] at hk hf hfull hsmall
    have h4 := encodeBase64_length bs
    have hp : Passes (base64Pass mem value sourceLength length)
        ⟨0, UInt8.ofNat (2 * k), UInt8.ofNat f, last, object⟩
        ⟨0, UInt8.ofNat (2 * (k + 1 + 1 + 1 + 1)), UInt8.ofNat (f + 1 + 1 + 1), b2 >>> 6 <<< 6,
          Function.update (Function.update (Function.update object f b0) (f + 1) b1) (f + 1 + 1) b2⟩ :=
      .head (base64_digit0 h0 (by omega) (by omega))
        (.head (base64_digit1 (bits_2_6 b1).2.1 h1 (by omega) (by omega))
          (.head (base64_digit2 (bits_2_6 b2).2.2.1 h2 (by omega) (by omega))
            (.single (base64_digit3 h3 (by omega) (by omega)))))
    have hrest := base64_loop (f := f + 1 + 1 + 1) (b2 >>> 6 <<< 6)
      (Function.update (Function.update (Function.update object f b0) (f + 1) b1) (f + 1 + 1) b2) h (by omega)
      (by omega)
      (fun hmod => by have := hfull (by omega); omega) (by omega)
    rw [hlen, ← overwrite_update, ← overwrite_update, ← overwrite_update]
    exact hp.returns_iff.2 hrest

/-- The sixteen bytes of a key id. -/
theorem base64_kid (object : Memory) {kid : Vector UInt8 16}
    (h : Holds (wide mem value) 0 (encodeBase64 kid.toList)) (hs : 45 ≤ sourceLength.toNat) :
    ∃ object', (base64 mem value sourceLength object 32).Returns (16, object') ∧ slice object' 0 16 = kid.toList := by
  have hlen : kid.toList.length = 16 := by simp
  have htext : (encodeBase64 kid.toList).length = 24 := by rw [encodeBase64_length, hlen]
  have hloop : (loop (base64Pass mem value sourceLength 32) ⟨0, 0, 0, 0, object⟩).Returns
      (UInt8.ofNat (0 + kid.toList.length), overwrite object 0 kid.toList) :=
    base64_loop 0 object h (by rw [htext]; omega) (by rw [htext]; decide) (fun hmod => by omega)
      (by rw [hlen]; decide)
  have hslice := slice_overwrite object kid.toList
  rw [hlen] at hloop hslice
  exact ⟨_, hloop, hslice⟩

end

/-! ## The key of a text -/

variable {K : Type} [Thunder K]

/-- The base64 text of a key id adds its key. -/
theorem addXMLKey_kid {mem : Memory} {text : Nat} {length : UInt8} {kid : Vector UInt8 16}
    (h : Holds (wide mem text) 0 (encodeBase64 kid.toList)) (hs : 45 ≤ length.toNat) (keys : List (KeyId K)) :
    (addXMLKey mem text length keys).Returns (addKeyId keys (playReadyKey kid.toList)) := by
  obtain ⟨object, hr, ht⟩ := base64_kid (byteArray K) h hs
  refine hr.bind ?_
  rw [← ht]
  exact returns_pure.2 rfl

end Ocdm.Cenc
