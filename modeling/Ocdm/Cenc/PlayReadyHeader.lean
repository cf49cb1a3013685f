/-
`ParseXMLBox` on PlayReady headers: the loop for v4.0 takes the key ids of `<KID>..</KID>` elements,
the loop for v4.1 and later those of `<KID .. VALUE=".."></KID>` elements, each past the other
version's headers. Both find an element by the same two searches (`find_element`).
-/
import Ocdm.Cenc.XmlText

namespace Ocdm.Cenc

open Bytes Comp Thunder

/-! ## Text with elements -/

/-- `<KID`, which begins the elements of both versions. -/
def kidOpen : List UInt8 := [0x3c, 0x4b, 0x49, 0x44]

/-- `</KID>` -/
def kidClose : List UInt8 := [0x3c, 0x2f, 0x4b, 0x49, 0x44, 0x3e]

/-- An element in a text: what stands before it, and what stands between `<KID` with the character
behind it and `</KID>`. -/
structure Segment where
  gap : List UInt8
  inner : List UInt8
  noKid : ¬ kidOpen <:+: gap
  plain : 0x3c ∉ inner

/-- The characters of a segment; `sep` is the one behind `<KID`. -/
def Segment.chars (sep : UInt8) (s : Segment) : List UInt8 := s.gap ++ (kidOpen ++ [sep]) ++ (s.inner ++ kidClose)

section

variable {text : Memory} {sep : UInt8}

theorem Segment.length_chars (s : Segment) : (s.chars sep).length = s.gap.length + s.inner.length + 11 := by
  simp [chars, kidOpen, kidClose]; omega

/-- No `<KID` begins in the text before an element. -/
theorem Segment.not_in_gap (s : Segment) {a p : Nat} (h : Holds text a (s.chars sep)) (hp : a ≤ p)
    (hlt : p < a + s.gap.length) : ¬ Holds text p kidOpen := by
  rw [chars, holds_append, holds_append, holds_append] at h
  obtain ⟨⟨hgap, ⟨hopen, -⟩, -⟩, -⟩ := h
  refine Holds.not_before (c := 0x3c) ?_ (by decide) s.noKid hp hlt
  rw [holds_append]
  exact ⟨hgap, hopen, trivial⟩

/-- The element begins behind the text before it. -/
theorem Segment.first_open (s : Segment) (h : Holds text 0 (s.chars sep)) :
    FirstAt text (kidOpen ++ [sep]) s.gap.length := by
  have hparts := h
  rw [chars, holds_append, holds_append, Nat.zero_add] at hparts
  refine ⟨hparts.1.2, fun q hq hk => ?_⟩
  rw [holds_append] at hk
  exact s.not_in_gap h (Nat.zero_le q) (by omega) hk.1

/-- The element ends at its first `</KID>`. -/
theorem first_close {inner : List UInt8} (h : Holds text 0 (inner ++ kidClose)) (hplain : 0x3c ∉ inner) :
    FirstAt text kidClose inner.length := by
  rw [holds_append, Nat.zero_add] at h
  exact ⟨h.2, fun q hq => h.1.not_of_head hplain (Nat.zero_le q) (by omega)⟩

/-- No `<KID` begins inside an element. -/
theorem Segment.not_inside (s : Segment) (hsep : sep ≠ 0x3c) {a p : Nat} (h : Holds text a (s.chars sep))
    (hp : a + s.gap.length < p) (hlt : p < a + (s.chars sep).length) : ¬ Holds text p kidOpen := by
  rw [s.length_chars] at hlt
  rw [chars, List.append_assoc, holds_append, holds_append, holds_append] at h
  obtain ⟨-, ⟨⟨-, hK, hI, hD, -⟩, hsepAt, -⟩, hbody⟩ := h
  rw [holds_append] at hbody
  -- `KID`, the separator and the inner text have no `<`
  have hfront : Holds text (a + s.gap.length + 1) ([0x4b, 0x49, 0x44, sep] ++ s.inner) := by
    rw [holds_append]
    exact ⟨⟨hK, hI, hD, hsepAt, trivial⟩, hbody.1⟩
  have hno : (0x3c : UInt8) ∉ [0x4b, 0x49, 0x44, sep] ++ s.inner := by
    simp [s.plain, Ne.symm hsep]
  have hclose : Holds text (a + s.gap.length + 5 + s.inner.length) ([0x3c] ++ [0x2f, 0x4b, 0x49, 0x44, 0x3e]) := hbody.2
  rw [holds_append] at hclose
  have hlenf : ([0x4b, 0x49, 0x44, sep] ++ s.inner).length = 4 + s.inner.length := by
    rw [List.length_append]; rfl
  rcases Nat.lt_trichotomy p (a + s.gap.length + 5 + s.inner.length) with h1 | rfl | h3
  · exact hfront.not_of_head hno (by omega) (by omega)
  · -- the `<` of `</KID>` is followed by `/`
    rintro ⟨-, hk, -⟩
    exact absurd (hclose.2.1.symm.trans hk) (by decide)
  · exact hclose.2.not_of_head (by decide) h3 (show p < _ + 5 by
      show p < a + s.gap.length + 5 + s.inner.length + 1 + 5; omega)

/-- Every `<KID` of a text is followed by the character that follows it in the elements. -/
theorem open_followed (hsep : sep ≠ 0x3c) {tail : List UInt8} (htail : ¬ kidOpen <:+: tail) {a : Nat}
    (segments : List Segment) (h : Holds text a (segments.flatMap (Segment.chars sep) ++ tail)) {p : Nat} (hp : a ≤ p)
    (hlt : p + 4 ≤ a + (segments.flatMap (Segment.chars sep) ++ tail).length) (hk : Holds text p kidOpen) :
    text (p + 4) = sep := by
  induction segments generalizing a with
  | nil => exact absurd (h.isInfix hp (show p + kidOpen.length ≤ _ from hlt) hk) htail
  | cons s segments ih =>
    rw [List.flatMap_cons, List.append_assoc, holds_append] at h
    rw [List.flatMap_cons, List.append_assoc, List.length_append, ← Nat.add_assoc] at hlt
    rcases Nat.lt_trichotomy p (a + s.gap.length) with hbefore | rfl | hbehind
    · exact absurd hk (s.not_in_gap h.1 hp hbefore)
    · have hparts := h.1
      rw [Segment.chars, holds_append, holds_append, holds_append] at hparts
      exact hparts.1.2.2.1
    · by_cases hin : p < a + (s.chars sep).length
      · exact absurd hk (s.not_inside hsep h.1 hbehind hin)
      · exact ih h.2 (by omega) hlt

end

/-! ## One element -/

/-- The cursor is at the text `cs`, which is all that is left. -/
def At {K : Type} (mem : Memory) (c : XmlCursor K) (cs : List UInt8) : Prop :=
  Holds (wide mem c.slot) 0 cs ∧ c.size.toNat = 2 * cs.length

section

variable {K : Type} {mem : Memory} {sep : UInt8}

/-- What the two searches of a pass give for the first element of the text: its offset `begin_`,
the length `end_` of its inner text, and the cursor behind it. -/
structure ElementAt (mem : Memory) (sep : UInt8) (c : XmlCursor K) (s : Segment) (rest : List UInt8)
    (begin_ end_ : UInt16) : Prop where
  opening : (findInXML mem c.slot c.size (kidOpen ++ [sep]) 5).Returns begin_
  inside : begin_ < c.size
  closing : (findInXML mem (c.slot + (begin_.toNat + 10)) (u16 (c.size.toNat - begin_.toNat - 10))
    kidClose 6).Returns end_
  ended : (end_.toNat : Int) < c.size.toNat - begin_.toNat - 10
  inner : Holds (wide mem (c.slot + (begin_.toNat + 10))) 0 (s.inner ++ kidClose)
  length : end_.toNat = 2 * s.inner.length
  next : ∀ keys : List (KeyId K), At mem
    ⟨c.slot + (begin_.toNat + 10 + end_.toNat + 12),
      u16 (c.size.toNat - (begin_.toNat + 10 + end_.toNat + 12 : Nat)), keys⟩
    rest

theorem find_element {c : XmlCursor K} (s : Segment) {rest : List UInt8} (h : At mem c (s.chars sep ++ rest))
    (hsmall : c.size.toNat < 65500) : ∃ begin_ end_, ElementAt mem sep c s rest begin_ end_ := by
  obtain ⟨htext, hsize⟩ := h
  rw [holds_append, Nat.zero_add] at htext
  rw [List.length_append, s.length_chars] at hsize
  have hlt := c.size.toNat_lt
  have hfirst := s.first_open htext.1
  obtain ⟨b, hb, hbn⟩ := findInXML_first c.size 5 rfl hsmall hfirst
    (show s.gap.length + 5 ≤ _ by omega)
  have hinner : Holds (wide mem (c.slot + (b.toNat + 10))) 0 (s.inner ++ kidClose) := by
    rw [hbn, show c.slot + (2 * s.gap.length + 10) = c.slot + 2 * (s.gap.length + 5) by omega, holds_wide_add]
    have hparts := htext.1
    rw [Segment.chars, holds_append] at hparts
    rw [List.length_append, Nat.zero_add] at hparts
    exact hparts.2
  have hsize2 : (u16 (c.size.toNat - b.toNat - 10)).toNat = 2 * (s.inner.length + 6 + rest.length) :=
    u16_eq (by omega) (by omega)
  have hclose := first_close hinner s.plain
  obtain ⟨e, he, hen⟩ := findInXML_first (u16 (c.size.toNat - b.toNat - 10)) 6 rfl (by omega) hclose
    (show s.inner.length + 6 ≤ _ by omega)
  refine ⟨b, e, hb, ?_, he, by omega, hinner, hen, fun keys => ⟨?_, ?_⟩⟩
  · rw [UInt16.lt_iff_toNat_lt]; omega
  · show Holds (wide mem (c.slot + (b.toNat + 10 + e.toNat + 12))) 0 rest
    rw [hbn, hen, show c.slot + (2 * s.gap.length + 10 + 2 * s.inner.length + 12) =
      c.slot + 2 * (s.chars sep).length by rw [s.length_chars]; omega, holds_wide_add]
    exact htext.2
  · exact u16_eq (by omega) (by omega)

/-- A text without `<KID` has no element of either version. -/
theorem find_no_element {c : XmlCursor K} {cs : List UInt8} (h : At mem c cs) (hno : ¬ kidOpen <:+: cs)
    (hsmall : c.size.toNat < 65500) :
    ∃ r, (findInXML mem c.slot c.size (kidOpen ++ [sep]) 5).Returns r ∧ c.size < r := by
  obtain ⟨htext, hsize⟩ := h
  refine findInXML_none c.size 5 rfl hsmall fun p hp hk => hno ?_
  rw [holds_append] at hk
  refine htext.isInfix (Nat.zero_le p) ?_ hk.1
  have hp : p + 5 ≤ c.size.toNat / 2 + 1 := hp
  show p + 4 ≤ 0 + cs.length
  omega

end

/-! ## The loops -/

section

variable {K : Type} [Thunder K] {mem : Memory}

theorem ascii_kid : ascii "<KID>" = kidOpen ++ [0x3e] := by decide
theorem ascii_kid_space : ascii "<KID " = kidOpen ++ [0x20] := by decide
theorem ascii_kid_close : ascii "</KID>" = kidClose := by decide

omit [Thunder K] in
theorem size_pos {c : XmlCursor K} (h : 0 < c.size.toNat) : c.size > 0 := UInt16.lt_iff_toNat_lt.2 h

/-- A pass of the first loop over `<KID>..</KID>`. -/
theorem parseKidPass_element {c : XmlCursor K} (s : Segment) {kid : Vector UInt8 16}
    (hs : s.inner = encodeBase64 kid.toList) {rest : List UInt8} (h : At mem c (s.chars 0x3e ++ rest))
    (hsmall : c.size.toNat < 65500) :
    ∃ slot size, (parseKidPass mem c).Returns (.again ⟨slot, size, addKeyId c.keys (playReadyKey kid.toList)⟩) ∧
      At mem (⟨slot, size, addKeyId c.keys (playReadyKey kid.toList)⟩ : XmlCursor K) rest := by
  obtain ⟨b, e, hel⟩ := find_element s h hsmall
  have hlen : s.inner.length = 24 := by rw [hs, encodeBase64_length, Vector.length_toList]
  have hsize := h.2
  rw [List.length_append, s.length_chars] at hsize
  have hu8 : (u8 e.toNat).toNat = 48 := u8_eq (by rw [hel.length, hlen]) (by decide)
  have hinner := hel.inner
  rw [holds_append, hs] at hinner
  refine ⟨_, _, ?_, hel.next _⟩
  rw [parseKidPass, if_pos (size_pos (by omega)), ascii_kid, ascii_kid_close]
  refine hel.opening.bind ?_
  rw [if_pos hel.inside]
  refine hel.closing.bind ?_
  rw [if_pos hel.ended]
  exact (addXMLKey_kid hinner.1 (by omega) c.keys).bind (returns_pure.2 rfl)

/-- The attributes before the value of a `<KID .. VALUE=".."></KID>`. -/
def attributesText (algid checksum : List UInt8) : List UInt8 :=
  ascii "ALGID=\"" ++ algid ++ ascii "\" CHECKSUM=\"" ++ checksum ++ ascii "\" "

/-- The text of such an element behind `<KID `. -/
def valueText (algid checksum : List UInt8) (kid : Vector UInt8 16) : List UInt8 :=
  attributesText algid checksum ++ ascii "VALUE" ++ [0x3d, 0x22] ++ encodeBase64 kid.toList ++ [0x22, 0x3e]

/-- `VALUE` first occurs behind the attributes, when they do not have it in their values. -/
theorem first_value {text : Memory} {algid checksum : List UInt8} (halgid : ¬ ascii "VALUE" <:+: algid)
    (hchecksum : ¬ ascii "VALUE" <:+: checksum) (h : Holds text 0 (attributesText algid checksum ++ ascii "VALUE")) :
    FirstAt text (ascii "VALUE") (attributesText algid checksum).length := by
  rw [holds_append, Nat.zero_add] at h
  refine ⟨h.2, fun q hq => ?_⟩
  have hblocks : attributesText algid checksum = [(ascii "ALGID=", 0x22), (algid, 0x22), (ascii " CHECKSUM=", 0x22),
      (checksum, 0x22), ([], 0x20)].flatMap fun b => b.1 ++ [b.2] := by
    have h1 : ascii "ALGID=\"" = ascii "ALGID=" ++ [0x22] := by decide
    have h2 : ascii "\" CHECKSUM=\"" = [0x22] ++ (ascii " CHECKSUM=" ++ [0x22]) := by decide
    have h3 : ascii "\" " = [0x22] ++ [0x20] := by decide
    rw [attributesText, h1, h2, h3]
    simp only [List.flatMap_cons, List.flatMap_nil, List.append_assoc, List.nil_append, List.append_nil]
  rw [hblocks] at h hq
  have hquote : 0x22 ∉ ascii "VALUE" := by decide
  have hspace : 0x20 ∉ ascii "VALUE" := by decide
  have hV : 0x56 ∈ ascii "VALUE" := by decide
  have h1 : ¬ ascii "VALUE" <:+: ascii "ALGID=" := fun h => absurd (h.subset hV) (by decide)
  have h3 : ¬ ascii "VALUE" <:+: ascii " CHECKSUM=" := fun h => absurd (h.subset hV) (by decide)
  have h5 : ¬ ascii "VALUE" <:+: [] := fun h => absurd (h.subset hV) (by decide)
  refine Holds.not_in_blocks (by decide) _ h.1 ?_ (Nat.zero_le q) (by rw [Nat.zero_add]; exact hq)
  exact List.forall_mem_cons.2 ⟨⟨h1, hquote⟩, List.forall_mem_cons.2 ⟨⟨halgid, hquote⟩, List.forall_mem_cons.2
    ⟨⟨h3, hquote⟩, List.forall_mem_cons.2 ⟨⟨hchecksum, hquote⟩, List.forall_mem_cons.2 ⟨⟨h5, hspace⟩, by simp⟩⟩⟩⟩⟩

theorem valueText_length (algid checksum : List UInt8) (kid : Vector UInt8 16) :
    (valueText algid checksum kid).length = (attributesText algid checksum).length + 33 := by
  have hkid : (encodeBase64 kid.toList).length = 24 := by rw [encodeBase64_length, Vector.length_toList]
  have hvalue : (ascii "VALUE").length = 5 := by decide
  simp only [valueText, List.length_append, hkid, hvalue, List.length_cons, List.length_nil]

/-- Behind the name of an attribute the quote that opens its value is the second character. -/
theorem first_quote_opening {a : Nat} {rest : List UInt8} (h : Holds (wide mem a) 0 ([0x3d, 0x22] ++ rest)) :
    FirstAt (wide mem a) (ascii "\"") 1 := by
  have hquote : ascii "\"" = [0x22] := by decide
  rw [hquote]
  refine ⟨⟨h.2.1, trivial⟩, fun q hq hk => ?_⟩
  obtain rfl : q = 0 := by omega
  exact absurd (h.1.symm.trans hk.1) (by decide)

/-- The text of a key id is ended by the first quote. -/
theorem first_quote_closing {a : Nat} {kid : Vector UInt8 16} {rest : List UInt8}
    (h : Holds (wide mem a) 0 (encodeBase64 kid.toList ++ 0x22 :: rest)) : FirstAt (wide mem a) (ascii "\"") 24 := by
  have hquote : ascii "\"" = [0x22] := by decide
  have hkid : (encodeBase64 kid.toList).length = 24 := by rw [encodeBase64_length, Vector.length_toList]
  rw [holds_append, Nat.zero_add, hkid] at h
  rw [hquote]
  refine ⟨⟨h.2.1, trivial⟩, fun q hq => ?_⟩
  exact h.1.not_of_head (encodeBase64_plain _).1 (Nat.zero_le q) (by omega)

/-- What the searches of the second loop give inside an element: the text of the key id, and the
length handed to `Base64`. -/
theorem find_value {body : Nat} {algid checksum : List UInt8} {kid : Vector UInt8 16}
    (halgid : ¬ ascii "VALUE" <:+: algid) (hchecksum : ¬ ascii "VALUE" <:+: checksum) {end_ : UInt16}
    (h : Holds (wide mem body) 0 (valueText algid checksum kid))
    (hend : end_.toNat = 2 * (valueText algid checksum kid).length) (hsmall : end_.toNat < 65500) :
    ∃ keyValue quote closing : UInt16,
      (findInXML mem body end_ (ascii "VALUE") 5).Returns keyValue ∧
      (findInXML mem (body + (keyValue.toNat + 10)) (u16 (end_.toNat - keyValue.toNat - 10))
        (ascii "\"") 1).Returns quote ∧
      (findInXML mem (body + (keyValue.toNat + 10 + (u16 (quote.toNat + 2)).toNat))
        (u16 (end_.toNat - keyValue.toNat - 10 - (u16 (quote.toNat + 2)).toNat - 2)) (ascii "\"") 1).Returns closing ∧
      (u8 (u16 (closing.toNat - 2)).toNat).toNat = 46 ∧
      Holds (wide mem (body + (keyValue.toNat + 10 + (u16 (quote.toNat + 2)).toNat))) 0 (encodeBase64 kid.toList) := by
  have hlen := valueText_length algid checksum kid
  have hquote : ascii "\"" = [0x22] := by decide
  have hlenV : (ascii "VALUE").length = 5 := by decide
  rw [valueText, List.append_assoc, List.append_assoc, holds_append, List.length_append, hlenV] at h
  obtain ⟨hvalue, hrest⟩ := h
  have hfirst := first_value halgid hchecksum hvalue
  generalize (attributesText algid checksum).length = P at hlen hfirst hrest
  -- behind `VALUE`: the equals sign and the quote, the text and the closing quote
  have hbehind : Holds (wide mem (body + 2 * (P + 5))) 0
    ([0x3d, 0x22] ++ (encodeBase64 kid.toList ++ [0x22, 0x3e])) := by
    rw [holds_wide_add]; rwa [Nat.zero_add] at hrest
  have htext : Holds (wide mem (body + 2 * (P + 7))) 0 (encodeBase64 kid.toList ++ [0x22, 0x3e]) := by
    rw [holds_append] at hbehind
    rw [holds_wide_add, show P + 7 + 0 = P + 5 + 2 by omega, ← holds_wide_add]
    exact hbehind.2
  obtain ⟨kv, hkv, hkvn⟩ := findInXML_first end_ 5 hlenV.symm hsmall hfirst (by rw [hlenV]; omega)
  have hbody : body + (kv.toNat + 10) = body + 2 * (P + 5) := by omega
  have hlen1 : (u16 (end_.toNat - kv.toNat - 10)).toNat = 56 := u16_eq (by omega) (by decide)
  obtain ⟨quote, hq, hqn⟩ := findInXML_first (u16 (end_.toNat - kv.toNat - 10)) 1 (by rw [hquote]; rfl) (by omega)
    (first_quote_opening hbehind) (by rw [hquote, hlen1]; decide)
  have hstart : (u16 (quote.toNat + 2)).toNat = 4 := u16_eq (by omega) (by decide)
  have hbody2 : body + (kv.toNat + 10 + 4) = body + 2 * (P + 7) := by omega
  have hlen2 : (u16 (end_.toNat - kv.toNat - 10 - (4 : Nat) - 2)).toNat = 50 := u16_eq (by omega) (by decide)
  obtain ⟨closing, hc, hcn⟩ := findInXML_first (u16 (end_.toNat - kv.toNat - 10 - (4 : Nat) - 2)) 1
    (by rw [hquote]; rfl) (by omega) (first_quote_closing htext) (by rw [hquote, hlen2]; decide)
  have hkey : (u16 (closing.toNat - 2)).toNat = 46 := u16_eq (by omega) (by decide)
  refine ⟨kv, quote, closing, hkv, ?_, ?_, u8_eq (by rw [hkey]) (by decide), ?_⟩
  · rw [hbody]; exact hq
  · rw [hstart, hbody2]; exact hc
  · rw [hstart, hbody2]
    rw [holds_append] at htext
    exact htext.1

/-- A pass of the second loop over `<KID .. VALUE=".."></KID>`. -/
theorem parseKidValuePass_element {c : XmlCursor K} (s : Segment) {algid checksum : List UInt8} {kid : Vector UInt8 16}
    (hs : s.inner = valueText algid checksum kid) (halgid : ¬ ascii "VALUE" <:+: algid)
    (hchecksum : ¬ ascii "VALUE" <:+: checksum) {rest : List UInt8} (h : At mem c (s.chars 0x20 ++ rest))
    (hsmall : c.size.toNat < 65500) :
    ∃ slot size, (parseKidValuePass mem c).Returns (.again ⟨slot, size, addKeyId c.keys (playReadyKey kid.toList)⟩) ∧
      At mem (⟨slot, size, addKeyId c.keys (playReadyKey kid.toList)⟩ : XmlCursor K) rest := by
  obtain ⟨b, e, hel⟩ := find_element s h hsmall
  have hsize := h.2
  rw [List.length_append, s.length_chars] at hsize
  have hinner := hel.inner
  rw [holds_append, hs] at hinner
  obtain ⟨kv, quote, closing, hkv, hq, hc, hlen, htext⟩ := find_value halgid hchecksum hinner.1
    (by rw [hel.length, hs]) (by have := hel.length; omega)
  refine ⟨_, _, ?_, hel.next _⟩
  rw [parseKidValuePass, if_pos (size_pos (by omega)), ascii_kid_space, ascii_kid_close]
  refine hel.opening.bind ?_
  rw [if_pos hel.inside]
  refine hel.closing.bind ?_
  refine hkv.bind ?_
  refine hq.bind ?_
  refine hc.bind ?_
  rw [if_pos hel.ended]
  exact (addXMLKey_kid htext (by omega) c.keys).bind (returns_pure.2 rfl)

theorem parseKidPass_done {c : XmlCursor K}
    (h : ∃ r, (findInXML mem c.slot c.size (ascii "<KID>") 5).Returns r ∧ c.size < r) :
    (parseKidPass mem c).Returns (.done c) := by
  obtain ⟨r, hr, hlt⟩ := h
  unfold parseKidPass
  split
  · refine hr.bind ?_
    rw [if_neg (fun h => Nat.lt_asymm (UInt16.lt_iff_toNat_lt.1 h) (UInt16.lt_iff_toNat_lt.1 hlt))]
    exact returns_pure.2 rfl
  · exact returns_pure.2 rfl

theorem parseKidValuePass_done {c : XmlCursor K}
    (h : ∃ r, (findInXML mem c.slot c.size (ascii "<KID ") 5).Returns r ∧ c.size < r) :
    (parseKidValuePass mem c).Returns (.done c) := by
  obtain ⟨r, hr, hlt⟩ := h
  unfold parseKidValuePass
  split
  · refine hr.bind ?_
    rw [if_neg (fun h => Nat.lt_asymm (UInt16.lt_iff_toNat_lt.1 h) (UInt16.lt_iff_toNat_lt.1 hlt))]
    exact returns_pure.2 rfl
  · exact returns_pure.2 rfl

/-- The run of either loop over the elements of its version, from any keys so far. -/
theorem loop_elements {ι : Type} (pass : XmlCursor K → Comp (Pass (XmlCursor K) (XmlCursor K))) (sep : UInt8)
    (segment : ι → Segment) (kid : ι → Vector UInt8 16) {tail : List UInt8}
    (hdone : ∀ c, At mem c tail → c.size.toNat < 65500 → (pass c).Returns (.done c)) {items : List ι}
    (hstep : ∀ i ∈ items, ∀ c rest, At mem c ((segment i).chars sep ++ rest) → c.size.toNat < 65500 →
      ∃ slot size, (pass c).Returns (.again ⟨slot, size, addKeyId c.keys (playReadyKey (kid i).toList)⟩) ∧
        At mem (⟨slot, size, addKeyId c.keys (playReadyKey (kid i).toList)⟩ : XmlCursor K) rest)
    {c : XmlCursor K} (h : At mem c (items.flatMap (fun i => (segment i).chars sep) ++ tail))
    (hsmall : c.size.toNat < 65500) :
    ∃ c', (loop pass c).Returns c' ∧ At mem c' tail ∧ c'.size.toNat ≤ c.size.toNat ∧
      c'.keys = addAll c.keys (items.map fun i => playReadyKey (kid i).toList) := by
  induction items generalizing c with
  | nil => exact ⟨c, loop_done (hdone c h hsmall), h, Nat.le_refl _, rfl⟩
  | cons i items ih =>
    rw [List.flatMap_cons, List.append_assoc] at h
    obtain ⟨slot, size, hr, hat⟩ := hstep i (List.mem_cons_self ..) c _ h hsmall
    have hle : size.toNat ≤ c.size.toNat := by
      have hsize : size.toNat = 2 * _ := hat.2
      have hsize' := h.2
      rw [List.length_append] at hsize'
      omega
    obtain ⟨c', hloop, hat', hsize, hkeys⟩ := ih (fun j hj => hstep j (List.mem_cons_of_mem _ hj)) hat
      (Nat.lt_of_le_of_lt hle hsmall)
    exact ⟨c', loop_again hr hloop, hat', Nat.le_trans hsize hle, hkeys⟩

end

/-! ## Headers -/

/-- The versions of a header: v4.0, or v4.1 and later. -/
inductive Version where
  | v40
  | v41
deriving DecidableEq, Repr

/-- The character behind `<KID`. -/
def Version.sep : Version → UInt8
  | .v40 => 0x3e
  | .v41 => 0x20

/-- The value of an attribute. -/
structure AttributeValue where
  chars : List UInt8
  quoted : 0x22 ∉ chars ∧ 0x3c ∉ chars

/-- A key id in a header. -/
inductive KidElement : Version → Type where
  | v40 (kid : Vector UInt8 16) : KidElement .v40
  | v41 (algid checksum : AttributeValue) (kid : Vector UInt8 16) : KidElement .v41

namespace KidElement

/-- `<KID>..</KID>`, or `<KID ALGID=".." CHECKSUM=".." VALUE=".."></KID>` -/
def chars {v : Version} : KidElement v → List UInt8
  | .v40 kid => ascii "<KID>" ++ encodeBase64 kid.toList ++ ascii "</KID>"
  | .v41 algid checksum kid =>
    ascii "<KID ALGID=\"" ++ algid.chars ++ ascii "\" CHECKSUM=\"" ++ checksum.chars ++ ascii "\" VALUE=\"" ++
      encodeBase64 kid.toList ++ ascii "\"></KID>"

def kid {v : Version} : KidElement v → Vector UInt8 16
  | .v40 kid => kid
  | .v41 _ _ kid => kid

/-- `VALUE` stands in the element as the name of its attribute only. -/
def Clean {v : Version} : KidElement v → Prop
  | .v40 _ => True
  | .v41 algid checksum _ => ¬ ascii "VALUE" <:+: algid.chars ∧ ¬ ascii "VALUE" <:+: checksum.chars

end KidElement

/-- A key id of a header and the text before it. -/
structure Part (v : Version) where
  gap : List UInt8
  noKid : ¬ kidOpen <:+: gap
  element : KidElement v

def Part.chars {v : Version} (p : Part v) : List UInt8 := p.gap ++ p.element.chars

/-- A PlayReady header. -/
structure Header where
  version : Version
  parts : List (Part version)
  tail : List UInt8
  noKid : ¬ kidOpen <:+: tail
  start : ascii "<WRM" <+: parts.flatMap Part.chars ++ tail

namespace Header

def chars (h : Header) : List UInt8 := h.parts.flatMap Part.chars ++ h.tail

/-- The UTF-16LE text. -/
def bytes (h : Header) : List UInt8 := utf16 h.chars

/-- The keys of the header, in order. -/
def keys {K : Type} [Thunder K] (h : Header) : List (KeyId K) :=
  h.parts.map fun p => playReadyKey p.element.kid.toList

def Clean (h : Header) : Prop := ∀ p ∈ h.parts, p.element.Clean

end Header

/-! ## Parsing headers -/

/-- What stands in an element between the character behind `<KID` and `</KID>`. -/
def KidElement.inner {v : Version} : KidElement v → List UInt8
  | .v40 kid => encodeBase64 kid.toList
  | .v41 algid checksum kid => valueText algid.chars checksum.chars kid

theorem KidElement.chars_eq {v : Version} (e : KidElement v) :
    e.chars = (kidOpen ++ [v.sep]) ++ (e.inner ++ kidClose) := by
  cases e with
  | v40 kid => rw [chars, ascii_kid, ascii_kid_close, List.append_assoc]; rfl
  | v41 algid checksum kid =>
    have h1 : ascii "<KID ALGID=\"" = kidOpen ++ [0x20] ++ ascii "ALGID=\"" := by decide
    have h2 : ascii "\" VALUE=\"" = ascii "\" " ++ (ascii "VALUE" ++ [0x3d, 0x22]) := by decide
    have h3 : ascii "\"></KID>" = [0x22, 0x3e] ++ kidClose := by decide
    rw [chars, h1, h2, h3]
    simp only [inner, valueText, attributesText, Version.sep, List.append_assoc]

theorem KidElement.plain {v : Version} (e : KidElement v) : 0x3c ∉ e.inner := by
  cases e with
  | v40 kid => exact (encodeBase64_plain _).2
  | v41 algid checksum kid =>
    have h1 : 0x3c ∉ ascii "ALGID=\"" := by decide
    have h2 : 0x3c ∉ ascii "\" CHECKSUM=\"" := by decide
    have h3 : 0x3c ∉ ascii "\" " := by decide
    have h4 : 0x3c ∉ ascii "VALUE" := by decide
    simp only [inner, valueText, attributesText, List.mem_append, not_or]
    exact ⟨⟨⟨⟨⟨⟨⟨⟨h1, algid.quoted.2⟩, h2⟩, checksum.quoted.2⟩, h3⟩, h4⟩, by decide⟩, (encodeBase64_plain _).2⟩,
      by decide⟩

def Part.segment {v : Version} (p : Part v) : Segment := ⟨p.gap, p.element.inner, p.noKid, p.element.plain⟩

theorem Part.chars_eq {v : Version} (p : Part v) : p.chars = p.segment.chars v.sep := by
  rw [chars, p.element.chars_eq, ← List.append_assoc]; rfl

section

variable {K : Type} [Thunder K] {mem : Memory}

/-- The keys of a header are added, in order. -/
theorem parseXMLBox_header (header : Header) (hclean : header.Clean) {data : Nat} {length : UInt16}
    (h : Holds mem data header.bytes) (hlen : length.toNat = header.bytes.length) (hsmall : length.toNat < 65500)
    (keys : List (KeyId K)) : (parseXMLBox mem data length keys).Returns (addAll keys header.keys) := by
  obtain ⟨version, parts, tail, hnoKid, hstart⟩ := header
  have hat : At mem (⟨data, length, keys⟩ : XmlCursor K)
      (parts.flatMap (fun p => p.segment.chars version.sep) ++ tail) := by
    have hchars : Header.chars ⟨version, parts, tail, hnoKid, hstart⟩ =
        parts.flatMap (fun p => p.segment.chars version.sep) ++ tail := by
      rw [Header.chars, funext (f := Part.chars) fun p => p.chars_eq]
    rw [Header.bytes, hchars] at h hlen
    exact ⟨holds_wide (k := 0) h, by rw [hlen, utf16_length]⟩
  have hfirst : ∀ c : XmlCursor K, At mem c tail → c.size.toNat < 65500 → (parseKidPass mem c).Returns (.done c) :=
    fun c hc hs => parseKidPass_done (by rw [ascii_kid]; exact find_no_element hc hnoKid hs)
  have hsecond : ∀ c : XmlCursor K, At mem c tail → c.size.toNat < 65500 →
      (parseKidValuePass mem c).Returns (.done c) :=
    fun c hc hs => parseKidValuePass_done (by rw [ascii_kid_space]; exact find_no_element hc hnoKid hs)
  cases version with
  | v40 =>
    obtain ⟨c, hloop, hc, hsize, hkeys⟩ := loop_elements (parseKidPass mem) 0x3e Part.segment
      (fun p => p.element.kid) hfirst (fun p _ c rest hc hs => by
        refine parseKidPass_element p.segment ?_ hc hs
        obtain ⟨gap, noKid, element⟩ := p
        cases element; rfl) hat hsmall
    exact hloop.bind ((loop_done (hsecond c hc (Nat.lt_of_le_of_lt hsize hsmall))).bind (returns_pure.2 hkeys))
  | v41 =>
    -- the first loop meets `<KID` before a blank only
    have hskip : (parseKidPass mem (⟨data, length, keys⟩ : XmlCursor K)).Returns (.done ⟨data, length, keys⟩) := by
      refine parseKidPass_done ?_
      rw [ascii_kid]
      refine findInXML_none length 5 rfl hsmall fun p hp hk => ?_
      rw [holds_append] at hk
      have hp : p + 5 ≤ length.toNat / 2 + 1 := hp
      have htext : Holds (wide mem data) 0 ((parts.map Part.segment).flatMap (Segment.chars 0x20) ++ tail) := by
        rw [List.flatMap_map]; exact hat.1
      have hend : p + 4 ≤ 0 + ((parts.map Part.segment).flatMap (Segment.chars 0x20) ++ tail).length := by
        rw [List.flatMap_map]
        have hsize : length.toNat = 2 * (parts.flatMap (fun p => p.segment.chars 0x20) ++ tail).length := hat.2
        omega
      have hsep := open_followed (by decide) hnoKid (parts.map Part.segment) htext (Nat.zero_le p) hend hk.1
      exact absurd (hsep.symm.trans hk.2.1) (by decide)
    obtain ⟨c, hloop, hc, hsize, hkeys⟩ := loop_elements (parseKidValuePass mem) 0x20 Part.segment
      (fun p => p.element.kid) hsecond (fun p hp c rest hc hs => by
        have hp := hclean p hp
        obtain ⟨gap, noKid, element⟩ := p
        cases element with
        | v41 algid checksum kid => exact parseKidValuePass_element _ rfl hp.1 hp.2 hc hs) hat hsmall
    exact (loop_done hskip).bind (hloop.bind (returns_pure.2 hkeys))

end

end Ocdm.Cenc
