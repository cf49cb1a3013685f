/-
The two scanning loops of `ParseXMLBox` (CENCParser.h) on any bytes. Each walks from element to element, and
its sizes are 16-bit differences of search results: they stay above zero, and the loops end, exactly when
every element that is reached ends in the text with both its tags, and in the second loop has its `VALUE` and
an opening quote (`xmlInside_iff`).
-/
import Ocdm.Cenc.Base64

namespace Ocdm.Cenc

open Bytes Comp Thunder

/-! ## The elements of a text -/

section

variable (mem : Memory) (tag : List UInt8) (a size : Nat)

/-- The tag is found at `p` in the `size` bytes at `a`. -/
def Opens (p : Nat) : Prop := Finds mem a tag size p ∧ 2 * p < size

/-- Behind the opening tag at `p`, which takes ten bytes, the closing one is found at `q`. -/
def Closes (p q : Nat) : Prop := Finds mem (a + (2 * p + 10)) (ascii "</KID>") (size - (2 * p + 10)) q

/-- The bytes up to behind the closing tag. -/
def past (p q : Nat) : Nat := 2 * p + 10 + 2 * q + 12

/-- The offsets in the text of `length` bytes at `data` that are reached from `start` over whole elements. -/
inductive ElementWalk (data length start : Nat) : Nat → Prop where
  | start : ElementWalk data length start start
  | next {o p q : Nat} : ElementWalk data length start o → Opens mem tag (data + o) (length - o) p →
      Closes mem (data + o) (length - o) p q → past p q ≤ length - o → ElementWalk data length start (o + past p q)

/-! ## What the sizes need -/

/-- The search for the tag ends, and the element found has all of both its tags in the text. -/
def TagFits : Prop :=
  (65534 ≤ size → ∃ p, Holds (ring mem a) p tag) ∧
    ∀ p, Opens mem tag a size p → 2 * p + 10 ≤ size ∧ ∀ q, Closes mem a size p q → past p q ≤ size

/-- In the `e` bytes at `body` there is `VALUE`, and behind it an opening quote with a character between it
and the end. -/
def AttributeFits (body e : Nat) : Prop :=
  ∃ v, Finds mem body (ascii "VALUE") e v ∧ 2 * v + 10 ≤ e ∧
    ∃ w, Finds mem (body + (2 * v + 10)) (ascii "\"") (e - (2 * v + 10)) w ∧ 2 * w + 4 ≤ e - (2 * v + 10)

/-- Behind the opening tag, as far as the search for the closing one comes, there is an attribute. -/
def ValueFits : Prop :=
  ∀ p e, Opens mem (ascii "<KID ") a size p →
    FindResult mem (a + (2 * p + 10)) (ascii "</KID>") (size - (2 * p + 10)) e → AttributeFits mem (a + (2 * p + 10)) e

end

section

variable {mem : Memory} {tag : List UInt8} {a size : Nat}

/-- Behind ten bytes the closing tag is found in the text. -/
theorem Closes.lt {p q : Nat} (h : Closes mem a size p q) (hsize : size < 65536) : 2 * q < size - (2 * p + 10) := by
  have hin := h.2 (by omega)
  have hlength : (ascii "</KID>").length = 6 := by decide
  omega

theorem Opens.unique {p p' : Nat} (h : Opens mem tag a size p) (h' : Opens mem tag a size p') : p = p' :=
  h.1.unique h'.1

/-- The search for the opening tag. -/
theorem opens_iff {size : UInt16} (hk : (5 : UInt8).toNat = tag.length) {r : UInt16}
    (h : (findInXML mem a size tag 5).Returns r) : r < size ↔ ∃ p, Opens mem tag a size.toNat p ∧ r.toNat = 2 * p := by
  rw [UInt16.lt_iff_toNat_lt]
  -- an offset past the end is none in the text
  rcases findInXML_result hk h with ⟨p, hp, hr⟩ | ⟨-, hno, hr⟩
  · refine ⟨fun hlt => ⟨p, ⟨hp, by omega⟩, hr⟩, ?_⟩
    rintro ⟨p', hp', hr'⟩
    have := hp'.2
    omega
  · refine ⟨fun hlt => by omega, ?_⟩
    rintro ⟨p, hp, -⟩
    exact absurd hp.1 (hno p)

theorem ascii_lengths : (5 : UInt8).toNat = (ascii "<KID>").length ∧ (5 : UInt8).toNat = (ascii "<KID ").length ∧
    (6 : UInt8).toNat = (ascii "</KID>").length ∧ (5 : UInt8).toNat = (ascii "VALUE").length ∧
    (1 : UInt8).toNat = (ascii "\"").length := by decide

/-- The searches for both tags of an element. -/
theorem Opens.find_close {size : UInt16} (hk : (5 : UInt8).toNat = tag.length) {p : Nat}
    (h : Opens mem tag a size.toNat p) (hin : 2 * p + 10 ≤ size.toNat) :
    ∃ b e, (findInXML mem a size tag 5).Returns b ∧ b < size ∧ b.toNat = 2 * p ∧
      (findInXML mem (a + (b.toNat + 10)) (u16 (size.toNat - b.toNat - 10)) (ascii "</KID>") 6).Returns e ∧
      FindResult mem (a + (2 * p + 10)) (ascii "</KID>") (size.toNat - (2 * p + 10)) e.toNat := by
  have hsize := size.toNat_lt
  obtain ⟨b, hb, hbn⟩ := findInXML_finds size 5 hk h.1
  have hlt := (opens_iff hk hb).2 ⟨p, h, hbn⟩
  have hM : (u16 (size.toNat - b.toNat - 10)).toNat = size.toNat - (2 * p + 10) := u16_eq (by omega) (by omega)
  obtain ⟨e, he, hresult⟩ := findInXML_short mem (a + (b.toNat + 10)) (u16 (size.toNat - b.toNat - 10)) 6
    ascii_lengths.2.2.1 (by omega)
  rw [hM, hbn] at hresult
  exact ⟨b, e, hb, hlt, hbn, he, hresult⟩

end

/-! ## One pass -/

section

variable {K : Type}

/-- What a pass does that looks for elements with a tag, wherever `ok` holds of the text. -/
structure Scans (mem : Memory) (tag : List UInt8) (ok : Nat → Nat → Prop)
    (pass : XmlCursor K → Comp (Pass (XmlCursor K) (XmlCursor K))) : Prop where
  empty : ∀ c : XmlCursor K, c.size = 0 → (pass c).Returns (.done c)
  none : ∀ c : XmlCursor K, c.size > 0 → (65534 ≤ c.size.toNat → ∃ p, Holds (ring mem c.slot) p tag) →
    (∀ p, ¬ Opens mem tag c.slot c.size.toNat p) → (pass c).Returns (.done c)
  unclosed : ∀ (c : XmlCursor K) p, c.size > 0 → ok c.slot c.size.toNat → Opens mem tag c.slot c.size.toNat p →
    2 * p + 10 ≤ c.size.toNat → (∀ q, ¬ Closes mem c.slot c.size.toNat p q) →
    (pass c).Returns (.again { c with size := 0 })
  element : ∀ (c : XmlCursor K) p q, c.size > 0 → ok c.slot c.size.toNat → Opens mem tag c.slot c.size.toNat p →
    2 * p + 10 ≤ c.size.toNat → Closes mem c.slot c.size.toNat p q →
    ∃ keys, (pass c).Returns (.again ⟨c.slot + past p q, u16 (c.size.toNat - past p q), keys⟩)
  ends : ∀ c : XmlCursor K, c.size > 0 → (pass c).Terminates → 65534 ≤ c.size.toNat →
    ∃ p, Holds (ring mem c.slot) p tag

/-- A search that the pass begins with has to end. -/
theorem find_of_terminates {mem : Memory} {tag : List UInt8} (hk : (5 : UInt8).toNat = tag.length) {a : Nat}
    {size : UInt16}
    {β : Type} {f : UInt16 → Comp β} (h : (findInXML mem a size tag 5 >>= f).Terminates) (hl : 65534 ≤ size.toNat) :
    ∃ p, Holds (ring mem a) p tag := by
  obtain ⟨b, hb⟩ := h
  obtain ⟨r, hr, -⟩ := returns_bind.1 hb
  by_contra hno
  push Not at hno
  exact findInXML_endless hk hl hno ⟨r, hr⟩

/-- A search for a tag that is not there. -/
theorem find_none {mem : Memory} {tag : List UInt8} (hk : (5 : UInt8).toNat = tag.length) {a : Nat} {size : UInt16}
    (hends : 65534 ≤ size.toNat → ∃ p, Holds (ring mem a) p tag) (hno : ∀ p, ¬ Opens mem tag a size.toNat p) :
    ∃ r, (findInXML mem a size tag 5).Returns r ∧ ¬ r < size := by
  have hterminates : (findInXML mem a size tag 5).Terminates := by
    refine findInXML_ends hk ?_
    by_cases hl : size.toNat < 65534
    · exact .inl hl
    · exact .inr (hends (by omega))
  refine hterminates.imp fun r hr => ⟨hr, fun hlt => ?_⟩
  obtain ⟨p, hp, -⟩ := (opens_iff hk hr).1 hlt
  exact hno p hp

variable [Thunder K] {mem : Memory}

theorem parseKidPass_scans : Scans mem (ascii "<KID>") (fun _ _ => True) (parseKidPass (K := K) mem) := by
  obtain ⟨hopen, -, -, -, -⟩ := ascii_lengths
  refine ⟨fun c hc => ?_, fun c hc hends hno => ?_, fun c p hc _ hp hin hno => ?_, fun c p q hc _ hp hin hq => ?_,
    fun c hc hterm => ?_⟩
  · rw [parseKidPass, if_neg (by rw [hc]; decide)]
    exact returns_pure.2 rfl
  · obtain ⟨r, hr, hlt⟩ := find_none hopen hends hno
    rw [parseKidPass, if_pos hc]
    refine hr.bind ?_
    rw [if_neg hlt]
    exact returns_pure.2 rfl
  · obtain ⟨b, e, hb, hlt, hbn, he, hresult⟩ := hp.find_close hopen hin
    rw [parseKidPass, if_pos hc]
    refine hb.bind ?_
    rw [if_pos hlt]
    refine he.bind ?_
    rcases hresult with ⟨q, hq, -⟩ | ⟨-, -, hen⟩
    · exact absurd hq (hno q)
    · rw [if_neg (by omega)]
      exact returns_pure.2 rfl
  · obtain ⟨b, e, hb, hlt, hbn, he, hresult⟩ := hp.find_close hopen hin
    have hen : e.toNat = 2 * q := hresult.unique (.inl ⟨q, hq, rfl⟩)
    have hqlt := hq.lt c.size.toNat_lt
    obtain ⟨keys, hkeys, -⟩ := addXMLKey_adds mem (c.slot + (b.toNat + 10)) (u8 e.toNat) c.keys
    refine ⟨keys, ?_⟩
    rw [parseKidPass, if_pos hc]
    refine hb.bind ?_
    rw [if_pos hlt]
    refine he.bind ?_
    rw [if_pos (by omega)]
    refine hkeys.bind (returns_pure.2 ?_)
    rw [hbn, hen]
    rfl
  · rw [parseKidPass, if_pos hc] at hterm
    exact find_of_terminates hopen hterm

omit [Thunder K] in
/-- Where there is an attribute its three searches end. -/
theorem AttributeFits.find {body : Nat} {end_ : UInt16} (h : AttributeFits mem body end_.toNat)
    (hl : end_.toNat < 65534) :
    ∃ keyValue quote closing, (findInXML mem body end_ (ascii "VALUE") 5).Returns keyValue ∧
      (findInXML mem (body + (keyValue.toNat + 10)) (u16 (end_.toNat - keyValue.toNat - 10))
        (ascii "\"") 1).Returns quote ∧
      (findInXML mem (body + (keyValue.toNat + 10 + (u16 (quote.toNat + 2)).toNat))
        (u16 (end_.toNat - keyValue.toNat - 10 - (u16 (quote.toNat + 2)).toNat - 2))
        (ascii "\"") 1).Returns closing := by
  obtain ⟨-, -, -, hvalue, hquote⟩ := ascii_lengths
  obtain ⟨v, hv, hve, w, hw, hwe⟩ := h
  obtain ⟨keyValue, hkeyValue, hkn⟩ := findInXML_finds end_ 5 hvalue hv
  have hA : (u16 (end_.toNat - keyValue.toNat - 10)).toNat = end_.toNat - (2 * v + 10) := u16_eq (by omega) (by omega)
  have hw' : Finds mem (body + (keyValue.toNat + 10)) (ascii "\"")
      (u16 (end_.toNat - keyValue.toNat - 10)).toNat w := by
    rw [hA, hkn]
    exact hw
  obtain ⟨quote, hq, hqn⟩ := findInXML_finds (u16 (end_.toNat - keyValue.toNat - 10)) 1 hquote hw'
  have hstart : (u16 (quote.toNat + 2)).toNat = 2 * w + 2 := u16_eq (by omega) (by omega)
  have hB : (u16 (end_.toNat - keyValue.toNat - 10 - (u16 (quote.toNat + 2)).toNat - 2)).toNat < 65534 := by
    rw [hstart, u16_eq (n := end_.toNat - (2 * v + 10) - (2 * w + 4)) (by omega) (by omega)]
    omega
  obtain ⟨closing, hclosing, -⟩ := findInXML_short mem (body + (keyValue.toNat + 10 + (u16 (quote.toNat + 2)).toNat))
    _ 1 hquote hB
  exact ⟨keyValue, quote, closing, hkeyValue, hq, hclosing⟩

theorem parseKidValuePass_scans : Scans mem (ascii "<KID ") (ValueFits mem) (parseKidValuePass (K := K) mem) := by
  obtain ⟨-, hopen, -, -, -⟩ := ascii_lengths
  refine ⟨fun c hc => ?_, fun c hc hends hno => ?_, fun c p hc hok hp hin hno => ?_, fun c p q hc hok hp hin hq => ?_,
    fun c hc hterm => ?_⟩
  · rw [parseKidValuePass, if_neg (by rw [hc]; decide)]
    exact returns_pure.2 rfl
  · obtain ⟨r, hr, hlt⟩ := find_none hopen hends hno
    rw [parseKidValuePass, if_pos hc]
    refine hr.bind ?_
    rw [if_neg hlt]
    exact returns_pure.2 rfl
  · have hsize := c.size.toNat_lt
    obtain ⟨b, e, hb, hlt, hbn, he, hresult⟩ := hp.find_close hopen hin
    have hattribute := hok p e.toNat hp hresult
    rcases hresult with ⟨q, hq, -⟩ | ⟨-, -, hen⟩
    · exact absurd hq (hno q)
    · rw [← hbn] at hattribute
      obtain ⟨keyValue, quote, closing, hkeyValue, hquote, hclosing⟩ := hattribute.find (by omega)
      rw [parseKidValuePass, if_pos hc]
      refine hb.bind ?_
      rw [if_pos hlt]
      refine he.bind (hkeyValue.bind (hquote.bind (hclosing.bind ?_)))
      rw [if_neg (by omega)]
      exact returns_pure.2 rfl
  · have hsize := c.size.toNat_lt
    obtain ⟨b, e, hb, hlt, hbn, he, hresult⟩ := hp.find_close hopen hin
    have hattribute := hok p e.toNat hp hresult
    have hen : e.toNat = 2 * q := hresult.unique (.inl ⟨q, hq, rfl⟩)
    have hqlt := hq.lt hsize
    rw [← hbn] at hattribute
    obtain ⟨keyValue, quote, closing, hkeyValue, hquote, hclosing⟩ := hattribute.find (by omega)
    obtain ⟨keys, hkeys, -⟩ := addXMLKey_adds mem
      (c.slot + (b.toNat + 10) + (keyValue.toNat + 10 + (u16 (quote.toNat + 2)).toNat))
      (u8 (u16 (closing.toNat - 2)).toNat) c.keys
    refine ⟨keys, ?_⟩
    rw [parseKidValuePass, if_pos hc]
    refine hb.bind ?_
    rw [if_pos hlt]
    refine he.bind (hkeyValue.bind (hquote.bind (hclosing.bind ?_)))
    rw [if_pos (by omega)]
    refine hkeys.bind (returns_pure.2 ?_)
    rw [hbn, hen]
    rfl
  · rw [parseKidValuePass, if_pos hc] at hterm
    exact find_of_terminates hopen hterm

end

/-! ## One loop -/

section

variable {K : Type} {mem : Memory} {tag : List UInt8} {ok : Nat → Nat → Prop} {data length start : Nat}
  {pass : XmlCursor K → Comp (Pass (XmlCursor K) (XmlCursor K))}

/-- The cursor is at an offset, with the rest of the text before it. -/
def AtOffset (data length o : Nat) (c : XmlCursor K) : Prop := c.slot = data + o ∧ c.size.toNat + o = length

/-- The cursor is where the walk comes, or the loop is over. -/
def OnWalk (mem : Memory) (tag : List UInt8) (data length start : Nat) (c : XmlCursor K) : Prop :=
  c.size = 0 ∨ ∃ o, ElementWalk mem tag data length start o ∧ AtOffset data length o c

theorem ElementWalk.le {o : Nat} (h : ElementWalk mem tag data length start o) : start ≤ o := by
  induction h with
  | start => exact Nat.le_refl _
  | next _ _ _ _ ih => omega

/-- The rest of the text before a cursor that has not come to its end. -/
theorem OnWalk.rest {c : XmlCursor K} (hc : OnWalk mem tag data length start c) (hpos : c.size > 0) :
    ∃ o, ElementWalk mem tag data length start o ∧ o < length ∧ c.slot = data + o ∧ c.size.toNat = length - o := by
  obtain ⟨o, hwalk, hslot, hsize⟩ := hc.resolve_left fun hzero => by
    rw [hzero] at hpos
    cases hpos
  have hpos' := UInt16.lt_iff_toNat_lt.1 hpos
  have hlt : o < length := by
    have : 0 < c.size.toNat := hpos'
    omega
  exact ⟨o, hwalk, hlt, hslot, by omega⟩

theorem size_ne {size : UInt16} (h : ¬ size = 0) : size > 0 := by
  rw [gt_iff_lt, UInt16.lt_iff_toNat_lt]
  exact Nat.pos_of_ne_zero fun hz => h (UInt16.toNat_inj.1 hz)

/-- A pass over an element that fits goes on behind it, and one that finds none stays there. -/
theorem Scans.pass_fits (h : Scans mem tag ok pass)
    (hfits : ∀ o, ElementWalk mem tag data length start o → o < length →
      TagFits mem tag (data + o) (length - o) ∧ ok (data + o) (length - o))
    {c : XmlCursor K} (hc : OnWalk mem tag data length start c) :
    (∃ c', (pass c).Returns (.again c') ∧ OnWalk mem tag data length start c' ∧ c'.size.toNat < c.size.toNat) ∨
      (pass c).Returns (.done c) ∧ (c.size = 0 ∨ ∃ o, ElementWalk mem tag data length start o ∧
        AtOffset data length o c ∧
        o < length ∧ ∀ p, ¬ Opens mem tag (data + o) (length - o) p) := by
  by_cases hzero : c.size = 0
  · exact .inr ⟨h.empty c hzero, .inl hzero⟩
  · obtain ⟨o, hwalk, hslot, hsize⟩ := hc.resolve_left hzero
    have hpos := size_ne hzero
    have hpos' : 0 < c.size.toNat := UInt16.lt_iff_toNat_lt.1 hpos
    have hrest : length - o = c.size.toNat := by omega
    obtain ⟨⟨hends, hopen⟩, hok⟩ := hfits o hwalk (by omega)
    rw [hrest, ← hslot] at hends hopen hok
    by_cases hopens : ∃ p, Opens mem tag c.slot c.size.toNat p
    · obtain ⟨p, hp⟩ := hopens
      obtain ⟨hin, hclose⟩ := hopen p hp
      left
      by_cases hcloses : ∃ q, Closes mem c.slot c.size.toNat p q
      · obtain ⟨q, hq⟩ := hcloses
        have hpast := hclose q hq
        obtain ⟨keys, hagain⟩ := h.element c p q hpos hok hp hin hq
        have hsize' : (u16 (c.size.toNat - past p q)).toNat = c.size.toNat - past p q :=
          u16_eq (by omega) (by have := c.size.toNat_lt; omega)
        refine ⟨_, hagain, .inr ⟨o + past p q, .next hwalk ?_ ?_ ?_, ?_, ?_⟩, ?_⟩
        · rw [hrest, ← hslot]
          exact hp
        · rw [hrest, ← hslot]
          exact hq
        · rw [hrest]
          exact hpast
        · show c.slot + past p q = data + (o + past p q)
          omega
        · show (u16 (c.size.toNat - past p q)).toNat + (o + past p q) = length
          omega
        · show (u16 (c.size.toNat - past p q)).toNat < c.size.toNat
          unfold past at *
          omega
      · exact ⟨_, h.unclosed c p hpos hok hp hin (not_exists.1 hcloses), .inl rfl, hpos'⟩
    · right
      refine ⟨h.none c hpos hends (not_exists.1 hopens), .inr ⟨o, hwalk, ⟨hslot, hsize⟩, by omega, ?_⟩⟩
      rw [hrest, ← hslot]
      exact not_exists.1 hopens

/-- A loop whose elements fit ends, and stays on the walk. -/
theorem Scans.loop_fits (h : Scans mem tag ok pass)
    (hfits : ∀ o, ElementWalk mem tag data length start o → o < length →
      TagFits mem tag (data + o) (length - o) ∧ ok (data + o) (length - o))
    {c : XmlCursor K} (hc : OnWalk mem tag data length start c) :
    (∃ c', (loop pass c).Returns c' ∧
      (c'.size = 0 ∨ ∃ o, ElementWalk mem tag data length start o ∧ AtOffset data length o c' ∧
        o < length ∧ ∀ p, ¬ Opens mem tag (data + o) (length - o) p)) ∧
      ∀ c', Passes pass c c' → OnWalk mem tag data length start c' := by
  refine ⟨loop_variant (OnWalk mem tag data length start) _ (fun c => c.size.toNat) (fun c hc => ?_) hc,
    fun c' hpasses => ?_⟩
  · rcases h.pass_fits hfits hc with hagain | ⟨hdone, hwhere⟩
    · exact .inl hagain
    · exact .inr ⟨c, hdone, hwhere⟩
  · induction hpasses with
    | refl => exact hc
    | tail _ hgoes ih =>
      rcases h.pass_fits hfits ih with ⟨c', hagain, hc', -⟩ | ⟨hdone, -⟩
      · cases hgoes.unique hagain
        exact hc'
      · cases hgoes.unique hdone

/-- A loop that ends, and whose cursor and lengths stay inside, comes to every offset of the walk, and what it
finds there fits. -/
theorem Scans.walk_fits (h : Scans mem tag ok pass) {c₀ : XmlCursor K} (hc₀ : AtOffset data length start c₀)
    (hterm : (loop pass c₀).Terminates)
    (hinside : ∀ c, Passes pass c₀ c → c.size > 0 → c.slot + c.size.toNat = data + length)
    (hopen : ∀ c, Passes pass c₀ c → c.size > 0 → ∀ p, Opens mem tag c.slot c.size.toNat p → 2 * p + 10 ≤ c.size.toNat)
    (hok : ∀ c, Passes pass c₀ c → c.size > 0 → ok c.slot c.size.toNat) {o : Nat}
    (hwalk : ElementWalk mem tag data length start o) :
    (∃ c, Passes pass c₀ c ∧ AtOffset data length o c) ∧
      (o < length → TagFits mem tag (data + o) (length - o) ∧ ok (data + o) (length - o)) := by
  have hpast : ∀ {c p q}, Passes pass c₀ c → c.size > 0 → Opens mem tag c.slot c.size.toNat p →
      Closes mem c.slot c.size.toNat p q →
        ∃ keys, Passes pass c₀ ⟨c.slot + past p q, u16 (c.size.toNat - past p q), keys⟩ :=
    fun hpasses hpos hp hq => (h.element _ _ _ hpos (hok _ hpasses hpos) hp (hopen _ hpasses hpos _ hp) hq).imp
      fun _ hagain => hpasses.tail hagain
  have hreached : ∃ c, Passes pass c₀ c ∧ AtOffset data length o c := by
    induction hwalk with
    | start => exact ⟨c₀, .refl, hc₀⟩
    | @next o p q _ hp hq hin ih =>
      obtain ⟨c, hpasses, hslot, hsize⟩ := ih
      have hrest : length - o = c.size.toNat := by omega
      rw [hrest, ← hslot] at hp hq
      rw [hrest] at hin
      have hpos : c.size > 0 := UInt16.lt_iff_toNat_lt.2 (show 0 < c.size.toNat by unfold past at hin; omega)
      obtain ⟨keys, hnext⟩ := hpast hpasses hpos hp hq
      refine ⟨_, hnext, ?_, ?_⟩
      · show c.slot + past p q = data + (o + past p q)
        omega
      · show (u16 (c.size.toNat - past p q)).toNat + (o + past p q) = length
        rw [u16_eq (n := c.size.toNat - past p q) (by omega) (by have := c.size.toNat_lt; omega)]
        omega
  refine ⟨hreached, fun ho => ?_⟩
  obtain ⟨c, hpasses, hslot, hsize⟩ := hreached
  have hrest : length - o = c.size.toNat := by omega
  have hpos : c.size > 0 := UInt16.lt_iff_toNat_lt.2 (show 0 < c.size.toNat by omega)
  rw [hrest, ← hslot]
  refine ⟨⟨h.ends c hpos ?_, fun p hp => ⟨hopen c hpasses hpos p hp, fun q hq => ?_⟩⟩, hok c hpasses hpos⟩
  · obtain ⟨b, hb⟩ := hterm
    rcases returns_loop.1 (hpasses.returns_iff.1 hb) with hdone | ⟨c', hagain, -⟩
    · exact hdone.terminates
    · exact hagain.terminates
  · by_contra hover
    -- the size comes out just below 65536, and the cursor is behind the text
    have hin := hopen c hpasses hpos p hp
    have hq' := hq.lt c.size.toNat_lt
    obtain ⟨keys, hnext⟩ := hpast hpasses hpos hp hq
    have hwrapped : (u16 (c.size.toNat - past p q)).toNat = 65536 + c.size.toNat - past p q := by
      have := toNat_u16 (c.size.toNat - past p q)
      unfold past at *
      omega
    have hnext' := hinside _ hnext (UInt16.lt_iff_toNat_lt.2 (by
      show 0 < (u16 (c.size.toNat - past p q)).toNat
      unfold past at *
      omega))
    have hend : c.slot + past p q + (u16 (c.size.toNat - past p q)).toNat = data + length := hnext'
    unfold past at *
    omega

end

/-! ## Both loops -/

/-- The length passed to the second search of a pass of the first loop. -/
def KidLengths {K : Type} (mem : Memory) (c : XmlCursor K) : Prop :=
  ∀ begin_, (findInXML mem c.slot c.size (ascii "<KID>") 5).Returns begin_ → begin_ < c.size →
    begin_.toNat + 10 ≤ c.size.toNat

/-- The lengths passed to the later searches of a pass of the second loop. -/
def ValueLengths {K : Type} (mem : Memory) (c : XmlCursor K) : Prop :=
  ∀ begin_, (findInXML mem c.slot c.size (ascii "<KID ") 5).Returns begin_ → begin_ < c.size →
    begin_.toNat + 10 ≤ c.size.toNat ∧
    ∀ end_, (findInXML mem (c.slot + (begin_.toNat + 10)) (u16 (c.size.toNat - begin_.toNat - 10))
        (ascii "</KID>") 6).Returns end_ →
    ∀ keyValue, (findInXML mem (c.slot + (begin_.toNat + 10)) end_ (ascii "VALUE") 5).Returns keyValue →
      keyValue.toNat + 10 ≤ end_.toNat ∧
    ∀ quote, (findInXML mem (c.slot + (begin_.toNat + 10) + (keyValue.toNat + 10))
        (u16 (end_.toNat - keyValue.toNat - 10)) (ascii "\"") 1).Returns quote →
      keyValue.toNat + 10 + (u16 (quote.toNat + 2)).toNat + 2 ≤ end_.toNat

/-- Both loops end, and before every pass the bytes skipped and those left are those of the text, and no
length comes out below zero. -/
structure XmlInside (K : Type) [Thunder K] (mem : Memory) (data : Nat) (length : UInt16) : Prop where
  ends : ∀ keys : List (KeyId K), (parseXMLBox mem data length keys).Terminates
  kid : ∀ (keys : List (KeyId K)) c, Passes (parseKidPass mem) ⟨data, length, keys⟩ c → c.size > 0 →
    c.slot + c.size.toNat = data + length.toNat ∧ KidLengths mem c
  value : ∀ (keys : List (KeyId K)) c₁ c, (loop (parseKidPass mem) ⟨data, length, keys⟩).Returns c₁ →
    Passes (parseKidValuePass mem) c₁ c → c.size > 0 → c.slot + c.size.toNat = data + length.toNat ∧ ValueLengths mem c

/-- Every element that is reached fits, in the first loop and from where it stops. -/
structure XmlFits (mem : Memory) (data length : Nat) : Prop where
  kid : ∀ o, ElementWalk mem (ascii "<KID>") data length 0 o → o < length →
    TagFits mem (ascii "<KID>") (data + o) (length - o)
  value : ∀ o₀ o, ElementWalk mem (ascii "<KID>") data length 0 o₀ → o₀ < length →
    (∀ p, ¬ Opens mem (ascii "<KID>") (data + o₀) (length - o₀) p) → ElementWalk mem (ascii "<KID ") data length o₀ o →
    o < length → TagFits mem (ascii "<KID ") (data + o) (length - o) ∧ ValueFits mem (data + o) (length - o)

section

variable {mem : Memory}

/-- The length behind an opening tag. -/
theorem Opens.lengths {K : Type} {tag : List UInt8} (hk : (5 : UInt8).toNat = tag.length) {c : XmlCursor K} {p : Nat}
    (h : Opens mem tag c.slot c.size.toNat p)
    (hlengths : ∀ begin_, (findInXML mem c.slot c.size tag 5).Returns begin_ → begin_ < c.size →
      begin_.toNat + 10 ≤ c.size.toNat) : 2 * p + 10 ≤ c.size.toNat := by
  obtain ⟨r, hr, hrp⟩ := findInXML_finds c.size 5 hk h.1
  have := hlengths r hr ((opens_iff hk hr).2 ⟨p, h, hrp⟩)
  omega

/-- Lengths that stay above zero are lengths behind what is found. -/
theorem ValueLengths.fits {K : Type} {c : XmlCursor K} (h : ValueLengths mem c) :
    ValueFits mem c.slot c.size.toNat := by
  obtain ⟨-, hopen, -, hvalue, hquote⟩ := ascii_lengths
  have hsize := c.size.toNat_lt
  intro p e hp he
  have hin := hp.lengths hopen fun begin_ hb hlt => (h begin_ hb hlt).1
  obtain ⟨b, end_, hb, hlt, hbn, hend, hresult⟩ := hp.find_close hopen hin
  have hafter := (h b hb hlt).2 end_ hend
  rw [hbn] at hafter
  have hende : end_.toNat = e := hresult.unique he
  have hel : e ≤ c.size.toNat - (2 * p + 10) + 2 := by
    rcases he with ⟨q, hq, rfl⟩ | ⟨-, -, rfl⟩
    · have := Closes.lt hq hsize
      omega
    · omega
  obtain ⟨keyValue, hkv, hkvresult⟩ := findInXML_short mem (c.slot + (2 * p + 10)) end_ 5 hvalue (by omega)
  obtain ⟨hkvin, hquotes⟩ := hafter keyValue hkv
  rw [hende] at hkvresult hkvin hquotes
  -- a search that finds nothing is past the end
  rcases hkvresult with ⟨v, hv, hvn⟩ | ⟨-, -, hvn⟩
  · have hA : (u16 ((e : Int) - keyValue.toNat - 10)).toNat = e - (2 * v + 10) := u16_eq (by omega) (by omega)
    obtain ⟨quote, hq, hqresult⟩ := findInXML_short mem (c.slot + (2 * p + 10) + (keyValue.toNat + 10))
      (u16 ((e : Int) - keyValue.toNat - 10)) 1 hquote (by omega)
    have hqin := hquotes quote hq
    rw [hA, hvn] at hqresult
    refine ⟨v, hv, by omega, ?_⟩
    rcases hqresult with ⟨w, hw, hwn⟩ | ⟨-, -, hwn⟩
    · have hstart : (u16 (quote.toNat + 2)).toNat = 2 * w + 2 :=
        u16_eq (by omega) (by have := hw.2 (by omega); omega)
      exact ⟨w, hw, by omega⟩
    · have hstart : (u16 (quote.toNat + 2)).toNat = 2 * ((e - (2 * v + 10)) / 2 + 1) + 2 := u16_eq (by omega) (by omega)
      omega
  · omega

theorem KidLengths.of_fits {K : Type} {c : XmlCursor K} (h : TagFits mem (ascii "<KID>") c.slot c.size.toNat) :
    KidLengths mem c := by
  intro begin_ hb hlt
  obtain ⟨p, hp, hbp⟩ := (opens_iff ascii_lengths.1 hb).1 hlt
  have := (h.2 p hp).1
  omega

theorem ValueLengths.of_fits {K : Type} {c : XmlCursor K} (h : TagFits mem (ascii "<KID ") c.slot c.size.toNat)
    (hvalues : ValueFits mem c.slot c.size.toNat) : ValueLengths mem c := by
  obtain ⟨-, hopen, hclose, hvalue, hquote⟩ := ascii_lengths
  have hsize := c.size.toNat_lt
  intro begin_ hb hlt
  obtain ⟨p, hp, hbp⟩ := (opens_iff hopen hb).1 hlt
  have hin := (h.2 p hp).1
  refine ⟨by omega, fun end_ hend keyValue hkv => ?_⟩
  have hM : (u16 (c.size.toNat - begin_.toNat - 10)).toNat = c.size.toNat - (2 * p + 10) := u16_eq (by omega) (by omega)
  have hresult := findInXML_result hclose hend
  rw [hM] at hresult
  rw [hbp] at *
  obtain ⟨v, hv, hve, w, hw, hwe⟩ := hvalues p end_.toNat hp hresult
  have hkvn : keyValue.toNat = 2 * v := (findInXML_result hvalue hkv).unique (.inl ⟨v, hv, rfl⟩)
  refine ⟨by omega, fun quote hq => ?_⟩
  have hA : (u16 (end_.toNat - keyValue.toNat - 10)).toNat = end_.toNat - (2 * v + 10) := u16_eq (by omega) (by
    have := end_.toNat_lt
    omega)
  have hqn : quote.toNat = 2 * w := by
    refine (findInXML_result hquote hq).unique (.inl ⟨w, ?_, rfl⟩)
    rw [hA, hkvn]
    exact hw
  have hstart : (u16 (quote.toNat + 2)).toNat = 2 * w + 2 := u16_eq (by omega) (by
    have := end_.toNat_lt
    omega)
  omega

end

section

variable {K : Type} [Thunder K] {mem : Memory} {data : Nat} {length : UInt16}

/-- Loops that stay inside come only to elements that fit. -/
theorem XmlInside.elements_fit (h : XmlInside K mem data length) : XmlFits mem data length.toNat := by
  obtain ⟨hkid, hkidvalue, -, -, -⟩ := ascii_lengths
  have hstart : AtOffset data length.toNat 0 (⟨data, length, []⟩ : XmlCursor K) := ⟨rfl, rfl⟩
  obtain ⟨keys, hkeys⟩ := h.ends []
  obtain ⟨c₁, hc₁, hrun⟩ := returns_bind.1 hkeys
  obtain ⟨c₂, hc₂, -⟩ := returns_bind.1 hrun
  have hwalk₁ := fun o => parseKidPass_scans.walk_fits hstart ⟨c₁, hc₁⟩
    (fun c hpasses hpos => (h.kid [] c hpasses hpos).1)
    (fun c hpasses hpos p hp => hp.lengths hkid (h.kid [] c hpasses hpos).2) (fun _ _ _ => trivial) (o := o)
  refine ⟨fun o hwalk ho => ((hwalk₁ o hwalk).2 ho).1, fun o₀ o hwalk₀ ho₀ hno hwalk ho => ?_⟩
  -- the first loop stops where its walk finds no element
  obtain ⟨⟨c, hpasses, hslot, hsize⟩, hfits₁⟩ := hwalk₁ o₀ hwalk₀
  have hrest : length.toNat - o₀ = c.size.toNat := by omega
  have hpos : c.size > 0 := UInt16.lt_iff_toNat_lt.2 (show 0 < c.size.toNat by omega)
  have hends := (hfits₁ ho₀).1.1
  rw [hrest, ← hslot] at hno hends
  have hreturns := hpasses.returns_iff.2 (loop_done (parseKidPass_scans.none c hpos hends hno))
  obtain rfl := hc₁.unique hreturns
  exact (parseKidValuePass_scans.walk_fits ⟨hslot, hsize⟩ ⟨c₂, hc₂⟩
    (fun c hpasses hpos => (h.value [] c₁ c hc₁ hpasses hpos).1)
    (fun c hpasses hpos p hp => hp.lengths hkidvalue fun begin_ hb hlt =>
      ((h.value [] c₁ c hc₁ hpasses hpos).2 begin_ hb hlt).1)
    (fun c hpasses hpos => (h.value [] c₁ c hc₁ hpasses hpos).2.fits) hwalk).2 ho

/-- Over elements that fit the first loop ends. -/
theorem XmlFits.kid_loop (h : XmlFits mem data length.toNat) (keys : List (KeyId K)) :
    (∃ c₁, (loop (parseKidPass mem) ⟨data, length, keys⟩).Returns c₁ ∧
      (c₁.size = 0 ∨ ∃ o, ElementWalk mem (ascii "<KID>") data length.toNat 0 o ∧ AtOffset data length.toNat o c₁ ∧
        o < length.toNat ∧ ∀ p, ¬ Opens mem (ascii "<KID>") (data + o) (length.toNat - o) p)) ∧
      ∀ c, Passes (parseKidPass mem) ⟨data, length, keys⟩ c → OnWalk mem (ascii "<KID>") data length.toNat 0 c :=
  parseKidPass_scans.loop_fits (fun o hwalk ho => ⟨h.kid o hwalk ho, trivial⟩) (.inr ⟨0, .start, rfl, rfl⟩)

/-- The second loop begins where the first one stopped, or not at all, and goes over elements that fit. -/
theorem XmlFits.value_start (h : XmlFits mem data length.toNat) {keys : List (KeyId K)} {c₁ : XmlCursor K}
    (hc₁ : (loop (parseKidPass mem) ⟨data, length, keys⟩).Returns c₁) :
    ∃ start, (∀ o, ElementWalk mem (ascii "<KID ") data length.toNat start o → o < length.toNat →
      TagFits mem (ascii "<KID ") (data + o) (length.toNat - o) ∧ ValueFits mem (data + o) (length.toNat - o)) ∧
      OnWalk mem (ascii "<KID ") data length.toNat start c₁ := by
  obtain ⟨⟨c, hc, hwhere⟩, -⟩ := h.kid_loop keys
  obtain rfl := hc.unique hc₁
  rcases hwhere with hzero | ⟨o₀, hwalk₀, hat, ho₀, hno⟩
  · exact ⟨length.toNat, fun o hwalk ho => absurd hwalk.le (by omega), .inl hzero⟩
  · exact ⟨o₀, fun o hwalk ho => h.value o₀ o hwalk₀ ho₀ hno hwalk ho, .inr ⟨o₀, .start, hat⟩⟩

/-- Over elements that fit both loops stay inside. -/
theorem XmlFits.loops_inside (h : XmlFits mem data length.toNat) : XmlInside K mem data length := by
  refine ⟨fun keys => ?_, fun keys c hpasses hpos => ?_, fun keys c₁ c hc₁ hpasses hpos => ?_⟩
  · obtain ⟨⟨c₁, hc₁, -⟩, -⟩ := h.kid_loop keys
    obtain ⟨start, hfits, hc₁'⟩ := h.value_start hc₁
    obtain ⟨⟨c₂, hc₂, -⟩, -⟩ := parseKidValuePass_scans.loop_fits hfits hc₁'
    exact ⟨c₂.keys, hc₁.bind (hc₂.bind (returns_pure.2 rfl))⟩
  · obtain ⟨o, hwalk, ho, hslot, hsize⟩ := ((h.kid_loop keys).2 c hpasses).rest hpos
    have hfit := h.kid o hwalk ho
    rw [← hsize, ← hslot] at hfit
    exact ⟨by omega, .of_fits hfit⟩
  · obtain ⟨start, hfits, hc₁'⟩ := h.value_start hc₁
    obtain ⟨o, hwalk, ho, hslot, hsize⟩ := ((parseKidValuePass_scans.loop_fits hfits hc₁').2 c hpasses).rest hpos
    obtain ⟨htag, hvalue⟩ := hfits o hwalk ho
    rw [← hsize, ← hslot] at htag hvalue
    exact ⟨by omega, .of_fits htag hvalue⟩

end

/-- For every text: both loops end with the cursor and all lengths inside exactly when every element that is reached
fits. -/
theorem xmlInside_iff (K : Type) [Thunder K] (mem : Memory) (data : Nat) (length : UInt16) :
    XmlInside K mem data length ↔ XmlFits mem data length.toNat := by
  constructor
  · intro h
    exact h.elements_fit
  · intro h
    exact h.loops_inside

/-- An element without `VALUE`: twelve characters. -/
def withoutValue : Memory := place 4096 (utf16 (ascii "<KID ></KID>")) 0

theorem withoutValue_wraps : ¬ XmlInside Kid withoutValue 4096 24 := by
  intro h
  have hno : (findInXML withoutValue 4096 24 (ascii "<KID>") 5).Returns 26 := ⟨20, by decide +kernel⟩
  have hfirst : (loop (parseKidPass withoutValue) (⟨4096, 24, []⟩ : XmlCursor Kid)).Returns ⟨4096, 24, []⟩ := by
    refine loop_done ?_
    rw [parseKidPass, if_pos (by decide)]
    exact hno.bind (returns_pure.2 rfl)
  have hopens : (findInXML withoutValue 4096 24 (ascii "<KID ") 5).Returns 0 := ⟨20, by decide +kernel⟩
  have hcloses : (findInXML withoutValue 4106 14 (ascii "</KID>") 6).Returns 2 := ⟨20, by decide +kernel⟩
  have hvalue : (findInXML withoutValue 4106 2 (ascii "VALUE") 5).Returns 4 := ⟨20, by decide +kernel⟩
  have hlengths := (h.value [] _ _ hfirst .refl (by decide)).2 0 hopens (by decide)
  exact absurd (hlengths.2 2 hcloses 4 hvalue).1 (by decide)

end Ocdm.Cenc
