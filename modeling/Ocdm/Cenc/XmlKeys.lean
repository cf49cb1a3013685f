/-
Where the keys of a text come from (CENCParser.h). A key is to be the base64 decoding of what stands between
`<KID>` and `</KID>`, or in the value of a `VALUE` attribute. `ParseXMLBox` compares low bytes only and goes
on with searches that found nothing, so that keys can come from anywhere behind a tag. From elements that end
in the text, are what their low bytes look like and have their attribute, it takes just these keys
(`keysOfElements`).
-/
import Ocdm.Cenc.XmlWalk

namespace Ocdm.Cenc

open Bytes Comp Thunder

/-! ## Texts -/

section

variable (text : Nat → UInt16) (n : Nat)

/-- The characters from `k` on are `cs`, among the first `n`. -/
def Spells (k : Nat) (cs : List UInt8) : Prop :=
  k + cs.length ≤ n ∧ ∀ i (hi : i < cs.length), text (k + i) = cs[i].toUInt16

/-- A tag at `k`, and at `m` the next closing one. -/
structure KidBetween (tag : List UInt8) (k m : Nat) : Prop where
  opening : Spells text n k tag
  behind : k + tag.length ≤ m
  closing : Spells text n m (ascii "</KID>")
  next : ∀ j, k + tag.length ≤ j → j < m → ¬ Spells text n j (ascii "</KID>")

/-- White space. -/
def IsBlank (c : UInt16) : Prop := c = 0x20 ∨ c = 0x09 ∨ c = 0x0a ∨ c = 0x0d

/-- A character that names, here, may have. -/
def IsNameChar (c : UInt16) : Prop := ¬ IsBlank c ∧ c ≠ 0x22 ∧ c ≠ 0x27 ∧ c ≠ 0x2f ∧ c ≠ 0x3c ∧ c ≠ 0x3d ∧ c ≠ 0x3e

instance (c : UInt16) : Decidable (IsBlank c) :=
  inferInstanceAs (Decidable (c = 0x20 ∨ c = 0x09 ∨ c = 0x0a ∨ c = 0x0d))

instance (c : UInt16) : Decidable (IsNameChar c) :=
  inferInstanceAs (Decidable (¬ IsBlank c ∧ c ≠ 0x22 ∧ c ≠ 0x27 ∧ c ≠ 0x2f ∧ c ≠ 0x3c ∧ c ≠ 0x3d ∧ c ≠ 0x3e))

/-- An attribute from `i` on: white space, its name, `=`, and a value between quotes. -/
structure Attribute (i : Nat) where
  name : Nat
  nameEnd : Nat
  equals : Nat
  quote : Nat
  close : Nat
  order : i < name ∧ name < nameEnd ∧ nameEnd ≤ equals ∧ equals < quote ∧ quote < close
  blank : ∀ k, i ≤ k → k < name → IsBlank (text k)
  named : ∀ k, name ≤ k → k < nameEnd → IsNameChar (text k)
  before : ∀ k, nameEnd ≤ k → k < equals → IsBlank (text k)
  equal : text equals = 0x3d
  after : ∀ k, equals < k → k < quote → IsBlank (text k)
  opening : text quote = 0x22 ∨ text quote = 0x27
  value : ∀ k, quote < k → k < close → text k ≠ text quote
  closing : text close = text quote

/-- The places in an opening tag that are reached from `start` over attributes. -/
inductive InTag (start : Nat) : Nat → Prop where
  | start : InTag start start
  | next {i : Nat} (a : Attribute text i) : InTag start i → InTag start (a.close + 1)

/-- In the element with its tags at `k` and `m` this is an attribute `VALUE`. -/
structure Attribute.IsValue {i : Nat} (a : Attribute text i) (k m : Nat) : Prop where
  inTag : InTag text (k + 4) i
  spells : Spells text n a.name (ascii "VALUE")
  whole : a.nameEnd = a.name + 5
  inside : a.close < m

/-- The sixteen bytes `kid` are decoded from 22 base64 digits from `s` on, which end at `e` or before. -/
def TextDecodes (s e : Nat) (kid : List UInt8) : Prop :=
  ∃ cs ds, Spells text n s cs ∧ s + cs.length ≤ e ∧ cs.map base64Digit = ds.map some ∧ ds.length = 22 ∧
    kid.length = 16 ∧
    bytesValue kid = digitsValue ds / 16

/-- `kid` is decoded from the element with its tags at `k` and `m`: between them, or from the value of `VALUE`. -/
def KidDecoded (k m : Nat) (kid : List UInt8) : Prop :=
  KidBetween text n (ascii "<KID>") k m ∧ TextDecodes text n (k + 5) m kid ∨
    KidBetween text n (ascii "<KID ") k m ∧ ∃ i, ∃ a : Attribute text i, a.IsValue text n k m ∧
      TextDecodes text n (a.quote + 1) a.close kid

/-- The characters from `k` on are below 256. -/
def Narrow (k count : Nat) : Prop := ∀ i < count, text (k + i) < 256

/-- The low bytes from `s` on are 22 digits. -/
def LikeKid (s : Nat) : Prop := ∀ i < 22, (base64Digit (text (s + i)).toUInt8).isSome

/-- The tags at `k` and `m` and the 22 characters from `s` on are their low bytes. -/
def Plain (k m s : Nat) : Prop := Narrow text k 5 ∧ Narrow text m 6 ∧ Narrow text s 22

variable {text n}

theorem InTag.le {start i : Nat} (h : InTag text start i) : start ≤ i := by
  induction h with
  | start => exact Nat.le_refl _
  | next a _ ih =>
    have horder := a.order
    omega

end

/-- The character at `k` of the text at `data`. -/
def character (mem : Memory) (data k : Nat) : UInt16 := read16LE mem (data + 2 * k)

section

variable {mem : Memory} {data n : Nat}

theorem character_low (mem : Memory) (data k : Nat) : (character mem data k).toUInt8 = mem (data + 2 * k) := by
  have h := read16LE_toNat mem (data + 2 * k)
  have hlt := (mem (data + 2 * k)).toNat_lt
  refine UInt8.toNat_inj.1 ?_
  rw [UInt16.toNat_toUInt8, character, h]
  omega

/-- A character below 256 is its low byte. -/
theorem character_narrow {k : Nat} (h : character mem data k < 256) :
    character mem data k = (mem (data + 2 * k)).toUInt16 := by
  have hlt : (character mem data k).toNat < 256 := UInt16.lt_iff_toNat_lt.1 h
  rw [← character_low mem data k]
  refine UInt16.toNat_inj.1 ?_
  rw [UInt8.toNat_toUInt16, UInt16.toNat_toUInt8, Nat.mod_eq_of_lt hlt]

/-- What is spelled is in the low bytes. -/
theorem Spells.holds {k : Nat} {cs : List UInt8} (h : Spells (character mem data) n k cs) :
    Holds (wide mem data) k cs := by
  refine holds_of_get fun i hi => ?_
  have hlow := character_low mem data (k + i)
  rw [h.2 i hi, UInt8.toUInt8_toUInt16] at hlow
  exact hlow.symm

/-- What is in the low bytes of characters below 256 is spelled. -/
theorem spells_of_holds {k : Nat} {cs : List UInt8} (h : Holds (wide mem data) k cs) (hin : k + cs.length ≤ n)
    (hnarrow : Narrow (character mem data) k cs.length) : Spells (character mem data) n k cs := by
  refine ⟨hin, fun i hi => ?_⟩
  rw [character_narrow (hnarrow i hi)]
  exact congrArg UInt8.toUInt16 (h.get hi)

end

/-! ## One pass -/

/-- In the `size` bytes at `a` an element is found, with all of its opening tag. -/
structure Encloses (mem : Memory) (tag : List UInt8) (a size p q : Nat) : Prop where
  opens : Opens mem tag a size p
  whole : 2 * p + 10 ≤ size
  closes : Closes mem a size p q

/-- The text that the first loop decodes begins behind the opening tag. -/
def KidTaken (body e t : Nat) (length : UInt8) : Prop := t = body ∧ length = u8 e

/-- The text that the second loop decodes begins behind what its searches return, found or not. -/
def ValueTaken (mem : Memory) (body e t : Nat) (length : UInt8) : Prop :=
  ∃ keyValue quote closing : UInt16, FindResult mem body (ascii "VALUE") e keyValue.toNat ∧
    FindResult mem (body + (keyValue.toNat + 10)) (ascii "\"") (u16 (e - keyValue.toNat - 10)).toNat quote.toNat ∧
    FindResult mem t (ascii "\"") (u16 (e - keyValue.toNat - 10 - (u16 (quote.toNat + 2)).toNat - 2)).toNat
      closing.toNat ∧
    t = body + (keyValue.toNat + 10 + (u16 (quote.toNat + 2)).toNat) ∧ length = u8 (u16 (closing.toNat - 2)).toNat

section

variable {K : Type} [Thunder K] {mem : Memory}

/-- What a pass does that looks for elements with a tag: it comes behind an element, maybe with a key from the
text that is taken there, or to the end. -/
structure TakesKeys (mem : Memory) (tag : List UInt8) (taken : Nat → Nat → Nat → UInt8 → Prop)
    (pass : XmlCursor K → Comp (Pass (XmlCursor K) (XmlCursor K))) : Prop where
  again : ∀ c c', (pass c).Returns (.again c') → c'.size = 0 ∧ c'.keys = c.keys ∨
    ∃ p q, Encloses mem tag c.slot c.size.toNat p q ∧ c'.slot = c.slot + past p q ∧
      c'.size = u16 (c.size.toNat - past p q) ∧ (c'.keys = c.keys ∨ ∃ t length ds kid,
        taken (c.slot + (2 * p + 10)) (2 * q) t length ∧ DecodedFrom mem t length ds kid ∧
        c'.keys = addKeyId c.keys (playReadyKey kid))
  done : ∀ c c', (pass c).Returns (.done c') → c' = c ∧ (c.size = 0 ∨ ∀ p, ¬ Opens mem tag c.slot c.size.toNat p)

/-- Where the search for the closing tag has a result in the text, it has found one. -/
theorem encloses_of_find {tag : List UInt8} {a : Nat} {size begin_ end_ : UInt16} (hk : (5 : UInt8).toNat = tag.length)
    (hb : (findInXML mem a size tag 5).Returns begin_) (hlt : begin_ < size)
    (he : (findInXML mem (a + (begin_.toNat + 10)) (u16 (size.toNat - begin_.toNat - 10))
      (ascii "</KID>") 6).Returns end_)
    (hclosed : (end_.toNat : Int) < size.toNat - begin_.toNat - 10) :
    ∃ p q, Encloses mem tag a size.toNat p q ∧ begin_.toNat = 2 * p ∧ end_.toNat = 2 * q := by
  obtain ⟨p, hp, hbp⟩ := (opens_iff hk hb).1 hlt
  have hsize := size.toNat_lt
  have hresult := findInXML_result ascii_lengths.2.2.1 he
  have hM : (u16 (size.toNat - begin_.toNat - 10)).toNat = size.toNat - (2 * p + 10) := u16_eq (by omega) (by omega)
  rw [hM, hbp] at hresult
  rcases hresult with ⟨q, hq, heq⟩ | ⟨-, -, heq⟩
  · exact ⟨p, q, ⟨hp, by omega, hq⟩, hbp, heq⟩
  · omega

/-- Where the search for the opening tag has no result in the text, it has found none. -/
theorem not_opens {tag : List UInt8} {a : Nat} {size begin_ : UInt16} (hk : (5 : UInt8).toNat = tag.length)
    (hb : (findInXML mem a size tag 5).Returns begin_) (hlt : ¬ begin_ < size) (p : Nat) :
    ¬ Opens mem tag a size.toNat p := by
  intro hp
  obtain ⟨r, hr, hrp⟩ := findInXML_finds size 5 hk hp.1
  obtain rfl := hb.unique hr
  exact hlt ((opens_iff hk hb).2 ⟨p, hp, hrp⟩)

/-- What a pass adds and where it goes on, once it has found an element and the text to decode. -/
theorem Encloses.again {tag : List UInt8} {taken : Nat → Nat → Nat → UInt8 → Prop} {c c' : XmlCursor K} {p q t : Nat}
    {begin_ end_ : UInt16} {length : UInt8} (h : Encloses mem tag c.slot c.size.toNat p q)
    (hbegin : begin_.toNat = 2 * p) (hend : end_.toNat = 2 * q)
    (htaken : taken (c.slot + (2 * p + 10)) (2 * q) t length)
    (hreturns : (addXMLKey mem t length c.keys >>= fun keys =>
      return Pass.again ⟨c.slot + (begin_.toNat + 10 + end_.toNat + 12),
        u16 (c.size.toNat - (begin_.toNat + 10 + end_.toNat + 12 : Nat)), keys⟩ :
      Comp (Pass (XmlCursor K) (XmlCursor K))).Returns (.again c')) :
    ∃ p q, Encloses mem tag c.slot c.size.toNat p q ∧ c'.slot = c.slot + past p q ∧
      c'.size = u16 (c.size.toNat - past p q) ∧ (c'.keys = c.keys ∨ ∃ t length ds kid,
        taken (c.slot + (2 * p + 10)) (2 * q) t length ∧ DecodedFrom mem t length ds kid ∧
        c'.keys = addKeyId c.keys (playReadyKey kid)) := by
  obtain ⟨keys, hkeys, hreturns⟩ := returns_bind.1 hreturns
  obtain ⟨keys', hkeys', hadds⟩ := addXMLKey_adds mem t length c.keys
  obtain rfl := hkeys.unique hkeys'
  cases returns_pure.1 hreturns
  have hpast : begin_.toNat + 10 + end_.toNat + 12 = past p q := by rw [hbegin, hend]; rfl
  refine ⟨p, q, h, congrArg (c.slot + ·) hpast, ?_, hadds.imp id ?_⟩
  · show u16 (c.size.toNat - (begin_.toNat + 10 + end_.toNat + 12 : Nat)) = _
    rw [hpast]
  · rintro ⟨ds, kid, hkid, hkeys⟩
    exact ⟨t, length, ds, kid, htaken, hkid, hkeys⟩

theorem parseKidPass_takes : TakesKeys mem (ascii "<KID>") KidTaken (parseKidPass (K := K) mem) := by
  obtain ⟨hopen, -, -, -, -⟩ := ascii_lengths
  refine ⟨fun c c' h => ?_, fun c c' h => ?_⟩
  · unfold parseKidPass at h
    split at h
    · obtain ⟨begin_, hb, h⟩ := returns_bind.1 h
      split at h
      · rename_i hlt
        obtain ⟨end_, he, h⟩ := returns_bind.1 h
        split at h
        · rename_i hclosed
          obtain ⟨p, q, helement, hbp, heq⟩ := encloses_of_find hopen hb hlt he hclosed
          exact .inr (helement.again hbp heq ⟨by rw [hbp], by rw [heq]⟩ h)
        · cases returns_pure.1 h
          exact .inl ⟨rfl, rfl⟩
      · cases returns_pure.1 h
    · cases returns_pure.1 h
  · unfold parseKidPass at h
    split at h
    · obtain ⟨begin_, hb, h⟩ := returns_bind.1 h
      split at h
      · obtain ⟨end_, -, h⟩ := returns_bind.1 h
        split at h
        · obtain ⟨keys, -, h⟩ := returns_bind.1 h
          cases returns_pure.1 h
        · cases returns_pure.1 h
      · rename_i hlt
        cases returns_pure.1 h
        exact ⟨rfl, .inr (not_opens hopen hb hlt)⟩
    · rename_i hpos
      cases returns_pure.1 h
      exact ⟨rfl, .inl (by_contra fun hne => hpos (size_ne hne))⟩

theorem parseKidValuePass_takes : TakesKeys mem (ascii "<KID ") (ValueTaken mem) (parseKidValuePass (K := K) mem) := by
  obtain ⟨-, hopen, -, hvalue, hquote⟩ := ascii_lengths
  refine ⟨fun c c' h => ?_, fun c c' h => ?_⟩
  · unfold parseKidValuePass at h
    split at h
    · obtain ⟨begin_, hb, h⟩ := returns_bind.1 h
      split at h
      · rename_i hlt
        obtain ⟨end_, he, h⟩ := returns_bind.1 h
        obtain ⟨keyValue, hkv, h⟩ := returns_bind.1 h
        obtain ⟨quote, hq, h⟩ := returns_bind.1 h
        obtain ⟨closing, hc, h⟩ := returns_bind.1 h
        split at h
        · rename_i hclosed
          obtain ⟨p, q, helement, hbp, heq⟩ := encloses_of_find hopen hb hlt he hclosed
          refine .inr (helement.again hbp heq ?_ h)
          -- the searches, each from where the one before it ended
          have hkv := findInXML_result hvalue hkv
          have hq := findInXML_result hquote hq
          have hc := findInXML_result hquote hc
          rw [heq, hbp] at hkv hq hc
          exact ⟨keyValue, quote, closing, hkv, hq, by rwa [hbp], by rw [hbp], rfl⟩
        · cases returns_pure.1 h
          exact .inl ⟨rfl, rfl⟩
      · cases returns_pure.1 h
    · cases returns_pure.1 h
  · unfold parseKidValuePass at h
    split at h
    · obtain ⟨begin_, hb, h⟩ := returns_bind.1 h
      split at h
      · obtain ⟨end_, -, h⟩ := returns_bind.1 h
        obtain ⟨keyValue, -, h⟩ := returns_bind.1 h
        obtain ⟨quote, -, h⟩ := returns_bind.1 h
        obtain ⟨closing, -, h⟩ := returns_bind.1 h
        split at h
        · obtain ⟨keys, -, h⟩ := returns_bind.1 h
          cases returns_pure.1 h
        · cases returns_pure.1 h
      · rename_i hlt
        cases returns_pure.1 h
        exact ⟨rfl, .inr (not_opens hopen hb hlt)⟩
    · rename_i hpos
      cases returns_pure.1 h
      exact ⟨rfl, .inl (by_contra fun hne => hpos (size_ne hne))⟩

end

/-! ## One element -/

section

variable {mem : Memory} {tag : List UInt8} {data n j p q : Nat}

/-- What is found in the first round is in the text, and nowhere before. -/
theorem Finds.holds {key : List UInt8} {size : Nat} (h : Finds mem (data + 2 * j) key size p)
    (hp : p + key.length ≤ 32768) :
    Holds (wide mem data) (j + p) key ∧ ∀ r < p, ¬ Holds (wide mem data) (j + r) key := by
  constructor
  · exact (holds_wide_add p key).1 ((holds_ring hp).1 h.1.1)
  · intro r hr hholds
    exact h.1.2 r hr ((holds_ring (by omega)).2 ((holds_wide_add r key).2 hholds))

/-- The tags of an element that is what it looks like. -/
theorem Encloses.between {size : Nat} (h : Encloses mem tag (data + 2 * j) size p q) (htag : tag.length = 5)
    (hsize : size < 65536) (hpast : past p q ≤ size) (hn : j + size / 2 ≤ n)
    (hopen : Narrow (character mem data) (j + p) 5) (hclose : Narrow (character mem data) (j + p + 5 + q) 6) :
    KidBetween (character mem data) n tag (j + p) (j + p + 5 + q) := by
  unfold past at hpast
  have hlength : (ascii "</KID>").length = 6 := by decide
  have hopens := (h.opens.1.holds (by omega)).1
  have hcloses : Finds mem (data + 2 * (j + p + 5)) (ascii "</KID>") (size - (2 * p + 10)) q := by
    have haddress : data + 2 * (j + p + 5) = data + 2 * j + (2 * p + 10) := by omega
    rw [haddress]
    exact h.closes
  obtain ⟨hat, hbefore⟩ := hcloses.holds (by omega)
  refine ⟨spells_of_holds hopens (by omega) (by rwa [htag]), by omega,
    spells_of_holds hat (by omega) (by rwa [hlength]),
    fun k hk hkm hspells => ?_⟩
  refine hbefore (k - (j + p + 5)) (by omega) ?_
  have hplace : j + p + 5 + (k - (j + p + 5)) = k := by omega
  rw [hplace]
  exact hspells.holds

/-- What looks like 22 digits. -/
theorem DecodedFrom.digit {s : Nat} {length : UInt8} {ds kid : List UInt8}
    (h : DecodedFrom mem (data + 2 * s) length ds kid)
    {i : Nat} (hi : i < ds.length) : base64Digit (mem (data + 2 * (s + i))) = some ds[i] ∧ 2 * i < length.toNat := by
  have hdigit := h.digits i hi
  have haddress : data + 2 * (s + i) = data + 2 * s + 2 * i := by omega
  rw [haddress]
  exact hdigit

theorem DecodedFrom.likeKid {s : Nat} {length : UInt8} {ds kid : List UInt8}
    (h : DecodedFrom mem (data + 2 * s) length ds kid) : LikeKid (character mem data) s := by
  intro i hi
  rw [character_low, (h.digit (by rw [h.number]; exact hi)).1]
  rfl

/-- The digits decoded are those of the text. -/
theorem DecodedFrom.decodes {s e : Nat} {length : UInt8} {ds kid : List UInt8}
    (h : DecodedFrom mem (data + 2 * s) length ds kid) (hnarrow : Narrow (character mem data) s 22) (hse : s + 22 ≤ e)
    (he : e ≤ n) : TextDecodes (character mem data) n s e kid := by
  have hlength := slice_length (wide mem data) s 22
  refine ⟨slice (wide mem data) s 22, ds, ?_, by omega, ?_, h.number, h.bytes, h.value⟩
  · exact spells_of_holds (holds_slice _ _ _) (by omega) (by rwa [hlength])
  · refine List.ext_getElem (by simp [h.number]) fun i hi hi' => ?_
    rw [List.length_map] at hi'
    rw [List.getElem_map, List.getElem_map, ← (h.digit hi').1]
    simp [slice, wide]

/-- The key of an element of the first loop. -/
theorem kidTaken_decoded {size t : Nat} {length : UInt8} {ds kid : List UInt8}
    (h : Encloses mem (ascii "<KID>") (data + 2 * j) size p q) (hsize : size < 65536) (hpast : past p q ≤ size)
    (hn : j + size / 2 ≤ n)
    (hplain : LikeKid (character mem data) (j + p + 5) →
      Plain (character mem data) (j + p) (j + p + 5 + q) (j + p + 5))
    (htaken : KidTaken (data + 2 * j + (2 * p + 10)) (2 * q) t length) (hkid : DecodedFrom mem t length ds kid) :
    KidDecoded (character mem data) n (j + p) (j + p + 5 + q) kid := by
  obtain ⟨rfl, rfl⟩ := htaken
  have haddress : data + 2 * j + (2 * p + 10) = data + 2 * (j + p + 5) := by omega
  rw [haddress] at hkid
  obtain ⟨hopen, hclose, htext⟩ := hplain hkid.likeKid
  have hlast := (hkid.digit (show 21 < ds.length by rw [hkid.number]; decide)).2
  have hu8 := toNat_u8 ((2 * q : Nat) : Int)
  unfold past at hpast
  exact .inl ⟨h.between (by decide) hsize hpast hn hopen hclose, hkid.decodes htext (by omega) (by omega)⟩

/-- A quote that the searches see. -/
theorem holds_quote {s r : Nat} (hr : r + 1 ≤ 32768) :
    Holds (ring mem (data + 2 * s)) r (ascii "\"") ↔ (character mem data (s + r)).toUInt8 = 0x22 := by
  have hquote : ascii "\"" = [0x22] := by decide
  rw [hquote, holds_ring hr, character_low]
  have haddress : data + 2 * (s + r) = data + 2 * s + 2 * r := by omega
  rw [haddress]
  exact ⟨fun h => h.1, fun h => ⟨h, trivial⟩⟩

/-- The text that the second loop takes begins behind the first quote behind the first `VALUE`. -/
theorem ValueTaken.start {B v w t : Nat} {length : UInt8} (h : ValueTaken mem (data + 2 * B) (2 * q) t length)
    (hq : B + q < 32768) (hv : Finds mem (data + 2 * B) (ascii "VALUE") (2 * q) v) (hvq : v + 5 ≤ q)
    (hw : Finds mem (data + 2 * (B + v + 5)) (ascii "\"") (2 * q - (2 * v + 10)) w) :
    t = data + 2 * (B + v + 5 + w + 1) ∧ ∃ closing : UInt16,
      FindResult mem t (ascii "\"") (u16 ((2 * q : Nat) - (2 * v : Nat) - 10 - (2 * w + 2 : Nat) - 2)).toNat
        closing.toNat ∧ length = u8 (u16 (closing.toNat - 2)).toNat := by
  obtain ⟨keyValue, quote, closing, hkv, hquotes, hc, ht, hlength⟩ := h
  have hkvn : keyValue.toNat = 2 * v := hkv.unique (.inl ⟨v, hv, rfl⟩)
  have hbehind : data + 2 * B + (2 * v + 10) = data + 2 * (B + v + 5) := by omega
  have hA : (u16 ((2 * q : Nat) - (2 * v : Nat) - 10)).toNat = 2 * q - (2 * v + 10) := u16_eq (by omega) (by omega)
  rw [hkvn] at hquotes hc ht
  rw [hbehind, hA] at hquotes
  have hqn : quote.toNat = 2 * w := hquotes.unique (.inl ⟨w, hw, rfl⟩)
  have hin := hw.2 (by omega)
  have hquoteLength : (ascii "\"").length = 1 := by decide
  have hstart : (u16 (quote.toNat + 2)).toNat = 2 * w + 2 := u16_eq (by omega) (by omega)
  rw [hstart] at hc ht
  exact ⟨by omega, closing, hc, hlength⟩

/-- A quote in the value, or at its end, is found. -/
theorem Attribute.find_close {b e : Nat} (a : Attribute (character mem data) b) (he : a.close < e) (he' : e < 32768)
    (hquote : (character mem data a.quote).toUInt8 = 0x22) {closing : Nat}
    (h : FindResult mem (data + 2 * (a.quote + 1)) (ascii "\"") (2 * (e - (a.quote + 1)) - 2) closing) :
    ∃ z, closing = 2 * z ∧ a.quote + 1 + z ≤ a.close ∧ (character mem data (a.quote + 1 + z)).toUInt8 = 0x22 := by
  obtain ⟨-, -, -, -, hlast⟩ := a.order
  have hquoteLength : (ascii "\"").length = 1 := by decide
  have hend : Holds (ring mem (data + 2 * (a.quote + 1))) (a.close - (a.quote + 1)) (ascii "\"") := by
    refine (holds_quote (by omega)).2 ?_
    rwa [Nat.add_sub_of_le (by omega), a.closing]
  obtain ⟨z, hz⟩ := exists_firstAt hend
  have hze : z ≤ a.close - (a.quote + 1) := Nat.le_of_not_lt fun hlt => hz.2 _ hlt hend
  exact ⟨z, h.unique (.inl ⟨z, ⟨hz, fun _ => by omega⟩, rfl⟩), by omega, (holds_quote (by omega)).1 hz.1⟩

/-- The digits decoded end before the quote. -/
theorem DecodedFrom.before_quote {s z : Nat} {ds kid : List UInt8}
    (h : DecodedFrom mem (data + 2 * s) (u8 (u16 ((2 * z : Nat) - 2)).toNat) ds kid) (hz : z < 32768)
    (hquote : (character mem data (s + z)).toUInt8 = 0x22) : 22 ≤ z := by
  have hz0 : z ≠ 0 := by
    rintro rfl
    -- a quote is no digit
    have hdigit := (h.digit (show 0 < ds.length by rw [h.number]; decide)).1
    rw [← character_low mem data, hquote] at hdigit
    cases hdigit
  have hlength : (u16 ((2 * z : Nat) - 2)).toNat = 2 * z - 2 := u16_eq (by omega) (by omega)
  have hu8 := toNat_u8 ((u16 ((2 * z : Nat) - 2)).toNat : Int)
  have hlast := (h.digit (show 21 < ds.length by rw [h.number]; decide)).2
  omega

/-- The key of an element of the second loop. -/
theorem valueTaken_decoded {size t v w : Nat} {length : UInt8} {ds kid : List UInt8}
    (h : Encloses mem (ascii "<KID ") (data + 2 * j) size p q) (hsize : size < 65536) (hpast : past p q ≤ size)
    (hn : j + size / 2 ≤ n) (hn' : n < 32768) (hv : Finds mem (data + 2 * (j + p + 5)) (ascii "VALUE") (2 * q) v)
    (hvq : v + 5 ≤ q) (hw : Finds mem (data + 2 * (j + p + 5 + v + 5)) (ascii "\"") (2 * q - (2 * v + 10)) w)
    (hplain : LikeKid (character mem data) (j + p + 5 + v + 5 + w + 1) →
      Plain (character mem data) (j + p) (j + p + 5 + q) (j + p + 5 + v + 5 + w + 1) ∧
      ∃ b, ∃ a : Attribute (character mem data) b, a.IsValue (character mem data) n (j + p) (j + p + 5 + q) ∧
        a.quote = j + p + 5 + v + 5 + w)
    (htaken : ValueTaken mem (data + 2 * j + (2 * p + 10)) (2 * q) t length) (hkid : DecodedFrom mem t length ds kid) :
    KidDecoded (character mem data) n (j + p) (j + p + 5 + q) kid := by
  have hpast' := hpast
  unfold past at hpast'
  have hbody : data + 2 * j + (2 * p + 10) = data + 2 * (j + p + 5) := by omega
  rw [hbody] at htaken
  obtain ⟨rfl, closing, hclosing, rfl⟩ := htaken.start (by omega) hv hvq hw
  -- what looks like a key is the value of an attribute
  obtain ⟨⟨hopen, hclose, hnarrow⟩, b, a, hvalue, haq⟩ := hplain hkid.likeKid
  have hin := hw.2 (by omega)
  have hquote := (holds_quote (by omega)).1 hw.1.1
  have hinside := hvalue.inside
  obtain ⟨-, -, -, -, hlast⟩ := a.order
  rw [← haq] at hclosing hkid hquote hnarrow
  have hlength : (u16 ((2 * q : Nat) - (2 * v : Nat) - 10 - (2 * w + 2 : Nat) - 2)).toNat =
      2 * (j + p + 5 + q - (a.quote + 1)) - 2 := u16_eq (by omega) (by omega)
  rw [hlength] at hclosing
  obtain ⟨z, hz, hzc, hzquote⟩ := a.find_close hinside (by omega) hquote hclosing
  rw [hz] at hkid
  have hdigits := hkid.before_quote (by omega) hzquote
  exact .inr ⟨h.between (by decide) hsize hpast hn hopen hclose, b, a, hvalue,
    hkid.decodes hnarrow (by omega) (by omega)⟩

end

/-! ## One loop -/

/-- A pass adds no key, or one decoded from the element that it comes behind. -/
def AddsElement {K : Type} [Thunder K] (mem : Memory) (data n : Nat) (c c' : XmlCursor K) : Prop :=
  c'.keys = c.keys ∨ ∃ k m kid, c.slot ≤ data + 2 * k ∧ c'.slot = data + 2 * (m + 6) ∧
    KidDecoded (character mem data) n k m kid ∧ c'.keys = addKeyId c.keys (playReadyKey kid)

/-- Keys decoded from elements are added. -/
def AddsElements {K : Type} [Thunder K] (mem : Memory) (data n : Nat) (keys keys' : List (KeyId K)) : Prop :=
  ∃ kids : List (List UInt8), (∀ kid ∈ kids, ∃ k m, KidDecoded (character mem data) n k m kid) ∧
    keys' = addAll keys (kids.map playReadyKey)

/-- The elements of a walk end in the text, and the keys taken there are decoded from them. -/
structure TakesOwn (mem : Memory) (tag : List UInt8) (taken : Nat → Nat → Nat → UInt8 → Prop)
    (data length start n : Nat) : Prop where
  even : start % 2 = 0
  whole : ∀ j p q, ElementWalk mem tag data length start (2 * j) →
    Encloses mem tag (data + 2 * j) (length - 2 * j) p q → past p q ≤ length - 2 * j
  decoded : ∀ j p q t len ds kid, ElementWalk mem tag data length start (2 * j) →
    Encloses mem tag (data + 2 * j) (length - 2 * j) p q → taken (data + 2 * j + (2 * p + 10)) (2 * q) t len →
    DecodedFrom mem t len ds kid → KidDecoded (character mem data) n (j + p) (j + p + 5 + q) kid

section

variable {K : Type} [Thunder K] {mem : Memory} {tag : List UInt8} {taken : Nat → Nat → Nat → UInt8 → Prop}
  {data length start n : Nat} {pass : XmlCursor K → Comp (Pass (XmlCursor K) (XmlCursor K))} {c c' : XmlCursor K}

theorem AddsElements.refl (keys : List (KeyId K)) : AddsElements mem data n keys keys := ⟨[], nofun, rfl⟩

theorem AddsElements.trans {keys keys' keys'' : List (KeyId K)} (h : AddsElements mem data n keys keys')
    (h' : AddsElements mem data n keys' keys'') : AddsElements mem data n keys keys'' := by
  obtain ⟨kids, hkids, rfl⟩ := h
  obtain ⟨kids', hkids', rfl⟩ := h'
  refine ⟨kids ++ kids', fun kid hkid => ?_, by rw [List.map_append, addAll_append]⟩
  rcases List.mem_append.1 hkid with hkid | hkid
  · exact hkids kid hkid
  · exact hkids' kid hkid

theorem AddsElement.adds (h : AddsElement mem data n c c') : AddsElements mem data n c.keys c'.keys := by
  rcases h with h | ⟨k, m, kid, -, -, hkid, h⟩
  · rw [h]
    exact .refl c.keys
  · refine ⟨[kid], fun kid' hkid' => ?_, h⟩
    rw [List.mem_singleton.1 hkid']
    exact ⟨k, m, hkid⟩

omit [Thunder K] in
theorem ElementWalk.even (hstart : start % 2 = 0) {o : Nat} (h : ElementWalk mem tag data length start o) :
    o % 2 = 0 := by
  induction h with
  | start => exact hstart
  | next _ _ _ _ ih =>
    unfold past
    omega

omit [Thunder K] in
/-- A cursor that finds an element is on the walk. -/
theorem OnWalk.offset (hc : OnWalk mem tag data length start c) (hstart : start % 2 = 0) {p q : Nat}
    (h : Encloses mem tag c.slot c.size.toNat p q) :
    ∃ j, ElementWalk mem tag data length start (2 * j) ∧ c.slot = data + 2 * j ∧ c.size.toNat = length - 2 * j ∧
      2 * j ≤ length := by
  obtain ⟨o, hwalk, hslot, hsize⟩ := hc.resolve_left fun hzero => by
    have hin := h.whole
    rw [hzero] at hin
    exact absurd hin (by show ¬ 2 * p + 10 ≤ 0; omega)
  obtain ⟨j, rfl⟩ : ∃ j, o = 2 * j := ⟨o / 2, by have := hwalk.even hstart; omega⟩
  exact ⟨j, hwalk, hslot, by omega, by omega⟩

/-- Over elements that end in the text a pass keeps to the walk. -/
theorem TakesKeys.onWalk (h : TakesKeys mem tag taken pass) (hown : TakesOwn mem tag taken data length start n)
    (hc : OnWalk mem tag data length start c) (hagain : (pass c).Returns (.again c')) :
    OnWalk mem tag data length start c' := by
  rcases h.again c c' hagain with ⟨hzero, -⟩ | ⟨p, q, helement, hslot', hsize', -⟩
  · exact .inl hzero
  · obtain ⟨j, hwalk, hslot, hsize, hj⟩ := hc.offset hown.even helement
    have hlt := c.size.toNat_lt
    rw [hslot, hsize] at helement
    have hpast := hown.whole j p q hwalk helement
    refine .inr ⟨2 * j + past p q, .next hwalk helement.opens helement.closes hpast, by omega, ?_⟩
    rw [hsize', u16_eq (n := length - 2 * j - past p q) (by omega) (by omega)]
    omega

/-- A pass on the walk adds the key of the element it passes. -/
theorem TakesKeys.adds (h : TakesKeys mem tag taken pass) (hown : TakesOwn mem tag taken data length start n)
    (hc : OnWalk mem tag data length start c) (hagain : (pass c).Returns (.again c')) :
    AddsElement mem data n c c' := by
  rcases h.again c c' hagain with ⟨-, hkeys⟩ | ⟨p, q, helement, hslot', -, hkeys⟩
  · exact .inl hkeys
  · refine hkeys.imp id ?_
    rintro ⟨t, len, ds, kid, htaken, hdecoded, hkeys⟩
    obtain ⟨j, hwalk, hslot, hsize, -⟩ := hc.offset hown.even helement
    rw [hslot, hsize] at helement
    rw [hslot] at htaken hslot'
    refine ⟨j + p, j + p + 5 + q, kid, by omega, ?_,
      hown.decoded j p q t len ds kid hwalk helement htaken hdecoded, hkeys⟩
    rw [hslot']
    unfold past
    omega

/-- A run of passes keeps to the walk, and what it adds are keys of elements. -/
theorem TakesKeys.run (h : TakesKeys mem tag taken pass) (hown : TakesOwn mem tag taken data length start n)
    (hc : OnWalk mem tag data length start c) (hpasses : Passes pass c c') :
    OnWalk mem tag data length start c' ∧ AddsElements mem data n c.keys c'.keys := by
  induction hpasses with
  | refl => exact ⟨hc, .refl c.keys⟩
  | tail _ hagain ih => exact ⟨h.onWalk hown ih.1 hagain, ih.2.trans (h.adds hown ih.1 hagain).adds⟩

/-- A loop returns a state it passes through, where it finds no element. -/
theorem TakesKeys.result (h : TakesKeys mem tag taken pass) (hreturns : (loop pass c).Returns c') :
    Passes pass c c' ∧ (c'.size = 0 ∨ ∀ p, ¬ Opens mem tag c'.slot c'.size.toNat p) := by
  refine loop_post (fun s => Passes pass c s)
    (fun c' => Passes pass c c' ∧ (c'.size = 0 ∨ ∀ p, ¬ Opens mem tag c'.slot c'.size.toNat p)) ?_ ?_ .refl hreturns
  · exact fun _ _ hpasses hagain => hpasses.tail hagain
  · intro s b hpasses hdone
    obtain ⟨rfl, hstop⟩ := h.done s b hdone
    exact ⟨hpasses, hstop⟩

end

/-! ## Both loops -/

/-- Every pass that goes on adds no key, or one decoded from the element it passes; and so the keys added are those of
elements. -/
structure KeysOfElements (K : Type) [Thunder K] (mem : Memory) (data : Nat) (length : UInt16) : Prop where
  kid : ∀ (keys : List (KeyId K)) c c', Passes (parseKidPass mem) ⟨data, length, keys⟩ c →
    (parseKidPass mem c).Returns (.again c') → AddsElement mem data (length.toNat / 2) c c'
  value : ∀ (keys : List (KeyId K)) c₁ c c', (loop (parseKidPass mem) ⟨data, length, keys⟩).Returns c₁ →
    Passes (parseKidValuePass mem) c₁ c → (parseKidValuePass mem c).Returns (.again c') →
    AddsElement mem data (length.toNat / 2) c c'
  result : ∀ keys keys' : List (KeyId K), (parseXMLBox mem data length keys).Returns keys' →
    AddsElements mem data (length.toNat / 2) keys keys'

/-- The elements that the loops come to end in the text. In the second loop there are a `VALUE` and a quote
behind it in each. And where there seem to be 22 digits, behind the tag or behind that quote, they and the tags
are what their low bytes look like, and the quote opens the value of an attribute `VALUE`. -/
structure XmlPlain (mem : Memory) (data length : Nat) : Prop where
  kid : ∀ j p q, ElementWalk mem (ascii "<KID>") data length 0 (2 * j) →
    Encloses mem (ascii "<KID>") (data + 2 * j) (length - 2 * j) p q →
    past p q ≤ length - 2 * j ∧ (LikeKid (character mem data) (j + p + 5) →
      Plain (character mem data) (j + p) (j + p + 5 + q) (j + p + 5))
  value : ∀ i j p q, ElementWalk mem (ascii "<KID>") data length 0 (2 * i) →
    (∀ p, ¬ Opens mem (ascii "<KID>") (data + 2 * i) (length - 2 * i) p) →
    ElementWalk mem (ascii "<KID ") data length (2 * i) (2 * j) →
    Encloses mem (ascii "<KID ") (data + 2 * j) (length - 2 * j) p q →
    past p q ≤ length - 2 * j ∧ ∃ v w, Finds mem (data + 2 * (j + p + 5)) (ascii "VALUE") (2 * q) v ∧ v + 5 ≤ q ∧
      Finds mem (data + 2 * (j + p + 5 + v + 5)) (ascii "\"") (2 * q - (2 * v + 10)) w ∧
      (LikeKid (character mem data) (j + p + 5 + v + 5 + w + 1) →
        Plain (character mem data) (j + p) (j + p + 5 + q) (j + p + 5 + v + 5 + w + 1) ∧
        ∃ b, ∃ a : Attribute (character mem data) b,
          a.IsValue (character mem data) (length / 2) (j + p) (j + p + 5 + q) ∧ a.quote = j + p + 5 + v + 5 + w)

section

variable {mem : Memory} {data length : Nat}

theorem XmlPlain.kid_own (h : XmlPlain mem data length) (hlength : length < 65536) :
    TakesOwn mem (ascii "<KID>") KidTaken data length 0 (length / 2) where
  even := rfl
  whole j p q hwalk helement := (h.kid j p q hwalk helement).1
  decoded j p q t len ds kid hwalk helement htaken hkid := by
    obtain ⟨hpast, hplain⟩ := h.kid j p q hwalk helement
    have hwhole := helement.whole
    exact kidTaken_decoded helement (by omega) hpast (by omega) hplain htaken hkid

theorem XmlPlain.value_own (h : XmlPlain mem data length) (hlength : length < 65536) {i : Nat}
    (hwalk₀ : ElementWalk mem (ascii "<KID>") data length 0 (2 * i))
    (hno : ∀ p, ¬ Opens mem (ascii "<KID>") (data + 2 * i) (length - 2 * i) p) :
    TakesOwn mem (ascii "<KID ") (ValueTaken mem) data length (2 * i) (length / 2) where
  even := Nat.mul_mod_right 2 i
  whole j p q hwalk helement := (h.value i j p q hwalk₀ hno hwalk helement).1
  decoded j p q t len ds kid hwalk helement htaken hkid := by
    obtain ⟨hpast, v, w, hv, hvq, hw, hplain⟩ := h.value i j p q hwalk₀ hno hwalk helement
    have hwhole := helement.whole
    exact valueTaken_decoded helement (by omega) hpast (by omega) (by omega) hv hvq hw hplain htaken hkid

/-- Behind the text there are no elements. -/
theorem takesOwn_behind {tag : List UInt8} {taken : Nat → Nat → Nat → UInt8 → Prop} {n : Nat} :
    TakesOwn mem tag taken data length (2 * length) n := by
  have hno : ∀ {j p q}, ElementWalk mem tag data length (2 * length) (2 * j) →
      ¬ Encloses mem tag (data + 2 * j) (length - 2 * j) p q := fun hwalk helement => by
    have hge := hwalk.le
    have hwhole := helement.whole
    omega
  exact ⟨Nat.mul_mod_right 2 length, fun _ _ _ hwalk helement => absurd helement (hno hwalk),
    fun _ _ _ _ _ _ _ hwalk helement => absurd helement (hno hwalk)⟩

end

/-- For every text: from elements that are what they look like and have their attribute, `ParseXMLBox` adds
the keys decoded from elements, and no others. -/
theorem keysOfElements (K : Type) [Thunder K] {mem : Memory} {data : Nat} {length : UInt16}
    (h : XmlPlain mem data length.toNat) : KeysOfElements K mem data length := by
  have hlength := length.toNat_lt
  have hfirst : ∀ {keys : List (KeyId K)} {c}, Passes (parseKidPass mem) ⟨data, length, keys⟩ c →
      OnWalk mem (ascii "<KID>") data length.toNat 0 c ∧ AddsElements mem data (length.toNat / 2) keys c.keys :=
    fun hpasses => parseKidPass_takes.run (h.kid_own hlength) (.inr ⟨0, .start, rfl, rfl⟩) hpasses
  -- where the first loop ends the second one begins its walk, or finds nothing
  have hsecond : ∀ {keys : List (KeyId K)} {c₁}, (loop (parseKidPass mem) ⟨data, length, keys⟩).Returns c₁ →
      ∃ start, TakesOwn mem (ascii "<KID ") (ValueTaken mem) data length.toNat start (length.toNat / 2) ∧
        OnWalk mem (ascii "<KID ") data length.toNat start c₁ := by
    intro keys c₁ hc₁
    obtain ⟨hpasses, hstop⟩ := parseKidPass_takes.result hc₁
    rcases (hfirst hpasses).1 with hzero | ⟨o, hwalk, hslot, hsize⟩
    · exact ⟨2 * length.toNat, takesOwn_behind, .inl hzero⟩
    · rcases hstop with hzero | hno
      · exact ⟨2 * length.toNat, takesOwn_behind, .inl hzero⟩
      · obtain ⟨i, rfl⟩ : ∃ i, o = 2 * i := ⟨o / 2, by have := hwalk.even rfl; omega⟩
        have hrest : c₁.size.toNat = length.toNat - 2 * i := by omega
        rw [hslot, hrest] at hno
        exact ⟨2 * i, h.value_own hlength hwalk hno, .inr ⟨2 * i, .start, hslot, hsize⟩⟩
  refine ⟨fun keys c c' hpasses hagain => ?_, fun keys c₁ c c' hc₁ hpasses hagain => ?_, fun keys keys' hreturns => ?_⟩
  · exact parseKidPass_takes.adds (h.kid_own hlength) (hfirst hpasses).1 hagain
  · obtain ⟨start, hown, hc₁'⟩ := hsecond hc₁
    exact parseKidValuePass_takes.adds hown (parseKidValuePass_takes.run hown hc₁' hpasses).1 hagain
  · obtain ⟨c₁, hc₁, hreturns⟩ := returns_bind.1 hreturns
    obtain ⟨c₂, hc₂, hreturns⟩ := returns_bind.1 hreturns
    obtain rfl := returns_pure.1 hreturns
    obtain ⟨start, hown, hc₁'⟩ := hsecond hc₁
    have hpasses := (parseKidPass_takes.result hc₁).1
    exact (hfirst hpasses).2.trans (parseKidValuePass_takes.run hown hc₁' (parseKidValuePass_takes.result hc₂).1).2

/-- One element with its key in `VALUE`. -/
def valueElement : Memory := place 4096 (utf16 (ascii "<KID VALUE=\"AAECAwQFBgcICQoLDA0ODw==\"></KID>")) 0

/-- The attribute of that element. -/
def valueAttribute : Attribute (character valueElement 4096) 4 where
  name := 5
  nameEnd := 10
  equals := 10
  quote := 11
  close := 36
  order := by decide
  blank k hk hlt := (by decide +kernel : ∀ k < 5, 4 ≤ k → IsBlank (character valueElement 4096 k)) k hlt hk
  named k hk hlt := (by decide +kernel : ∀ k < 10, 5 ≤ k → IsNameChar (character valueElement 4096 k)) k hlt hk
  before k hk hlt := by omega
  equal := by decide
  after k hk hlt := by omega
  opening := by decide
  value k hk hlt :=
    (by decide +kernel : ∀ k < 36, 11 < k → character valueElement 4096 k ≠ character valueElement 4096 11) k hlt hk
  closing := by decide

theorem valueElement_plain : XmlPlain valueElement 4096 88 := by
  have hkid : ∀ p, ¬ Opens valueElement (ascii "<KID>") 4096 88 p := fun p hp =>
    (by decide +kernel : ∀ p < 44, ¬ Holds (ring valueElement 4096) p (ascii "<KID>")) p
      (by have := hp.2; omega) hp.1.1.1
  have hopens : Opens valueElement (ascii "<KID ") 4096 88 0 :=
    ⟨⟨⟨by decide +kernel, by decide⟩, by decide⟩, by decide⟩
  have hcloses : Closes valueElement 4096 88 0 33 := ⟨⟨by decide +kernel, by decide +kernel⟩, by decide⟩
  -- the first walk stays where it begins, and the second one goes over the element
  have hwalk₁ : ∀ {o}, ElementWalk valueElement (ascii "<KID>") 4096 88 0 o → o = 0 := fun {o} hwalk => by
    induction hwalk with
    | start => rfl
    | next _ hp _ _ ih =>
      subst ih
      exact absurd hp (hkid _)
  have hwalk₂ : ∀ {o}, ElementWalk valueElement (ascii "<KID ") 4096 88 0 o → o = 0 ∨ o = 88 := fun {o} hwalk => by
    induction hwalk with
    | start => exact .inl rfl
    | next _ hp hq _ ih =>
      rcases ih with rfl | rfl
      · obtain rfl := hp.unique hopens
        obtain rfl := hq.unique hcloses
        exact .inr rfl
      · exact absurd hp.2 (Nat.not_lt_zero _)
  refine ⟨fun j p q hwalk helement => ?_, fun i j p q hwalk₀ hno hwalk helement => ?_⟩
  · obtain rfl : j = 0 := by have := hwalk₁ hwalk; omega
    exact absurd helement.opens (hkid p)
  · obtain rfl : i = 0 := by have := hwalk₁ hwalk₀; omega
    rcases hwalk₂ hwalk with hj | hj
    · obtain rfl : j = 0 := by omega
      obtain rfl := helement.opens.unique hopens
      obtain rfl := helement.closes.unique hcloses
      refine ⟨by decide, 0, 1, ⟨⟨by decide +kernel, by decide⟩, by decide⟩, by decide,
        ⟨⟨by decide +kernel, by decide +kernel⟩, by decide⟩, fun _ => ⟨⟨?_, ?_, ?_⟩, 4, valueAttribute,
          ⟨.start, ⟨by decide, by decide +kernel⟩, rfl, by decide⟩, rfl⟩⟩
      all_goals
        unfold Narrow
        decide +kernel
    · have hwhole := helement.whole
      omega

theorem keysOfElements_value : KeysOfElements Kid valueElement 4096 88 ∧
    ∃ keys : List (KeyId Kid), (parseXMLBox valueElement 4096 88 []).Returns keys ∧ keys.length = 1 := by
  have hrun : ((parseXMLBox (K := Kid) valueElement 4096 88 []).run 90).map List.length = some 1 := by decide +kernel
  obtain ⟨keys, hkeys, hlength⟩ := Option.map_eq_some_iff.1 hrun
  exact ⟨keysOfElements Kid valueElement_plain, keys, ⟨90, hkeys⟩, hlength⟩

/-- An element without `VALUE`, and behind it a base64 text in quotes. -/
def textBehind : Memory := place 4096 (utf16 (ascii "<KID ></KID>\"AAECAwQFBgcICQoLDA0ODw==\"")) 0

theorem textBehind_added : ¬ KeysOfElements Kid textBehind 4096 76 := by
  intro h
  have hrun : ((parseXMLBox (K := Kid) textBehind 4096 76 []).run 90).map List.length = some 1 := by decide +kernel
  obtain ⟨keys, hkeys, hlength⟩ := Option.map_eq_some_iff.1 hrun
  obtain ⟨kids, hkids, rfl⟩ := h.result [] keys ⟨90, hkeys⟩
  have hne : kids ≠ [] := by
    rintro rfl
    cases hlength
  obtain ⟨kid, hkid⟩ := List.exists_mem_of_ne_nil kids hne
  obtain ⟨k, m, hdecoded⟩ := hkids kid hkid
  rcases hdecoded with ⟨hbetween, -⟩ | ⟨hbetween, i, a, hvalue, -⟩
  · -- there is no `<KID>`
    obtain ⟨hin, hchars⟩ := hbetween.opening
    have hno : ∀ k < 34, character textBehind 4096 (k + 0) = 0x3c → character textBehind 4096 (k + 1) = 0x4b →
        character textBehind 4096 (k + 4) ≠ 0x3e := by decide +kernel
    exact hno k (by change k + 5 ≤ 38 at hin; omega) (hchars 0 (by decide)) (hchars 1 (by decide))
      (hchars 4 (by decide))
  · -- and in the other element no place for an attribute
    obtain ⟨hin, hchars⟩ := hbetween.closing
    have hsix : ∀ m < 33, character textBehind 4096 (m + 1) = 0x2f → m = 6 := by decide +kernel
    have hm : m = 6 := hsix m (by change m + 6 ≤ 38 at hin; omega) (hchars 1 (by decide))
    have hplace := hvalue.inTag.le
    have horder := a.order
    have hwhole := hvalue.whole
    have hinside := hvalue.inside
    omega

end Ocdm.Cenc
