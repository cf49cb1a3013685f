/-
Caps as a media name and fields, against the search of the `CapsParser` (CapsParser.cpp). A size is looked up by the
first place its tag stands at, which can be another name, a type, a value or the media name. What is read is the value
of the field at hand or of the next one, and behind the last field the media name (`findMarker_text`). So the sizes are
those of the fields named `width` and `height` exactly when the values read there are the same numbers
(`sizesRead_iff`).
-/
import Ocdm.Client.CapsParser
import Mathlib.Algebra.Group.Nat.Defs
import Mathlib.Data.List.Nodup

namespace Ocdm.Client

open Exchange (MediaType)
open Find (find)

/-! ## Caps -/

/-- The characters between the parts of a caps text. -/
def separators : List UInt8 := [endingCharacter, startingCharacter, 0x28]

/-- A part without separators. -/
def Plain (text : List UInt8) : Prop := ∀ c ∈ separators, c ∉ text

/-- A name: no separator, no blank and no equal sign. -/
def Word (text : List UInt8) : Prop := ∀ c ∈ blank :: 0x3d :: separators, c ∉ text

instance (text : List UInt8) : Decidable (Plain text) := inferInstanceAs (Decidable (∀ _ ∈ _, _))

instance (text : List UInt8) : Decidable (Word text) := inferInstanceAs (Decidable (∀ _ ∈ _, _))

theorem widthTag_word : Word widthTag := by decide +kernel

theorem heightTag_word : Word heightTag := by decide +kernel

theorem Word.plain {text : List UInt8} (h : Word text) : Plain text :=
  fun c hc => h c (List.mem_cons_of_mem _ (List.mem_cons_of_mem _ hc))

/-- A field `name=(type)value` with the blanks in front of it. -/
structure CapsField where
  blanks : Nat
  name : List UInt8
  type : List UInt8
  value : List UInt8
  name_word : Word name
  type_plain : Plain type
  value_plain : Plain value

/-- The fields behind the media name. -/
structure Caps where
  media : List UInt8
  fields : List CapsField
  media_plain : Plain media
  distinct : (fields.map CapsField.name).Nodup

def CapsField.text (f : CapsField) : List UInt8 :=
  endingCharacter :: (List.replicate f.blanks blank ++
    (f.name ++ 0x3d :: 0x28 :: (f.type ++ startingCharacter :: f.value)))

def fieldsText (fields : List CapsField) : List UInt8 := fields.flatMap CapsField.text

def Caps.text (c : Caps) : List UInt8 := c.media ++ fieldsText c.fields

/-! ## What a tag marks -/

/-- The value that is read for a tag when the search begins at a part: the media name or a value. -/
def markedFrom (tag media : List UInt8) : List UInt8 → List CapsField → List UInt8
  | part, [] => if tag <:+: part then media else []
  | part, f :: fields =>
    if tag <:+: part ∨ tag <:+: f.name ∨ tag <:+: f.type then f.value else markedFrom tag media f.value fields

/-- The value that is read for a tag: of the field in whose name or type the tag first stands, of the field behind the
media name or the value it first stands in, or else the media name. -/
def Caps.marked (c : Caps) (tag : List UInt8) : List UInt8 := markedFrom tag c.media c.media c.fields

/-! ## The search -/

/-- The text from a tag on. -/
def fromTag (tag data : List UInt8) : Option (List UInt8) := (find tag data 0).map data.drop

/-- What stands behind the next closing parenthesis, up to a comma; without one, at the start of the whole text. -/
def valueBehind (whole rest : List UInt8) : List UInt8 :=
  if startingCharacter ∈ rest then
    ((rest.dropWhile fun b => decide (b ≠ startingCharacter)).drop 1).takeWhile notEnding
  else whole.takeWhile notEnding

def valueFor (tag whole data : List UInt8) : List UInt8 := (fromTag tag data).elim [] (valueBehind whole)

theorem findMarker_eq (data tag : List UInt8) : findMarker data tag = valueFor tag data data := by
  unfold findMarker valueFor fromTag
  cases find tag data 0 with
  | none => rfl
  | some found =>
    dsimp only [Option.map_some, Option.elim_some]
    unfold valueBehind
    by_cases h : startingCharacter ∈ data.drop found
    · rw [if_pos h, Find.find_singleton h]
      dsimp only
      rw [Find.take_to_separator, ← List.drop_drop, Find.drop_takeWhile]
      rfl
    · rw [if_neg h, Find.find_singleton_none h]
      dsimp only
      rw [Find.take_to_separator, List.drop_zero]
      rfl

theorem valueBehind_append {rest : List UInt8} (h : startingCharacter ∉ rest) (whole more : List UInt8) :
    valueBehind whole (rest ++ more) = valueBehind whole more := by
  have hother : ∀ b ∈ rest, decide (b ≠ startingCharacter) = true :=
    fun b hb => decide_eq_true fun heq => h (heq ▸ hb)
  unfold valueBehind
  simp only [List.mem_append, h, false_or, List.dropWhile_append_of_pos hother]

theorem valueBehind_cons (whole more : List UInt8) :
    valueBehind whole (startingCharacter :: more) = more.takeWhile notEnding := by
  unfold valueBehind
  rw [if_pos (List.mem_cons_self ..), List.dropWhile_cons_of_neg (by simp), List.drop_one, List.tail_cons]

theorem fromTag_append_cons {c : UInt8} {tag : List UInt8} (hc : c ∉ tag) (xs ys : List UInt8) :
    fromTag tag (xs ++ c :: ys) = ((fromTag tag xs).map (· ++ c :: ys)).or (fromTag tag ys) := by
  unfold fromTag
  rw [Find.find_append_cons hc]
  cases hxs : find tag xs 0 with
  | some i =>
    have hle := (Find.find_eq_some.1 hxs).2.1
    show some ((xs ++ c :: ys).drop i) = some (xs.drop i ++ c :: ys)
    rw [List.drop_append_of_le_length hle]
  | none =>
    cases find tag ys 0 with
    | none => rfl
    | some i =>
      show some ((xs ++ c :: ys).drop (xs.length + 1 + i)) = some (ys.drop i)
      rw [← List.drop_drop, ← List.drop_drop, List.drop_left, List.drop_one, List.tail_cons]

/-- Where a tag stands in a text, the text from it on is an end of the text. -/
theorem fromTag_of_infix {tag data : List UInt8} (h : tag <:+: data) :
    ∃ rest, fromTag tag data = some rest ∧ rest <:+ data := by
  obtain ⟨i, hi⟩ := Option.isSome_iff_exists.1 (Find.find_isSome.2 h)
  exact ⟨data.drop i, by unfold fromTag; rw [hi]; rfl, List.drop_suffix ..⟩

theorem fromTag_of_not_infix {tag data : List UInt8} (h : ¬ tag <:+: data) : fromTag tag data = none := by
  unfold fromTag
  rw [Option.map_eq_none_iff, ← Option.not_isSome_iff_eq_none, Find.find_isSome]
  exact h

/-- A tag that stands before the separator is found there, and else behind it. -/
theorem valueFor_append_cons {c : UInt8} {tag xs : List UInt8} (hc : c ∉ tag) (hxs : startingCharacter ∉ xs)
    (whole ys : List UInt8) :
    valueFor tag whole (xs ++ c :: ys) =
      if tag <:+: xs then valueBehind whole (c :: ys) else valueFor tag whole ys := by
  unfold valueFor
  rw [fromTag_append_cons hc]
  by_cases h : tag <:+: xs
  · obtain ⟨rest, hrest, hsuffix⟩ := fromTag_of_infix h
    rw [if_pos h, hrest]
    exact valueBehind_append (fun hmem => hxs (hsuffix.subset hmem)) ..
  · rw [if_neg h, fromTag_of_not_infix h]
    rfl

/-- A value ends at the field behind it, or at the end. -/
theorem takeWhile_fieldsText {part : List UInt8} (h : Plain part) (fields : List CapsField) :
    (part ++ fieldsText fields).takeWhile notEnding = part := by
  have hcomma : endingCharacter ∉ part := h endingCharacter (by decide)
  cases fields with
  | nil =>
    show (part ++ []).takeWhile _ = part
    rw [List.append_nil]
    exact Find.takeWhile_of_not_mem hcomma
  | cons f fields => exact Find.takeWhile_separator hcomma _

/-- A field, with what follows it. -/
theorem fieldsText_cons (f : CapsField) (fields : List CapsField) :
    fieldsText (f :: fields) = endingCharacter :: (List.replicate f.blanks blank ++ (f.name ++ 0x3d :: ([] ++ 0x28 ::
      (f.type ++ startingCharacter :: (f.value ++ fieldsText fields))))) := by
  unfold fieldsText CapsField.text
  simp only [List.flatMap_cons, List.cons_append, List.append_assoc, List.nil_append]

theorem CapsField.value_of_type (f : CapsField) (whole : List UInt8) (fields : List CapsField) :
    valueBehind whole (startingCharacter :: (f.value ++ fieldsText fields)) = f.value := by
  rw [valueBehind_cons, takeWhile_fieldsText f.value_plain]

theorem CapsField.value_of_name (f : CapsField) (whole : List UInt8) (fields : List CapsField) :
    valueBehind whole (0x3d :: ([] ++ 0x28 :: (f.type ++ startingCharacter :: (f.value ++ fieldsText fields)))) =
      f.value := by
  have htype : startingCharacter ∉ 0x3d :: 0x28 :: f.type := by
    simpa using ⟨by decide, by decide, f.type_plain startingCharacter (by decide)⟩
  exact (valueBehind_append htype whole _).trans (f.value_of_type whole fields)

theorem CapsField.value_of_part (f : CapsField) (whole : List UInt8) (fields : List CapsField) :
    valueBehind whole (fieldsText (f :: fields)) = f.value := by
  have hname : startingCharacter ∉ endingCharacter :: (List.replicate f.blanks blank ++ f.name) := by
    simp only [List.mem_cons, List.mem_append, List.mem_replicate, not_or, not_and]
    exact ⟨by decide, fun _ => by decide, f.name_word.plain startingCharacter (by decide)⟩
  rw [fieldsText_cons, ← List.append_assoc, ← List.cons_append, valueBehind_append hname, f.value_of_name]

section

variable {tag : List UInt8}

theorem infix_nil (hne : tag ≠ []) : ¬ tag <:+: [] := fun h => hne (List.infix_nil.1 h)

theorem valueFor_blanks (htag : Word tag) (hne : tag ≠ []) (whole ys : List UInt8) (n : Nat) :
    valueFor tag whole (List.replicate n blank ++ ys) = valueFor tag whole ys := by
  induction n with
  | zero => rfl
  | succ n ih =>
    have hskip : valueFor tag whole ([] ++ blank :: (List.replicate n blank ++ ys)) =
        valueFor tag whole (List.replicate n blank ++ ys) := by
      rw [valueFor_append_cons (htag blank (by decide)) List.not_mem_nil, if_neg (infix_nil hne)]
    rw [List.replicate_succ, List.cons_append]
    exact hskip.trans ih

/-- From a part on, the search reads what the fields behind it tell. -/
theorem valueFor_fields (htag : Word tag) (hne : tag ≠ []) (whole : List UInt8) {part : List UInt8} (hpart : Plain part)
    (fields : List CapsField) : valueFor tag whole (part ++ fieldsText fields) =
      markedFrom tag (whole.takeWhile notEnding) part fields := by
  have hclosing : ∀ {text : List UInt8}, Plain text → startingCharacter ∉ text :=
    fun h => h startingCharacter (by decide)
  induction fields generalizing part with
  | nil =>
    show valueFor tag whole (part ++ []) = if _ then _ else _
    rw [List.append_nil]
    unfold valueFor
    by_cases h : tag <:+: part
    · obtain ⟨rest, hrest, hsuffix⟩ := fromTag_of_infix h
      rw [if_pos h, hrest]
      exact if_neg fun hmem => hclosing hpart (hsuffix.subset hmem)
    · rw [if_neg h, fromTag_of_not_infix h]
      rfl
  | cons f fields ih =>
    rw [markedFrom, fieldsText_cons, valueFor_append_cons (htag endingCharacter (by decide)) (hclosing hpart)]
    by_cases hinPart : tag <:+: part
    · rw [if_pos hinPart, if_pos (.inl hinPart), ← fieldsText_cons, f.value_of_part]
    rw [if_neg hinPart, valueFor_blanks htag hne,
      valueFor_append_cons (htag 0x3d (by decide)) (hclosing f.name_word.plain)]
    by_cases hinName : tag <:+: f.name
    · rw [if_pos hinName, if_pos (.inr (.inl hinName)), f.value_of_name]
    rw [if_neg hinName, valueFor_append_cons (htag 0x28 (by decide)) (List.not_mem_nil), if_neg (infix_nil hne),
      valueFor_append_cons (htag startingCharacter (by decide)) (hclosing f.type_plain)]
    by_cases hinType : tag <:+: f.type
    · rw [if_pos hinType, if_pos (.inr (.inr hinType)), f.value_of_type]
    · rw [if_neg hinType, if_neg (by simp only [hinPart, hinName, hinType, or_self, not_false_eq_true])]
      exact ih f.value_plain

/-- What `FindMarker` reads in a caps text. -/
theorem findMarker_text (htag : Word tag) (hne : tag ≠ []) (c : Caps) : findMarker c.text tag = c.marked tag := by
  rw [findMarker_eq, Caps.text, valueFor_fields htag hne _ c.media_plain, takeWhile_fieldsText c.media_plain]
  rfl

end

/-! ## Sizes -/

/-- The value of a decimal number. -/
def decimal (text : List UInt8) : Nat := text.foldl (fun n b => n * 10 + (b.toNat - 0x30)) 0

/-- A decimal number that fits in 16 bits. -/
def Fits (text : List UInt8) : Prop := (∀ b ∈ text, 0x30 ≤ b ∧ b ≤ 0x39) ∧ decimal text < 2 ^ 16

instance (text : List UInt8) : Decidable (Fits text) := inferInstanceAs (Decidable (_ ∧ _))

/-- `Core::NumberType` reads a decimal number that fits. -/
def ReadsDecimal (number : List UInt8 → UInt16) : Prop :=
  ∀ text, text ≠ [] → Fits text → (number text).toNat = decimal text

/-- The value of the field with a name, 0 without one. -/
def Caps.own (c : Caps) (name : List UInt8) : Nat :=
  ((c.fields.find? fun f => decide (f.name = name)).map fun f => decimal f.value).getD 0

/-- A size is that of the field with the name, or 0 where the field is absent. -/
def Caps.Sized (c : Caps) (name : List UInt8) (size : UInt16) : Prop :=
  (∀ f ∈ c.fields, f.name = name → size.toNat = decimal f.value) ∧
    ((∀ f ∈ c.fields, f.name ≠ name) → size.toNat = 0)

/-- A text read as a number is `n`. -/
def ReadAs (number : List UInt8 → UInt16) (text : List UInt8) (n : Nat) : Prop :=
  if Fits text then decimal text = n else (number text).toNat = n

instance (number : List UInt8 → UInt16) (text : List UInt8) (n : Nat) : Decidable (ReadAs number text n) :=
  inferInstanceAs (Decidable (if Fits text then decimal text = n else (number text).toNat = n))

/-- There is one field with a name at most. -/
theorem Caps.own_eq {c : Caps} {f : CapsField} (hf : f ∈ c.fields) : c.own f.name = decimal f.value := by
  unfold Caps.own
  cases hfind : c.fields.find? fun g => decide (g.name = f.name) with
  | none =>
    have hno := List.find?_eq_none.1 hfind f hf
    exact absurd (decide_eq_true rfl) hno
  | some g =>
    have hname := List.find?_some hfind
    rw [decide_eq_true_iff] at hname
    rw [List.inj_on_of_nodup_map c.distinct (List.mem_of_find?_eq_some hfind) hf hname]
    rfl

theorem Caps.sized_iff {c : Caps} {name : List UInt8} {size : UInt16} :
    c.Sized name size ↔ size.toNat = c.own name := by
  by_cases hname : ∃ f ∈ c.fields, f.name = name
  · obtain ⟨f, hf, rfl⟩ := hname
    rw [c.own_eq hf]
    refine ⟨fun h => h.1 f hf rfl, fun h => ⟨fun g hg heq => ?_, fun hno => absurd rfl (hno f hf)⟩⟩
    rw [h, ← c.own_eq hf, ← heq, c.own_eq hg]
  · push Not at hname
    have hzero : c.own name = 0 := by
      unfold Caps.own
      rw [List.find?_eq_none.2 fun f hf => by simpa using hname f hf]
      rfl
    rw [hzero]
    exact ⟨fun h => h.2 hname, fun h => ⟨fun f hf heq => absurd heq (hname f hf), fun _ => h⟩⟩

theorem numberOf_readAs {number : List UInt8 → UInt16} (hnumber : ReadsDecimal number) {text : List UInt8} {n : Nat} :
    (numberOf number text).toNat = n ↔ ReadAs number text n := by
  unfold numberOf ReadAs
  by_cases hne : text = []
  · subst hne
    have hfits : Fits [] := ⟨fun b hb => absurd hb List.not_mem_nil, Nat.two_pow_pos 16⟩
    rw [if_neg (by decide), if_pos hfits]
    rfl
  · rw [if_pos (List.length_pos_iff.2 hne)]
    by_cases hfits : Fits text
    · rw [if_pos hfits, hnumber text hne hfits]
    · rw [if_neg hfits]

section

variable (hash : List UInt8 → UInt64) (number : List UInt8 → UInt16)

/-- After `Parse` on a new parser, with the memory behind the text, the sizes are those of the fields `width` and
`height`. -/
def SizesRead (c : Caps) (garbage : Bool) (tail : List UInt8) : Prop :=
  c.Sized widthTag ((CapsParser.new garbage).parse hash number c.text tail).width ∧
    c.Sized heightTag ((CapsParser.new garbage).parse hash number c.text tail).height

/-- For a text that is hashed and is video: the values the tags mark are those of the fields, as numbers. For any other
text: the fields' are 0. -/
def SizesMarked (c : Caps) (tail : List UInt8) : Prop :=
  if hash c.text ≠ 0 ∧ mediaTypeOf c.text tail = some .video then
    ReadAs number (c.marked widthTag) (c.own widthTag) ∧ ReadAs number (c.marked heightTag) (c.own heightTag)
  else c.own widthTag = 0 ∧ c.own heightTag = 0

/-- The size a tag tells of, when the text takes effect as video. -/
theorem parse_sizes (c : Caps) (garbage : Bool) (tail : List UInt8) :
    ((CapsParser.new garbage).parse hash number c.text tail).width =
      (if hash c.text ≠ 0 ∧ mediaTypeOf c.text tail = some .video then numberOf number (c.marked widthTag)
        else 0) ∧
    ((CapsParser.new garbage).parse hash number c.text tail).height =
      (if hash c.text ≠ 0 ∧ mediaTypeOf c.text tail = some .video then numberOf number (c.marked heightTag)
        else 0) := by
  rw [← findMarker_text widthTag_word (by decide), ← findMarker_text heightTag_word (by decide)]
  generalize c.text = info
  by_cases hne : info = []
  · subst hne
    rw [parse_empty]
    exact ⟨(ite_self _).symm, (ite_self _).symm⟩
  · have hpos := List.length_pos_iff.2 hne
    have hlast : hash info ≠ 0 → (CapsParser.new garbage).lastHash ≠ hash info := fun hzero => hzero.symm
    by_cases htakes : hash info ≠ 0 ∧ mediaTypeOf info tail = some .video
    · rw [if_pos htakes, if_pos htakes]
      unfold CapsParser.parse
      rw [if_pos hpos, if_pos (hlast htakes.1), htakes.2]
      exact ⟨rfl, rfl⟩
    · rw [if_neg htakes, if_neg htakes]
      by_cases hzero : hash info = 0
      · have hcached : (CapsParser.new garbage).lastHash = hash info := hzero.symm
        rw [parse_cached hcached]
        exact ⟨rfl, rfl⟩
      · have hother : (mediaTypeOf info tail).getD (CapsParser.new garbage).mediaType ≠ .video := by
          cases htype : mediaTypeOf info tail with
          | none => exact MediaType.noConfusion
          | some mediaType => exact fun h => htakes ⟨hzero, htype.trans (congrArg some h)⟩
        unfold CapsParser.parse
        rw [if_pos hpos, if_pos (hlast hzero)]
        dsimp only
        rw [if_neg hother]
        exact ⟨rfl, rfl⟩

end

/-- For every caps text: the sizes read are those of the fields `width` and `height` exactly when the tags mark values
that are the same numbers. -/
theorem sizesRead_iff (hash : List UInt8 → UInt64) (number : List UInt8 → UInt16) (hnumber : ReadsDecimal number)
    (c : Caps) (garbage : Bool) (tail : List UInt8) :
    SizesRead hash number c garbage tail ↔ SizesMarked hash number c tail := by
  unfold SizesRead SizesMarked
  obtain ⟨hwidth, hheight⟩ := parse_sizes hash number c garbage tail
  rw [Caps.sized_iff, Caps.sized_iff, hwidth, hheight]
  split
  · rw [numberOf_readAs hnumber, numberOf_readAs hnumber]
  · exact and_congr eq_comm eq_comm

/-! ## Two caps -/

/-- Reads a decimal number. -/
def readDecimal (text : List UInt8) : UInt16 := UInt16.ofNat (decimal text)

theorem readDecimal_reads : ReadsDecimal readDecimal :=
  fun _ _ hfits => UInt16.toNat_ofNat_of_lt' hfits.2

def intField (name value : List UInt8) (hname : Word name) (hvalue : Plain value) : CapsField :=
  ⟨1, name, ascii "int", value, hname, by decide +kernel, hvalue⟩

def widthField : CapsField := intField widthTag (ascii "640") widthTag_word (by decide +kernel)

def heightField : CapsField := intField heightTag (ascii "360") heightTag_word (by decide +kernel)

/-- `video/x-h264, width=(int)640, height=(int)360` -/
def videoCaps : Caps where
  media := ascii "video/x-h264"
  fields := [widthField, heightField]
  media_plain := by decide +kernel
  distinct := by decide +kernel

theorem videoCaps_sizesRead : SizesRead (fun _ => 1) readDecimal videoCaps false [0] :=
  (sizesRead_iff (fun _ => 1) readDecimal readDecimal_reads videoCaps false [0]).2
    (by unfold SizesMarked; decide +kernel)

/-- `video/x-h264, max-width=(int)1920, width=(int)640, height=(int)360` -/
def maxWidthCaps : Caps where
  media := ascii "video/x-h264"
  fields := [intField (ascii "max-width") (ascii "1920") (by decide +kernel) (by decide +kernel), widthField,
    heightField]
  media_plain := by decide +kernel
  distinct := by decide +kernel

/-- The width is that of `max-width`. -/
theorem maxWidthCaps_not_sizesRead : mediaTypeOf maxWidthCaps.text [0] = some .video ∧
    ((CapsParser.new false).parse (fun _ => 1) readDecimal maxWidthCaps.text [0]).width = 1920 ∧
    ¬ SizesRead (fun _ => 1) readDecimal maxWidthCaps false [0] := by
  refine ⟨by decide +kernel, by decide +kernel, fun h => ?_⟩
  have hown := Caps.sized_iff.1 h.1
  revert hown
  decide +kernel

end Ocdm.Client
