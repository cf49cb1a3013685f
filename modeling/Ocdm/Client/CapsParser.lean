/-
`CapsParser` (CapsParser.cpp): what the adapter learns from the caps of a frame. `Parse` looks for its
marks by substring search, remembers a hash of the last text, and keeps the media type of an earlier text
when this one has none. The constructor leaves `_no_secure_memory` as it finds it. When no parse trips
over any of these, the flag is set only by the text's own `decrypt-to-host` field (`flag_own_field`).
-/
import Ocdm.Exchange.Block
import Ocdm.Lib.Find
import Ocdm.Lib.Trace
import Mathlib.Data.List.DropRight

namespace Ocdm.Client

open Exchange (MediaType)
open Find (find pieces)

/-! ## Searching -/

/-- The bytes of a literal. -/
def ascii (s : String) : List UInt8 := s.toList.map fun c => UInt8.ofNat c.toNat

def blank : UInt8 := 0x20
def startingCharacter : UInt8 := 0x29
def endingCharacter : UInt8 := 0x2c

def widthTag : List UInt8 := ascii "width"
def heightTag : List UInt8 := ascii "height"
def mediaTag : List UInt8 := ascii "original-media-type"
def decryptToHostTag : List UInt8 := ascii "decrypt-to-host="
def booleanTag : List UInt8 := ascii "(boolean)"

theorem decryptToHostTag_length : decryptToHostTag.length = 16 := by decide

theorem booleanTag_length : booleanTag.length = 9 := by decide

/-- `FindMarker` -/
def findMarker (data tag : List UInt8) : List UInt8 :=
  match find tag data 0 with
  | none => []
  | some found =>
    -- without the character this is npos + 1, the start of the text
    let start := match find [startingCharacter] data found with
      | some i => i + 1
      | none => 0
    let stop := (find [endingCharacter] data start).getD data.length
    (data.drop start).take (stop - start)

/-- Where `FindDecryptToHost` starts to read the value, blanks skipped. -/
def valueStart (data : List UInt8) (found : Nat) : Option Nat :=
  let start := match find booleanTag data found with
    | some i => some (i + 9)
    | none => (find [0x3d] data found).map (· + 1)
  start.map fun start => start + ((data.drop start).takeWhile (· == blank)).length

/-- `FindDecryptToHost` -/
def findDecryptToHost (data : List UInt8) : List UInt8 :=
  match find decryptToHostTag data 0 with
  | none => []
  | some found =>
    match valueStart data found with
    | none => []
    | some start =>
      let stop := (find [endingCharacter] data start).getD data.length
      ((data.drop start).take (stop - start)).rdropWhile (· == blank)

/-- `tolower`, in the C locale. -/
def toLower (b : UInt8) : UInt8 := if 0x41 ≤ b ∧ b ≤ 0x5a then b + 0x20 else b

/-- `strcasestr` for a text that ends at its first zero byte. -/
def strcasestr (text pattern : List UInt8) : Bool :=
  (find (pattern.map toLower) ((text.takeWhile (· != 0)).map toLower) 0).isSome

/-! ## Parsing -/

structure CapsParser where
  lastHash : UInt64
  mediaType : MediaType
  width : UInt16
  height : UInt16
  noSecureMemory : Bool
deriving DecidableEq, Repr

/-- The media type a text tells, if it tells one; `tail` is the memory behind the text. -/
def mediaTypeOf (info tail : List UInt8) : Option MediaType :=
  let result := findMarker info mediaTag
  if result ≠ [] then
    if (find (ascii "video") result 0).isSome then some .video
    else if (find (ascii "audio") result 0).isSome then some .audio
    else some .unknown
  else if strcasestr (info ++ tail) (ascii "audio") then some .audio
  else if strcasestr (info ++ tail) (ascii "video") then some .video
  else none

/-- The value begins with a character that stands for true. -/
def startsTrue : List UInt8 → Bool
  | [] => false
  | c :: _ => c == 0x31 || c == 0x74 || c == 0x54

section

variable (hash : List UInt8 → UInt64) (number : List UInt8 → UInt16)

def numberOf (result : List UInt8) : UInt16 := if result.length > 0 then number result else 0

/-- `Parse`; `hash` is that of the standard library, `number` reads a decimal number as `Core::NumberType`. -/
def CapsParser.parse (p : CapsParser) (info tail : List UInt8) : CapsParser :=
  if info.length > 0 then
    if p.lastHash ≠ hash info then
      let mediaType := (mediaTypeOf info tail).getD p.mediaType
      if mediaType = .video then
        { lastHash := hash info
          mediaType := mediaType
          width := numberOf number (findMarker info widthTag)
          height := numberOf number (findMarker info heightTag)
          noSecureMemory := startsTrue (findDecryptToHost info) }
      else ⟨hash info, mediaType, 0, 0, false⟩
    else p
  else p

end

/-- A new parser; `garbage` is what the memory of the flag held. -/
def CapsParser.new (garbage : Bool) : CapsParser := ⟨0, .unknown, 0, 0, garbage⟩

/-! ## Fields -/

/-- The fields of a text, without the blanks in front. -/
def fieldsOf (info : List UInt8) : List (List UInt8) := (pieces endingCharacter info).map (·.dropWhile (· == blank))

/-- A value without its type, which can be left out. -/
def withoutType (value : List UInt8) : List UInt8 :=
  (if booleanTag <+: value then value.drop 9 else value).dropWhile (· == blank)

/-- The text has a field `decrypt-to-host` with a value that begins with a character for true. -/
def HostField (info : List UInt8) : Prop :=
  ∃ field ∈ fieldsOf info, decryptToHostTag <+: field ∧ startsTrue (withoutType (field.drop 16)) = true

instance (info : List UInt8) : Decidable (HostField info) := inferInstanceAs (Decidable (∃ _ ∈ _, _))

/-- Only blanks stand between the position and the separator before it, or the start. -/
def BeginsField (info : List UInt8) (pos : Nat) : Prop :=
  ∃ before blanks, info.take pos = before ++ blanks ∧ (∀ b ∈ blanks, b = blank) ∧
    (before = [] ∨ ∃ start, before = start ++ [endingCharacter])

/-- The first mark begins a field, and a `(boolean)` behind it directly follows it. -/
def Located (info : List UInt8) : Prop :=
  ∀ found, find decryptToHostTag info 0 = some found → BeginsField info found ∧
    ∀ i, find booleanTag info found = some i → i = found + 16

/-! ## The field that is read -/

theorem startsTrue_cons {value : List UInt8} (h : startsTrue value = true) :
    ∃ c rest, value = c :: rest ∧ c ≠ endingCharacter ∧ c ≠ blank := by
  cases value with
  | nil => cases h
  | cons c rest =>
    have hc : (c == 0x31 || c == 0x74 || c == 0x54) = true := h
    refine ⟨c, rest, rfl, ?_, ?_⟩
    · rintro rfl
      exact absurd hc (by decide)
    · rintro rfl
      exact absurd hc (by decide)

/-- Where the value starts: behind the mark, and behind the type if the value has one. -/
theorem value_at {info : List UInt8} {found start : Nat} (hat : decryptToHostTag <+: info.drop found)
    (htype : ∀ i, find booleanTag info found = some i → i = found + 16) (h : valueStart info found = some start) :
    info.drop start = withoutType (info.drop (found + 16)) := by
  have hrest : info.drop found = decryptToHostTag ++ info.drop (found + 16) := Find.drop_of_prefix hat
  unfold valueStart at h
  unfold withoutType
  cases hfind : find booleanTag info found with
  | some i =>
    obtain rfl := htype i hfind
    rw [hfind] at h
    cases h
    rw [Find.drop_takeWhile, if_pos (Find.find_prefix hfind), List.drop_drop]
  | none =>
    rw [hfind] at h
    obtain ⟨start0, hstart0, rfl⟩ := Option.map_eq_some_iff.1 h
    obtain ⟨e, he, rfl⟩ := Option.map_eq_some_iff.1 hstart0
    have hno : ¬ booleanTag <+: info.drop (found + 16) := by
      have hlen := congrArg List.length hrest
      rw [List.length_append, List.length_drop, decryptToHostTag_length] at hlen
      exact Find.find_eq_none.1 hfind (found + 16) (by omega) (by omega)
    -- the first '=' is that of the mark
    have hequal : e = found + 15 := by
      obtain ⟨hge, -, hate, hfirst⟩ := Find.find_eq_some.1 he
      have hmark : ∀ j ≤ 15, info.drop (found + j) = decryptToHostTag.drop j ++ info.drop (found + 16) := by
        intro j hj
        rw [← List.drop_drop, hrest, List.drop_append_of_le_length (by rw [decryptToHostTag_length]; omega)]
      rcases Nat.lt_trichotomy e (found + 15) with hlt | heq | hgt
      · obtain ⟨j, rfl⟩ := Nat.exists_eq_add_of_le hge
        have hother : ∀ j < 15, (decryptToHostTag.drop j).headD 0x3d ≠ 0x3d := by decide +kernel
        have hc := hother j (by omega)
        rw [hmark j (by omega)] at hate
        cases htag : decryptToHostTag.drop j with
        | nil => rw [htag] at hc; exact absurd rfl hc
        | cons c rest =>
          rw [htag, List.cons_append, List.cons_prefix_cons] at hate
          rw [htag] at hc
          exact absurd hate.1.symm hc
      · exact heq
      · refine absurd ?_ (hfirst (found + 15) hgt (by omega))
        rw [hmark 15 (le_refl _)]
        exact List.prefix_append [0x3d] _
    subst hequal
    rw [Find.drop_takeWhile, if_neg hno]

def notEnding (b : UInt8) : Bool := decide (b ≠ endingCharacter)

/-- A value that begins with a character other than a comma begins with it up to the next comma. -/
theorem withoutType_takeWhile {text rest : List UInt8} {c : UInt8} (h : withoutType text = c :: rest)
    (hc : c ≠ endingCharacter) (hblank : c ≠ blank) : ∃ rest', withoutType (text.takeWhile notEnding) = c :: rest' := by
  have hskip : ∀ {q : List UInt8}, q.dropWhile (· == blank) = c :: rest →
      ∃ rest', (q.takeWhile notEnding).dropWhile (· == blank) = c :: rest' := by
    intro q hq
    refine ⟨rest.takeWhile notEnding, ?_⟩
    have hblanks : ∀ b ∈ q.takeWhile (· == blank), (b == blank) = true := by
      intro b hb
      have hb := List.mem_takeWhile_imp hb
      exact hb
    have hends : ∀ b ∈ q.takeWhile (· == blank), notEnding b = true := by
      intro b hb
      rw [beq_iff_eq.1 (hblanks b hb)]
      decide
    rw [← List.takeWhile_append_dropWhile (l := q) (p := (· == blank)), hq, List.takeWhile_append_of_pos hends,
      List.dropWhile_append_of_pos hblanks, List.takeWhile_cons_of_pos (show notEnding c = true from decide_eq_true hc),
      List.dropWhile_cons_of_neg (by simpa using hblank)]
  have hbool : ∀ b ∈ booleanTag, notEnding b = true := List.all_eq_true.1 (by decide)
  unfold withoutType at h ⊢
  by_cases htype : booleanTag <+: text
  · obtain ⟨more, rfl⟩ := htype
    rw [if_pos (List.prefix_append ..), ← booleanTag_length, List.drop_left] at h
    rw [List.takeWhile_append_of_pos hbool, if_pos (List.prefix_append ..), ← booleanTag_length,
      List.drop_left]
    exact hskip h
  · rw [if_neg htype] at h
    rw [if_neg fun hpre => htype (hpre.trans (List.takeWhile_prefix _))]
    exact hskip h

/-- The text's own field is read when the mark is where it belongs. -/
theorem hostField_of_located {info : List UInt8} (hloc : Located info)
    (h : startsTrue (findDecryptToHost info) = true) : HostField info := by
  unfold findDecryptToHost at h
  split at h
  · cases h
  · rename_i found hfound
    obtain ⟨⟨before, blanks, htake, hblanks, hbefore⟩, htype⟩ := hloc found hfound
    have hat := Find.find_prefix hfound
    split at h
    · cases h
    · rename_i start hstart
      have hvalue := value_at hat htype hstart
      obtain ⟨c, more, htrim, hcomma, hblank⟩ := startsTrue_cons h
      have hc : startsTrue (c :: more) = true := by rw [← htrim]; exact h
      -- the value begins with the character that is tested
      obtain ⟨rest, hdrop⟩ : ∃ rest, info.drop start = c :: rest := by
        have hpre : c :: more <+: info.drop start := by
          rw [← htrim]
          exact (List.rdropWhile_prefix _ _).trans (List.take_prefix _ _)
        obtain ⟨tail, htail⟩ := hpre
        exact ⟨more ++ tail, htail.symm⟩
      rw [hvalue] at hdrop
      have hmark : info.drop found = decryptToHostTag ++ info.drop (found + 16) := Find.drop_of_prefix hat
      have htag : ∀ b ∈ decryptToHostTag, notEnding b = true := List.all_eq_true.1 (by decide)
      have hfield : (info.drop found).takeWhile notEnding =
        decryptToHostTag ++ (info.drop (found + 16)).takeWhile notEnding := by
        rw [hmark, List.takeWhile_append_of_pos htag]
      refine ⟨(info.drop found).takeWhile notEnding, ?_, ?_, ?_⟩
      · have hcut : info = before ++ (blanks ++ info.drop found) := by
          rw [← List.append_assoc, ← htake, List.take_append_drop]
        have hpiece := Find.mem_pieces hcut hbefore
        refine List.mem_map.2 ⟨_, hpiece, ?_⟩
        have hends : ∀ b ∈ blanks, decide (b ≠ endingCharacter) = true := by
          intro b hb
          rw [hblanks b hb]
          decide
        rw [List.takeWhile_append_of_pos hends, List.dropWhile_append_of_pos fun b hb => by rw [hblanks b hb]; rfl]
        show ((info.drop found).takeWhile notEnding).dropWhile _ = _
        rw [hfield]
        rfl
      · rw [hfield]
        exact List.prefix_append ..
      · obtain ⟨rest', hown⟩ := withoutType_takeWhile hdrop hcomma hblank
        rw [hfield, ← decryptToHostTag_length, List.drop_left,
          decryptToHostTag_length, hown]
        exact hc

/-! ## Sequences of parses -/

/-- A parser, the calls of `Parse` so far (each text with the memory behind it), and the last text that was
not empty. -/
structure Parses where
  parser : CapsParser
  calls : List (List UInt8 × List UInt8)
  last : Option (List UInt8)

def Parses.start (garbage : Bool) : Parses := ⟨.new garbage, [], none⟩

/-- The flag is set only for a text that was classified as video and has the field. -/
def FlagOwn (s : Parses) : Prop :=
  s.parser.noSecureMemory = true →
    ∃ info tail, s.last = some info ∧ (info, tail) ∈ s.calls ∧ mediaTypeOf info tail = some .video ∧ HostField info

section

variable (hash : List UInt8 → UInt64) (number : List UInt8 → UInt16)

def parseStep (s : Parses) (call : List UInt8 × List UInt8) : Option Parses :=
  some ⟨s.parser.parse hash number call.1 call.2, s.calls ++ [call], if call.1 = [] then s.last else some call.1⟩

/-- A text whose hash is the last one is the last text; a text that tells no media type does not meet video; and
the mark of a video text is where it belongs. -/
def ParseOK (s : Parses) (call : List UInt8 × List UInt8) : Prop :=
  call.1 ≠ [] →
    if s.parser.lastHash = hash call.1 then s.last = some call.1
    else (mediaTypeOf call.1 call.2 = none → s.parser.mediaType ≠ .video) ∧
      (mediaTypeOf call.1 call.2 = some .video → Located call.1)

variable {hash number}

theorem parse_empty (p : CapsParser) (tail : List UInt8) : p.parse hash number [] tail = p := rfl

theorem parse_cached {p : CapsParser} {info : List UInt8} (h : p.lastHash = hash info) (tail : List UInt8) :
    p.parse hash number info tail = p := by
  unfold CapsParser.parse
  split
  · rw [if_neg (not_not.2 h)]
  · rfl

/-- The flag after a text that takes effect. -/
theorem parse_flag {p : CapsParser} {info tail : List UInt8} (hne : info ≠ []) (h : p.lastHash ≠ hash info) :
    (p.parse hash number info tail).noSecureMemory = true →
      (mediaTypeOf info tail).getD p.mediaType = .video ∧ startsTrue (findDecryptToHost info) = true := by
  unfold CapsParser.parse
  rw [if_pos (List.length_pos_iff.2 hne), if_pos h]
  dsimp only
  split
  · rename_i hvideo
    exact fun hflag => ⟨hvideo, hflag⟩
  · intro hflag
    cases hflag

theorem parseStep_own {s s' : Parses} {call : List UInt8 × List UInt8} (hs : FlagOwn s) (hok : ParseOK hash s call)
    (h : parseStep hash number s call = some s') : FlagOwn s' := by
  obtain ⟨info, tail⟩ := call
  cases h
  unfold FlagOwn
  dsimp only
  have hkeep : ∀ {text : List UInt8}, s.parser.noSecureMemory = true → s.last = some text →
      ∃ info' tail', some text = some info' ∧ (info', tail') ∈ s.calls ++ [(info, tail)] ∧
        mediaTypeOf info' tail' = some .video ∧ HostField info' := by
    intro text hflag hlast
    obtain ⟨info', tail', hlast', hcall, htype, hfield⟩ := hs hflag
    rw [hlast] at hlast'
    exact ⟨info', tail', hlast', List.mem_append_left _ hcall, htype, hfield⟩
  by_cases hne : info = []
  · subst hne
    rw [if_pos rfl, parse_empty]
    intro hflag
    obtain ⟨info', tail', hlast, -⟩ := hs hflag
    rw [hlast]
    exact hkeep hflag hlast
  · rw [if_neg hne]
    have hok := hok hne
    split at hok
    · rename_i hcached
      rw [parse_cached hcached]
      exact fun hflag => hkeep hflag hok
    · rename_i hfresh
      intro hflag
      obtain ⟨hvideo, htrue⟩ := parse_flag hne hfresh hflag
      have htype : mediaTypeOf info tail = some .video := by
        cases htype : mediaTypeOf info tail with
        | none =>
          rw [htype] at hvideo
          exact absurd hvideo (hok.1 htype)
        | some t =>
          rw [htype] at hvideo
          exact congrArg some hvideo
      exact ⟨info, tail, rfl, by simp, htype, hostField_of_located (hok.2 htype) htrue⟩

end

/-- In every sequence of parses of a parser whose flag was clear, the flag is set only by the last text's own
field. -/
theorem flag_own_field (hash : List UInt8 → UInt64) (number : List UInt8 → UInt16) (garbage : Bool)
    (hgarbage : garbage = false) (calls : List (List UInt8 × List UInt8)) (s : Parses)
    (h : Trace.Run (parseStep hash number) (ParseOK hash) (.start garbage) calls s) : FlagOwn s := by
  refine h.invariant FlagOwn (fun s call s' hs hok hstep => parseStep_own hs hok hstep) fun hflag => ?_
  rw [hgarbage] at hflag
  cases hflag

/-! ## Two texts -/

/-- A video text with its own field. -/
def hostCaps : List UInt8 := ascii "original-media-type=(string)video, decrypt-to-host=(boolean)true"

/-- The field's own value is false, and the next one's true. -/
def neighbourCaps : List UInt8 :=
  ascii "original-media-type=(string)video, decrypt-to-host=false, parsed=(boolean)true"

theorem hostCaps_located : Located hostCaps := by
  intro found hfound
  have hfind : find decryptToHostTag hostCaps 0 = some 35 := by decide +kernel
  rw [hfind] at hfound
  cases hfound
  refine ⟨⟨hostCaps.take 34, [blank], by decide +kernel, by simp, .inr ⟨hostCaps.take 33, by decide +kernel⟩⟩,
    fun i hi => ?_⟩
  have hbool : find booleanTag hostCaps 35 = some 51 := by decide +kernel
  rw [hbool] at hi
  cases hi
  rfl

theorem hostCaps_run : ∃ s, s.parser.noSecureMemory = true ∧
    Trace.Run (parseStep (fun _ => 1) fun _ => 0) (ParseOK fun _ => 1) (.start false) [(hostCaps, [0])] s := by
  refine ⟨_, ?_, .cons (fun _ => ?_) rfl (.nil _)⟩
  · decide +kernel
  · rw [if_neg (by decide)]
    exact ⟨fun htype => absurd htype (by decide +kernel), fun _ => hostCaps_located⟩

theorem flag_own_host : ∃ s, s.parser.noSecureMemory = true ∧ FlagOwn s := by
  obtain ⟨s, hflag, hrun⟩ := hostCaps_run
  exact ⟨s, hflag, flag_own_field (fun _ => 1) (fun _ => 0) false rfl [(hostCaps, [0])] s hrun⟩

/-- The flag is set by the value of the field behind. -/
theorem flag_of_neighbour : ¬ ∀ calls s,
    Trace.Run (parseStep (fun _ => 1) fun _ => 0) (fun _ _ => True) (.start false) calls s →
    FlagOwn s := by
  intro h
  obtain ⟨info, tail, hlast, -, -, hfield⟩ :=
    h [(neighbourCaps, [0])] _ (.cons trivial rfl (.nil _)) (by decide +kernel)
  have hinfo : some neighbourCaps = some info := hlast
  cases hinfo
  exact absurd hfield (by decide +kernel)

end Ocdm.Client
