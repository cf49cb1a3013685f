/-
Two runs of the `CapsParser` (CapsParser.cpp): what it tells after a text, against the texts before and the memory
behind. A text that names no media type keeps the one of an earlier text, and the search for one reads on behind the
text up to a zero byte. So what is told depends on the text alone exactly when the text itself settles its media type
(`ofTextAlone_iff`).
-/
import Ocdm.Client.CapsParser

namespace Ocdm.Client

open Exchange (MediaType)
open Find (find)

/-! ## What is told -/

/-- What the getters return. -/
structure Told where
  mediaType : MediaType
  width : UInt16
  height : UInt16
  noSecureMemory : Bool
deriving DecidableEq, Repr

def CapsParser.told (p : CapsParser) : Told := ⟨p.mediaType, p.width, p.height, p.noSecureMemory⟩

section

variable (hash : List UInt8 → UInt64) (number : List UInt8 → UInt16)

/-- A new parser after calls of `Parse`, each text with the memory behind it. -/
def parseAll (garbage : Bool) (calls : List (List UInt8 × List UInt8)) : CapsParser :=
  calls.foldl (fun p call => p.parse hash number call.1 call.2) (.new garbage)

/-- The hash tells the texts apart, and is 0 for none of them; an empty text is not hashed. -/
structure HashOK (texts : List (List UInt8)) : Prop where
  injective : ∀ text ∈ texts, ∀ text' ∈ texts, text ≠ [] → text' ≠ [] → hash text = hash text' → text = text'
  ne_zero : ∀ text ∈ texts, text ≠ [] → hash text ≠ 0

end

/-- After any two sequences of texts, and with any memory behind, the parser tells the same of a text. -/
def OfTextAlone (info : List UInt8) : Prop :=
  ∀ (hash : List UInt8 → UInt64) (number : List UInt8 → UInt16) (garbage garbage' : Bool)
    (calls calls' : List (List UInt8 × List UInt8)) (tail tail' : List UInt8),
    HashOK hash (info :: (calls ++ calls').map Prod.fst) →
      (parseAll hash number garbage (calls ++ [(info, tail)])).told =
        (parseAll hash number garbage' (calls' ++ [(info, tail')])).told

/-- The text settles its media type: it has a value for it, or `audio` stands in it, or `video` does and a zero byte
keeps the search inside. -/
def Settles (info : List UInt8) : Prop :=
  findMarker info mediaTag ≠ [] ∨ strcasestr info (ascii "audio") = true ∨
    ((0 : UInt8) ∈ info ∧ strcasestr info (ascii "video") = true)

/-! ## The search behind the text -/

theorem strcasestr_iff (text pattern : List UInt8) :
    strcasestr text pattern = true ↔ pattern.map toLower <:+: (text.takeWhile (· != 0)).map toLower :=
  Find.find_isSome

/-- With a zero byte in the text nothing behind it is searched. -/
theorem strcasestr_zero {info : List UInt8} (h : (0 : UInt8) ∈ info) (tail pattern : List UInt8) :
    strcasestr (info ++ tail) pattern = strcasestr info pattern := by
  have htake : (info ++ tail).takeWhile (· != 0) = info.takeWhile (· != 0) := by
    obtain ⟨before, after, rfl, -⟩ := List.eq_append_cons_of_mem h
    rw [List.append_assoc, List.cons_append, List.takeWhile_append, List.takeWhile_append, List.takeWhile_cons,
      List.takeWhile_cons]
    rfl
  unfold strcasestr
  rw [htake]

theorem takeWhile_nonzero {info : List UInt8} (h : (0 : UInt8) ∉ info) (tail : List UInt8) :
    (info ++ tail).takeWhile (· != 0) = info ++ tail.takeWhile (· != 0) := by
  refine List.takeWhile_append_of_pos fun b hb => ?_
  rw [bne_iff_ne]
  rintro rfl
  exact h hb

/-- What is found in the text is found whatever follows. -/
theorem strcasestr_append {info pattern : List UInt8} (h : strcasestr info pattern = true) (tail : List UInt8) :
    strcasestr (info ++ tail) pattern = true := by
  by_cases hzero : (0 : UInt8) ∈ info
  · rwa [strcasestr_zero hzero]
  · rw [strcasestr_iff] at h ⊢
    have hself := takeWhile_nonzero hzero []
    rw [List.append_nil, List.takeWhile_nil, List.append_nil] at hself
    rw [takeWhile_nonzero hzero, List.map_append]
    rw [hself] at h
    exact h.trans (List.prefix_append ..).isInfix

theorem strcasestr_terminated {info : List UInt8} (h : (0 : UInt8) ∉ info) (pattern : List UInt8) :
    strcasestr (info ++ [0]) pattern = strcasestr info pattern := by
  have hself := takeWhile_nonzero h []
  have hzero := takeWhile_nonzero h [0]
  rw [List.append_nil] at hself
  unfold strcasestr
  rw [hself, hzero]
  rfl

/-- `audio` behind a text without a zero byte is found. -/
theorem strcasestr_audio {info : List UInt8} (h : (0 : UInt8) ∉ info) :
    strcasestr (info ++ ascii "audio") (ascii "audio") = true := by
  have haudio : (ascii "audio").takeWhile (· != 0) = ascii "audio" := by decide
  rw [strcasestr_iff, takeWhile_nonzero h, haudio, List.map_append]
  exact (List.suffix_append ..).isInfix

/-! ## The media type -/

/-- A text that settles its media type tells one, and the same with any memory behind. -/
theorem mediaTypeOf_settled {info : List UInt8} (h : Settles info) :
    ∃ mediaType, ∀ tail, mediaTypeOf info tail = some mediaType := by
  unfold mediaTypeOf
  dsimp only
  by_cases hmarker : findMarker info mediaTag ≠ []
  · simp only [if_pos hmarker]
    split
    · exact ⟨_, fun _ => rfl⟩
    · split
      · exact ⟨_, fun _ => rfl⟩
      · exact ⟨_, fun _ => rfl⟩
  · simp only [if_neg hmarker]
    rcases h with hfound | haudio | ⟨hzero, hvideo⟩
    · exact absurd hfound hmarker
    · exact ⟨.audio, fun tail => if_pos (strcasestr_append haudio tail)⟩
    · simp only [strcasestr_zero hzero, hvideo, if_true]
      by_cases haudio : strcasestr info (ascii "audio") = true
      · exact ⟨.audio, fun _ => if_pos haudio⟩
      · exact ⟨.video, fun _ => if_neg haudio⟩

section

variable (hash : List UInt8 → UInt64) (number : List UInt8 → UInt16)

/-- What is told of a text of a media type. -/
def toldOf (info : List UInt8) (mediaType : MediaType) : Told :=
  if mediaType = .video then
    ⟨mediaType, numberOf number (findMarker info widthTag), numberOf number (findMarker info heightTag),
      startsTrue (findDecryptToHost info)⟩
  else ⟨mediaType, 0, 0, false⟩

theorem toldOf_mediaType (info : List UInt8) (mediaType : MediaType) :
    (toldOf number info mediaType).mediaType = mediaType := by
  unfold toldOf
  split <;> rfl

variable {hash}

/-- A text that is not the last one takes effect. -/
theorem parse_fresh {p : CapsParser} {info : List UInt8} (hne : info ≠ []) (h : p.lastHash ≠ hash info)
    (tail : List UInt8) :
    (p.parse hash number info tail).lastHash = hash info ∧
    (p.parse hash number info tail).told = toldOf number info ((mediaTypeOf info tail).getD p.mediaType) := by
  unfold CapsParser.parse toldOf
  rw [if_pos (List.length_pos_iff.2 hne), if_pos h]
  dsimp only
  split
  · exact ⟨rfl, rfl⟩
  · exact ⟨rfl, rfl⟩

variable {number}

/-- The text the parser remembers, if it settles its media type, is the one it tells of. -/
def Remembers (hash : List UInt8 → UInt64) (number : List UInt8 → UInt16) (texts : List (List UInt8))
    (p : CapsParser) : Prop :=
  ∀ text ∈ texts, text ≠ [] → p.lastHash = hash text →
    ∀ mediaType, (∀ tail, mediaTypeOf text tail = some mediaType) → p.told = toldOf number text mediaType

theorem Remembers.parse {texts : List (List UInt8)} (hhash : HashOK hash texts) {p : CapsParser}
    (h : Remembers hash number texts p) {info : List UInt8} (hinfo : info ∈ texts) (tail : List UInt8) :
    Remembers hash number texts (p.parse hash number info tail) := by
  by_cases hne : info = []
  · subst hne
    exact h
  · by_cases hcached : p.lastHash = hash info
    · rwa [parse_cached hcached]
    · obtain ⟨hlast, htold⟩ := parse_fresh number hne hcached tail
      intro text htext htextne heq mediaType hsettled
      rw [hlast] at heq
      obtain rfl := hhash.injective info hinfo text htext hne htextne heq
      rw [htold, hsettled, Option.getD_some]

theorem parseAll_remembers {texts : List (List UInt8)} (hhash : HashOK hash texts) (garbage : Bool)
    (calls : List (List UInt8 × List UInt8)) (hcalls : ∀ call ∈ calls, call.1 ∈ texts) :
    Remembers hash number texts (parseAll hash number garbage calls) := by
  refine List.foldlRecOn (motive := Remembers hash number texts) calls _ ?_ fun p h call hcall =>
    h.parse hhash (hcalls call hcall) call.2
  intro text htext hne heq
  exact absurd heq.symm (hhash.ne_zero text htext hne)

theorem parseAll_concat (hash : List UInt8 → UInt64) (number : List UInt8 → UInt16) (garbage : Bool)
    (calls : List (List UInt8 × List UInt8)) (info tail : List UInt8) :
    parseAll hash number garbage (calls ++ [(info, tail)]) =
      (parseAll hash number garbage calls).parse hash number info tail := by
  unfold parseAll
  rw [List.foldl_append]
  rfl

/-- After a text that settles its media type the parser tells of that text. -/
theorem told_settled {info : List UInt8} (hne : info ≠ []) {mediaType : MediaType}
    (hsettled : ∀ tail, mediaTypeOf info tail = some mediaType) {texts : List (List UInt8)} (hinfo : info ∈ texts)
    (hhash : HashOK hash texts) (garbage : Bool) (calls : List (List UInt8 × List UInt8))
    (hcalls : ∀ call ∈ calls, call.1 ∈ texts) (tail : List UInt8) :
    (parseAll hash number garbage (calls ++ [(info, tail)])).told = toldOf number info mediaType := by
  rw [parseAll_concat]
  by_cases hcached : (parseAll hash number garbage calls).lastHash = hash info
  · rw [parse_cached hcached]
    exact parseAll_remembers hhash garbage calls hcalls info hinfo hne hcached mediaType hsettled
  · rw [(parse_fresh number hne hcached tail).2, hsettled, Option.getD_some]

end

/-! ## Texts that settle nothing -/

/-- A text at a new parser. -/
theorem told_first (hash : List UInt8 → UInt64) (number : List UInt8 → UInt16) {info : List UInt8} (hne : info ≠ [])
    (hhash : hash info ≠ 0) (tail : List UInt8) :
    (parseAll hash number false [(info, tail)]).told.mediaType = (mediaTypeOf info tail).getD .unknown := by
  show ((CapsParser.new false).parse hash number info tail).told.mediaType = _
  rw [(parse_fresh number hne hhash.symm tail).2, toldOf_mediaType]
  rfl

/-- Without a value for the media type it is searched for in the text and behind it. -/
theorem mediaTypeOf_searched {info : List UInt8} (h : findMarker info mediaTag = []) (tail : List UInt8) :
    mediaTypeOf info tail = if strcasestr (info ++ tail) (ascii "audio") then some .audio
      else if strcasestr (info ++ tail) (ascii "video") then some .video else none := by
  unfold mediaTypeOf
  dsimp only
  rw [h, if_neg (not_not.2 rfl)]

/-- Without a zero byte, `audio` behind the text is told. -/
theorem not_ofTextAlone_open {info : List UInt8} (hne : info ≠ []) (hmarker : findMarker info mediaTag = [])
    (haudio : strcasestr info (ascii "audio") ≠ true) (hzero : (0 : UInt8) ∉ info) : ¬ OfTextAlone info := by
  intro h
  have htold := congrArg Told.mediaType (h (fun _ => 1) (fun _ => 0) false false [] [] (ascii "audio") [0]
    ⟨fun text htext text' htext' _ _ _ => by
      rw [List.mem_singleton.1 htext, List.mem_singleton.1 htext'], fun _ _ _ => by decide⟩)
  rw [List.nil_append, List.nil_append, told_first _ _ hne (by decide), told_first _ _ hne (by decide),
    mediaTypeOf_searched hmarker, mediaTypeOf_searched hmarker, if_pos (strcasestr_audio hzero),
    strcasestr_terminated hzero, strcasestr_terminated hzero, if_neg haudio] at htold
  revert htold
  split <;> decide

/-- A hash that tells one text from the others. -/
def hashApart (info : List UInt8) (text : List UInt8) : UInt64 := if text = info then 1 else 2

theorem hashApart_self (info : List UInt8) : hashApart info info = 1 := if_pos rfl

theorem hashApart_ne_zero (info text : List UInt8) : hashApart info text ≠ 0 := by
  unfold hashApart
  split <;> decide

theorem hashApart_ok {info other : List UInt8} (h : other ≠ info) : HashOK (hashApart info) [info, other] := by
  have hother : hashApart info other = 2 := if_neg h
  refine ⟨fun text htext text' htext' _ _ heq => ?_, fun text _ _ => hashApart_ne_zero info text⟩
  simp only [List.mem_cons, List.not_mem_nil, or_false] at htext htext'
  rcases htext with rfl | rfl <;> rcases htext' with rfl | rfl
  · rfl
  · rw [hashApart_self, hother] at heq
    exact absurd heq (by decide)
  · rw [hashApart_self, hother] at heq
    exact absurd heq (by decide)
  · rfl

/-- With one, the media type of an earlier text is kept. -/
theorem not_ofTextAlone_kept {info : List UInt8} (hne : info ≠ []) (hmarker : findMarker info mediaTag = [])
    (haudio : strcasestr info (ascii "audio") ≠ true) (hvideo : strcasestr info (ascii "video") ≠ true)
    (hzero : (0 : UInt8) ∈ info) : ¬ OfTextAlone info := by
  intro h
  have hnone : mediaTypeOf info [] = none := by
    rw [mediaTypeOf_searched hmarker, strcasestr_zero hzero, strcasestr_zero hzero, if_neg haudio, if_neg hvideo]
  have hother : ascii "video" ≠ info := by
    rintro rfl
    exact hvideo (by decide +kernel)
  have htold := congrArg Told.mediaType (h (hashApart info) (fun _ => 0) false false
    [(ascii "video", [])] [] [] [] (hashApart_ok hother))
  -- the first parser has seen a video text
  have hvideoType : mediaTypeOf (ascii "video") [] = some .video := by decide +kernel
  have hearlier : (parseAll (hashApart info) (fun _ => 0) false [(ascii "video", [])]).mediaType = .video := by
    have hfirst := told_first (hashApart info) (fun _ => 0) (by decide) (hashApart_ne_zero info (ascii "video")) []
    rwa [hvideoType, Option.getD_some] at hfirst
  have hfresh : (parseAll (hashApart info) (fun _ => 0) false [(ascii "video", [])]).lastHash ≠
      hashApart info info := by
    have hzero : (CapsParser.new false).lastHash ≠ hashApart info (ascii "video") :=
      (hashApart_ne_zero info (ascii "video")).symm
    have hlast := (parse_fresh (fun _ => 0) (by decide) hzero []).1
    have hapart : hashApart info (ascii "video") = 2 := if_neg hother
    show ((CapsParser.new false).parse (hashApart info) (fun _ => 0) (ascii "video") []).lastHash ≠ _
    rw [hlast, hapart, hashApart_self]
    decide
  rw [parseAll_concat, (parse_fresh _ hne hfresh []).2, toldOf_mediaType, hnone, Option.getD_none, hearlier,
    List.nil_append, told_first _ _ hne (hashApart_ne_zero info info), hnone] at htold
  cases htold

/-- For every text, what the parser tells after it depends on the text alone exactly when the text settles its media
type. -/
theorem ofTextAlone_iff (info : List UInt8) : OfTextAlone info ↔ Settles info := by
  constructor
  · intro h
    by_contra hno
    unfold Settles at hno
    push Not at hno
    obtain ⟨hmarker, haudio, hvideo⟩ := hno
    by_cases hne : info = []
    · -- an empty text leaves the flag as the constructor found it
      subst hne
      have htold := congrArg Told.noSecureMemory (h (fun _ => 1) (fun _ => 0) false true [] [] [] []
        ⟨fun text htext text' htext' _ _ _ => by
          rw [List.mem_singleton.1 htext, List.mem_singleton.1 htext'], fun _ _ _ => by decide⟩)
      exact absurd htold (by decide)
    · by_cases hzero : (0 : UInt8) ∈ info
      · exact not_ofTextAlone_kept hne hmarker haudio (hvideo hzero) hzero h
      · exact not_ofTextAlone_open hne hmarker haudio hzero h
  · intro hsettles hash number garbage garbage' calls calls' tail tail' hhash
    obtain ⟨mediaType, hsettled⟩ := mediaTypeOf_settled hsettles
    have hne : info ≠ [] := by
      rintro rfl
      exact absurd hsettles (by unfold Settles; decide +kernel)
    have hcalls : ∀ call ∈ calls ++ calls', call.1 ∈ info :: (calls ++ calls').map Prod.fst :=
      fun call hcall => List.mem_cons_of_mem _ (List.mem_map_of_mem hcall)
    rw [told_settled hne hsettled (List.mem_cons_self ..) hhash garbage calls
        fun call hcall => hcalls call (List.mem_append_left _ hcall),
      told_settled hne hsettled (List.mem_cons_self ..) hhash garbage' calls'
        fun call hcall => hcalls call (List.mem_append_right _ hcall)]

/-- Caps without a media type. -/
def plainCaps : List UInt8 := ascii "framerate=(int)30" ++ [0]

/-- They are video behind other video caps, and unknown at first. -/
theorem plainCaps_not_ofTextAlone : ¬ OfTextAlone plainCaps :=
  not_ofTextAlone_kept (by decide) (by decide +kernel) (by decide +kernel) (by decide +kernel) (by decide)

end Ocdm.Client
