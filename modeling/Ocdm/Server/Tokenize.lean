/-
`TrimWs` and `Tokenize` (FrameworkRPC.cpp) on any string. The cursor that trims the end of a piece stops at the start of
the string only, not at the cursor that trims its start, and it reads in front of its position before it tests the
bound. So the pieces come out trimmed exactly when a blank one is empty, or is the first one with a single blank
(`tokenize_eq_iff`).
-/
import Mathlib.Data.List.DropRight
import Ocdm.Lib.Find
import Ocdm.Server.TypeSupport

namespace Ocdm.Server

/-! ## Trimming a list at both ends -/

section

variable {α : Type} {p : α → Bool}

theorem rdropWhile_append_of_all (xs : List α) {ys : List α} (h : ∀ y ∈ ys, p y = true) :
    (xs ++ ys).rdropWhile p = xs.rdropWhile p := by
  have hall : ys.reverse.dropWhile p = [] := by
    rw [List.dropWhile_eq_nil_iff]
    exact fun y hy => h y (List.mem_reverse.1 hy)
  unfold List.rdropWhile
  rw [List.reverse_append, List.dropWhile_append, hall, List.isEmpty_nil, if_pos rfl]

theorem rdropWhile_append_of_exists (xs : List α) {ys : List α} (h : ∃ y ∈ ys, p y = false) :
    (xs ++ ys).rdropWhile p = xs ++ ys.rdropWhile p := by
  have hne : (ys.reverse.dropWhile p).isEmpty = false := by
    rw [List.isEmpty_eq_false_iff, Ne, List.dropWhile_eq_nil_iff]
    intro hall
    obtain ⟨y, hy, hno⟩ := h
    rw [hall y (List.mem_reverse.2 hy)] at hno
    cases hno
  unfold List.rdropWhile
  rw [List.reverse_append, List.dropWhile_append, hne, if_neg Bool.false_ne_true, List.reverse_append,
    List.reverse_reverse]

end

/-- A text without the white space at its ends. -/
def trim (text : Text) : Text := (text.dropWhile isSpace).rdropWhile isSpace

theorem trim_of_blank {piece : Text} (h : ∀ c ∈ piece, isSpace c = true) : trim piece = [] := by
  unfold trim
  rw [List.dropWhile_eq_nil_iff.2 h, List.rdropWhile_nil]

/-! ## The two cursors -/

theorem charAt_lt {str : Text} {index : Nat} (h : index < str.length) : charAt str index = some str[index] := by
  unfold charAt
  rw [if_neg (by omega), List.getElem?_eq_getElem h]

/-- The first cursor passes the blanks at the start of a piece. -/
theorem trimStart_eq (before after : Text) : ∀ piece : Text,
    trimStart (before ++ (piece ++ after)) before.length piece.length =
      some (before.length + (piece.takeWhile isSpace).length) := by
  intro piece
  induction piece generalizing before with
  | nil =>
    have hread : (charAt (before ++ after) before.length).isSome = true := by
      unfold charAt
      split
      · rfl
      · rename_i hend
        rw [List.length_append] at hend
        rw [List.getElem?_eq_getElem (by rw [List.length_append]; omega)]
        rfl
    obtain ⟨c, hc⟩ := Option.isSome_iff_exists.1 hread
    show (charAt (before ++ ([] ++ after)) before.length).map _ = _
    rw [List.nil_append, hc]
    rfl
  | cons c piece ih =>
    have hread : charAt (before ++ (c :: piece ++ after)) before.length = some c := by
      rw [charAt_lt (by simp)]
      simp
    rw [List.length_cons, trimStart, hread]
    show (if isSpace c = true then trimStart _ _ _ else _) = _
    rw [List.takeWhile_cons]
    split
    · have hrest := ih (before ++ [c])
      rw [List.append_assoc, List.singleton_append, List.length_append, List.length_singleton] at hrest
      rw [List.cons_append, hrest, List.length_cons]
      congr 1
      omega
    · rfl

/-- The second one passes the blanks in front of its start, down to the first character. -/
theorem trimEnd_eq (after : Text) (start : Text) (h : start ≠ []) :
    trimEnd (start ++ after) start.length = some (max 1 (start.rdropWhile isSpace).length) := by
  induction start using List.reverseRecOn generalizing after with
  | nil => exact absurd rfl h
  | append_singleton start c ih =>
    have hread : charAt (start ++ [c] ++ after) start.length = some c := by
      rw [charAt_lt (by simp)]
      simp
    rw [List.length_append, List.length_singleton, trimEnd, hread]
    show (if isSpace c = true ∧ start.length > 0 then trimEnd _ _ else _) = _
    rw [List.rdropWhile_concat]
    by_cases hc : isSpace c = true
    · rw [if_pos hc]
      by_cases hstart : start = []
      · subst hstart
        simp
      · rw [if_pos ⟨hc, List.length_pos_iff.2 hstart⟩, List.append_assoc]
        exact ih _ hstart
    · rw [if_neg (fun h => hc h.1), if_neg hc, List.length_append, List.length_singleton, Nat.max_eq_right (by omega)]

/-! ## One piece -/

/-- A blank piece comes out when it is empty, and the first one when it is a single blank. -/
def PieceFits (first : Bool) (piece : Text) : Prop :=
  (∀ c ∈ piece, isSpace c = true) → piece.length = if first then 1 else 0

/-- What comes before a piece: nothing, or something that ends in the token. -/
def EndsIn (token : Char) (before : Text) : Prop := before = [] ∨ ∃ start, before = start ++ [token]

theorem EndsIn.rdropWhile {token : Char} (htoken : isSpace token = false) {before : Text}
    (h : EndsIn token before) : before.rdropWhile isSpace = before := by
  rcases h with rfl | ⟨start, rfl⟩
  · rfl
  · exact List.rdropWhile_concat_neg _ _ _ (by rw [htoken]; exact Bool.false_ne_true)

/-- A piece that is not blank comes out trimmed. -/
theorem trimmed_of_not_blank (before after : Text) {piece : Text} (h : ∃ c ∈ piece, isSpace c = false) :
    trimmed (before ++ (piece ++ after)) before.length (before.length + piece.length) = some (trim piece) := by
  have hne : piece ≠ [] := by
    rintro rfl
    obtain ⟨c, hc, -⟩ := h
    cases hc
  have hcore : ∃ c ∈ piece.dropWhile isSpace, isSpace c = false := by
    obtain ⟨c, hc, hno⟩ := h
    rw [← List.takeWhile_append_dropWhile (p := isSpace) (l := piece), List.mem_append] at hc
    rcases hc with hc | hc
    · rw [List.mem_takeWhile_imp hc] at hno
      cases hno
    · exact ⟨c, hc, hno⟩
  have hstop := trimEnd_eq after (before ++ piece) (by simp [hne])
  rw [rdropWhile_append_of_exists before h, List.append_assoc, List.length_append, List.length_append] at hstop
  -- the piece is its leading blanks and the rest, which keeps a character when its end is trimmed
  have hpiece : piece.rdropWhile isSpace = piece.takeWhile isSpace ++ trim piece := by
    have hsplit := rdropWhile_append_of_exists (piece.takeWhile isSpace) hcore
    rwa [List.takeWhile_append_dropWhile] at hsplit
  have htrim : trim piece ≠ [] := by
    unfold trim
    rw [Ne, List.rdropWhile_eq_nil_iff]
    intro hall
    obtain ⟨c, hc, hno⟩ := hcore
    rw [hall c hc] at hno
    cases hno
  have hlength := List.length_pos_iff.2 htrim
  rw [hpiece, List.length_append, Nat.max_eq_right (by omega)] at hstop
  unfold trimmed
  rw [Nat.add_sub_cancel_left, trimStart_eq, hstop]
  show (if _ ≤ _ then _ else none) = _
  rw [if_pos (by omega), ← List.drop_drop, List.drop_left,
    List.drop_append_of_le_length (List.takeWhile_prefix _).length_le]
  have hdrop : piece.drop (piece.takeWhile isSpace).length = piece.dropWhile isSpace := by
    have hsplit : (piece.takeWhile isSpace ++ piece.dropWhile isSpace).drop (piece.takeWhile isSpace).length = _ :=
      List.drop_left
    rwa [List.takeWhile_append_dropWhile] at hsplit
  obtain ⟨rest, hrest⟩ := List.rdropWhile_prefix isSpace (piece.dropWhile isSpace)
  rw [hdrop, ← hrest, List.append_assoc, show before.length + ((piece.takeWhile isSpace).length + (trim piece).length) -
    (before.length + (piece.takeWhile isSpace).length) = (trim piece).length by omega]
  exact congrArg some List.take_left

/-- A blank piece comes out empty, or not at all. -/
theorem trimmed_of_blank {token : Char} (htoken : isSpace token = false) {before : Text}
    (hbefore : EndsIn token before) (after : Text) {piece : Text} (h : ∀ c ∈ piece, isSpace c = true) :
    trimmed (before ++ (piece ++ after)) before.length (before.length + piece.length) =
      if piece.length = (if before.isEmpty then 1 else 0) then some [] else none := by
  have hstart : (piece.takeWhile isSpace).length = piece.length := by
    rw [List.takeWhile_eq_self_iff.2 h]
  unfold trimmed
  rw [Nat.add_sub_cancel_left, trimStart_eq, hstart]
  by_cases hempty : before ++ piece = []
  · -- the empty piece at the start of the string: the end cursor reads in front of it
    obtain ⟨rfl, rfl⟩ := List.append_eq_nil_iff.1 hempty
    rfl
  · have hstop := trimEnd_eq after (before ++ piece) hempty
    rw [rdropWhile_append_of_all before h, hbefore.rdropWhile htoken, List.append_assoc, List.length_append] at hstop
    rw [hstop]
    show (if _ ≤ _ then _ else none) = _
    cases before with
    | nil =>
      have hpos := List.length_pos_iff.2 hempty
      simp only [List.nil_append, List.length_nil, List.isEmpty_nil, if_true] at *
      by_cases hone : piece.length = 1
      · rw [if_pos (by omega), if_pos hone, hone]
        rfl
      · rw [if_neg (by omega), if_neg hone]
    | cons c before =>
      simp only [List.length_cons, List.isEmpty_cons, Bool.false_eq_true, if_false]
      by_cases hnil : piece.length = 0
      · rw [if_pos (by omega), if_pos hnil, hnil]
        simp
      · rw [if_neg (by omega), if_neg hnil]

theorem trimmed_eq_iff {token : Char} (htoken : isSpace token = false) {before : Text}
    (hbefore : EndsIn token before) (after piece : Text) :
    trimmed (before ++ (piece ++ after)) before.length (before.length + piece.length) = some (trim piece) ↔
      PieceFits before.isEmpty piece := by
  unfold PieceFits
  by_cases h : ∀ c ∈ piece, isSpace c = true
  · rw [trimmed_of_blank htoken hbefore after h, trim_of_blank h]
    by_cases hlength : piece.length = if before.isEmpty then 1 else 0
    · rw [if_pos hlength]
      exact iff_of_true rfl fun _ => hlength
    · rw [if_neg hlength]
      exact iff_of_false nofun fun hfits => hlength (hfits h)
  · have hno : ∃ c ∈ piece, isSpace c = false := by
      push Not at h
      simpa using h
    exact iff_of_true (trimmed_of_not_blank before after hno) fun hall => absurd hall h

theorem trimmed_some {token : Char} (htoken : isSpace token = false) {before : Text}
    (hbefore : EndsIn token before) {after piece result : Text}
    (h : trimmed (before ++ (piece ++ after)) before.length (before.length + piece.length) = some result) :
    result = trim piece := by
  by_cases hall : ∀ c ∈ piece, isSpace c = true
  · rw [trimmed_of_blank htoken hbefore after hall] at h
    obtain ⟨-, heq⟩ := Option.ite_none_right_eq_some.1 h
    rw [trim_of_blank hall, ← Option.some.inj heq]
  · have hno : ∃ c ∈ piece, isSpace c = false := by
      push Not at hall
      simpa using hall
    rw [trimmed_of_not_blank before after hno] at h
    exact (Option.some.inj h).symm

/-! ## The pieces -/

/-- The first piece fits as the first one, the others as others. -/
def PiecesFit (first : Bool) : List Text → Prop
  | [] => True
  | piece :: pieces => PieceFits first piece ∧ ∀ other ∈ pieces, PieceFits false other

theorem piecesFit_false (pieces : List Text) : PiecesFit false pieces ↔ ∀ piece ∈ pieces, PieceFits false piece := by
  cases pieces with
  | nil => simp [PiecesFit]
  | cons piece pieces => simp [PiecesFit]

section

variable {token : Char}

theorem tokenizeFrom_last (before : Text) {piece : Text} (hpiece : token ∉ piece) :
    tokenizeFrom (before ++ (piece ++ [])) token before.length =
      (trimmed (before ++ (piece ++ [])) before.length (before.length + piece.length)).map ([·]) := by
  have hnone : ((before ++ (piece ++ [])).drop before.length).findIdx? (· == token) = none := by
    rw [List.drop_left, List.append_nil, List.findIdx?_eq_none_iff]
    exact fun c hc => beq_false_of_ne fun heq => hpiece (heq ▸ hc)
  rw [tokenizeFrom]
  split
  · rw [List.length_append, List.append_nil]
  · rename_i i hi
    rw [hnone] at hi
    cases hi

/-- A step of the loop: up to the next token one piece, and on from behind it. -/
theorem tokenizeFrom_cons {before piece : Text} (hpiece : token ∉ piece) (rest : Text) :
    tokenizeFrom (before ++ (piece ++ token :: rest)) token before.length =
      (trimmed (before ++ (piece ++ token :: rest)) before.length (before.length + piece.length)).bind fun first =>
        (tokenizeFrom (before ++ piece ++ [token] ++ rest) token (before ++ piece ++ [token]).length).map
          (first :: ·) := by
  have hstr : before ++ piece ++ [token] ++ rest = before ++ (piece ++ token :: rest) := by simp
  have hlength : (before ++ piece ++ [token]).length = before.length + piece.length + 1 := by
    simp only [List.length_append, List.length_singleton]
  have hfind : ((before ++ (piece ++ token :: rest)).drop before.length).findIdx? (· == token) =
      some piece.length := by
    have hnone : piece.findIdx? (· == token) = none := by
      rw [List.findIdx?_eq_none_iff]
      exact fun c hc => beq_false_of_ne fun heq => hpiece (heq ▸ hc)
    rw [List.drop_left, List.findIdx?_append, hnone, List.findIdx?_cons, beq_self_eq_true]
    simp
  rw [hstr, hlength, tokenizeFrom]
  split
  · rename_i hnone
    rw [hfind] at hnone
    cases hnone
  · rename_i i hi
    rw [hfind] at hi
    cases hi
    congr 1
    funext first
    split
    · cases tokenizeFrom (before ++ (piece ++ token :: rest)) token (before.length + piece.length + 1) <;> rfl
    · -- the token was the last character: what is left is an empty piece
      rename_i hend
      have hrest : rest = [] := by
        simp only [List.length_append, List.length_cons] at hend
        exact List.length_eq_zero_iff.1 (by omega)
      subst hrest
      rw [tokenizeFrom]
      split
      · cases trimmed (before ++ (piece ++ [token])) (before.length + piece.length + 1)
          (before ++ (piece ++ [token])).length <;> rfl
      · rename_i j hj
        rw [List.drop_eq_nil_of_le (by simp; omega)] at hj
        cases hj

/-- What comes out are the pieces, trimmed. -/
theorem tokenizeFrom_eq_iff (htoken : isSpace token = false) (before rest : Text) (hbefore : EndsIn token before) :
    tokenizeFrom (before ++ rest) token before.length = some ((Find.pieces token rest).map trim) ↔
      PiecesFit before.isEmpty (Find.pieces token rest) := by
  induction hn : rest.length using Nat.strongRecOn generalizing before rest with
  | ind n ih =>
    by_cases hmem : token ∈ rest
    · obtain ⟨piece, rest, rfl, hpiece⟩ := List.eq_append_cons_of_mem hmem
      have hrest := ih rest.length (by simp at hn; omega) (before ++ piece ++ [token]) rest
        (.inr ⟨before ++ piece, rfl⟩) rfl
      rw [show (before ++ piece ++ [token]).isEmpty = false by simp, piecesFit_false] at hrest
      rw [tokenizeFrom_cons hpiece, Find.pieces_append, Find.pieces_of_not_mem hpiece]
      show _ ↔ PieceFits _ piece ∧ ∀ other ∈ Find.pieces token rest, PieceFits false other
      rw [← hrest, ← trimmed_eq_iff htoken hbefore (token :: rest) piece]
      cases htrimmed : trimmed (before ++ (piece ++ token :: rest)) before.length (before.length + piece.length) with
      | none => simp
      | some first =>
        rw [trimmed_some htoken hbefore htrimmed]
        cases tokenizeFrom (before ++ piece ++ [token] ++ rest) token (before ++ piece ++ [token]).length <;> simp
    · have hlast := tokenizeFrom_last before hmem
      rw [List.append_nil] at hlast
      rw [hlast, Find.pieces_of_not_mem hmem]
      simp only [PiecesFit, List.map_cons, List.map_nil, List.not_mem_nil, false_implies, implies_true, and_true]
      rw [← trimmed_eq_iff htoken hbefore [] rest, List.append_nil]
      cases trimmed (before ++ rest) before.length (before.length + rest.length) <;> simp

end

/-- For every string, the codecs are the pieces between its commas, trimmed, exactly when each blank piece is empty, and
the first one a single blank if it is blank. -/
theorem tokenize_eq_iff (str : Text) :
    tokenize str ',' = some ((Find.pieces ',' str).map trim) ↔ PiecesFit true (Find.pieces ',' str) :=
  tokenizeFrom_eq_iff (by decide) [] str (.inl rfl)

/-- A blank codec between two commas has a negative length. -/
theorem tokenize_blank_piece :
    "a, ,b".toList ≠ [] ∧ ("a, ,b".toList.all isCodecChar) = true ∧
      tokenize "a, ,b".toList ',' ≠ some ((Find.pieces ',' "a, ,b".toList).map trim) := by
  refine ⟨by decide, by decide +kernel, ?_⟩
  decide +kernel

end Ocdm.Server
