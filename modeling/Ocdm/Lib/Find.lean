/-
Searching a list for a pattern, and cutting it at a separator. `find pattern data pos` is the first
position from `pos` on at which the pattern begins, as `std::string::find` has it. `pieces c data` are the
parts of the data between its separators `c`.
-/
import Mathlib.Data.List.Infix
import Mathlib.Data.List.TakeWhile
import Mathlib.Tactic.Common

namespace Find

/-! ## Patterns -/

/-- A pattern without the separator does not reach over it. -/
theorem prefix_append_cons {α : Type} {c : α} {pattern : List α} (hc : c ∉ pattern) (xs ys : List α) :
    pattern <+: xs ++ c :: ys ↔ pattern <+: xs := by
  refine ⟨fun h => ?_, fun h => h.trans (List.prefix_append ..)⟩
  rcases Nat.lt_or_ge xs.length pattern.length with hlt | hle
  · have hcut : xs ++ [c] <+: xs ++ c :: ys := ⟨ys, by rw [List.append_assoc, List.singleton_append]⟩
    have hover : xs ++ [c] <+: pattern :=
      List.prefix_of_prefix_length_le hcut h (by rw [List.length_append, List.length_singleton]; omega)
    exact absurd (hover.subset (List.mem_append_right _ (List.mem_singleton_self c))) hc
  · exact List.prefix_of_prefix_length_le h (List.prefix_append ..) hle

section

variable {α : Type} [DecidableEq α]

/-- The first position from `pos` on at which `pattern` begins. -/
def find (pattern data : List α) (pos : Nat) : Option Nat :=
  (List.range (data.length + 1)).find? fun i => decide (pos ≤ i) && pattern.isPrefixOf (data.drop i)

theorem find_eq_some {pattern data : List α} {pos i : Nat} :
    find pattern data pos = some i ↔ pos ≤ i ∧ i ≤ data.length ∧ pattern <+: data.drop i ∧
      ∀ j < i, pos ≤ j → ¬ pattern <+: data.drop j := by
  unfold find
  rw [List.find?_range_eq_some]
  simp only [Bool.and_eq_true, decide_eq_true_eq, List.isPrefixOf_iff_prefix, List.mem_range, Nat.lt_succ_iff,
    Bool.not_eq_true', Bool.and_eq_false_iff, decide_eq_false_iff_not]
  constructor
  · rintro ⟨⟨hpos, hat⟩, hle, hfirst⟩
    refine ⟨hpos, hle, hat, fun j hj hge hbefore => ?_⟩
    rcases hfirst j hj with hlt | hno
    · exact hlt hge
    · exact absurd (List.isPrefixOf_iff_prefix.2 hbefore) (by rw [hno]; exact Bool.false_ne_true)
  · rintro ⟨hpos, hle, hat, hfirst⟩
    refine ⟨⟨hpos, hat⟩, hle, fun j hj => ?_⟩
    by_cases hge : pos ≤ j
    · exact .inr (Bool.eq_false_iff.2 fun hbefore => hfirst j hj hge (List.isPrefixOf_iff_prefix.1 hbefore))
    · exact .inl hge

theorem find_eq_none {pattern data : List α} {pos : Nat} :
    find pattern data pos = none ↔ ∀ i ≤ data.length, pos ≤ i → ¬ pattern <+: data.drop i := by
  unfold find
  rw [List.find?_range_eq_none]
  simp only [Bool.not_eq_true', Bool.and_eq_false_iff, decide_eq_false_iff_not, Nat.lt_succ_iff]
  refine forall₂_congr fun i _ => ⟨fun h hpos hat => ?_, fun h => ?_⟩
  · rcases h with hlt | hno
    · exact hlt hpos
    · exact absurd (List.isPrefixOf_iff_prefix.2 hat) (by rw [hno]; exact Bool.false_ne_true)
  · by_cases hpos : pos ≤ i
    · exact .inr (Bool.eq_false_iff.2 fun hat => h hpos (List.isPrefixOf_iff_prefix.1 hat))
    · exact .inl hpos

/-- A pattern is found from the start when it stands somewhere. -/
theorem find_isSome {pattern data : List α} : (find pattern data 0).isSome = true ↔ pattern <:+: data := by
  rw [← Option.ne_none_iff_isSome, Ne, find_eq_none]
  push Not
  constructor
  · rintro ⟨i, -, -, hat⟩
    exact hat.isInfix.trans (List.drop_suffix i data).isInfix
  · rintro ⟨before, after, rfl⟩
    refine ⟨before.length, by simp, Nat.zero_le _, ?_⟩
    rw [List.append_assoc, List.drop_left]
    exact List.prefix_append ..

/-- A pattern without the separator is found before it, or behind it. -/
theorem find_append_cons {c : α} {pattern : List α} (hc : c ∉ pattern) (xs ys : List α) :
    find pattern (xs ++ c :: ys) 0 = (find pattern xs 0).or ((find pattern ys 0).map (xs.length + 1 + ·)) := by
  have hbefore : ∀ i ≤ xs.length, (pattern <+: (xs ++ c :: ys).drop i ↔ pattern <+: xs.drop i) := by
    intro i hi
    rw [List.drop_append_of_le_length hi]
    exact prefix_append_cons hc ..
  have hbehind : ∀ i, (xs ++ c :: ys).drop (xs.length + 1 + i) = ys.drop i := by
    intro i
    rw [← List.drop_drop, ← List.drop_drop, List.drop_left, List.drop_one, List.tail_cons]
  cases hxs : find pattern xs 0 with
  | some i =>
    obtain ⟨-, hle, hat, hfirst⟩ := find_eq_some.1 hxs
    refine find_eq_some.2 ⟨Nat.zero_le _, ?_, (hbefore i hle).2 hat, fun j hj _ hno => ?_⟩
    · rw [List.length_append]
      omega
    · exact hfirst j hj (Nat.zero_le _) ((hbefore j (by omega)).1 hno)
  | none =>
    have hno := find_eq_none.1 hxs
    cases hys : find pattern ys 0 with
    | some i =>
      obtain ⟨-, hle, hat, hfirst⟩ := find_eq_some.1 hys
      show _ = some (xs.length + 1 + i)
      refine find_eq_some.2 ⟨Nat.zero_le _, ?_, by rwa [hbehind], fun j hj _ hat' => ?_⟩
      · rw [List.length_append, List.length_cons]
        omega
      · rcases Nat.lt_or_ge xs.length j with hlt | hge
        · obtain ⟨k, rfl⟩ := Nat.exists_eq_add_of_le hlt
          rw [Nat.succ_eq_add_one, hbehind] at hat'
          exact hfirst k (by omega) (Nat.zero_le _) hat'
        · exact hno j hge (Nat.zero_le _) ((hbefore j hge).1 hat')
    | none =>
      refine find_eq_none.2 fun j hj _ hat => ?_
      rcases Nat.lt_or_ge xs.length j with hlt | hge
      · obtain ⟨k, rfl⟩ := Nat.exists_eq_add_of_le hlt
        rw [Nat.succ_eq_add_one, hbehind] at hat
        rw [List.length_append, List.length_cons] at hj
        exact find_eq_none.1 hys k (by omega) (Nat.zero_le _) hat
      · exact hno j hge (Nat.zero_le _) ((hbefore j hge).1 hat)

/-- The pattern stands where it is found. -/
theorem find_prefix {pattern data : List α} {pos i : Nat} (h : find pattern data pos = some i) :
    pattern <+: data.drop i := (find_eq_some.1 h).2.2.1

end

theorem drop_of_prefix {α : Type} {pattern data : List α} {i : Nat} (h : pattern <+: data.drop i) :
    data.drop i = pattern ++ data.drop (i + pattern.length) := by
  obtain ⟨rest, hrest⟩ := h
  rw [← List.drop_drop, ← hrest, List.drop_left]

theorem drop_takeWhile {α : Type} (p : α → Bool) (data : List α) (i : Nat) :
    data.drop (i + ((data.drop i).takeWhile p).length) = (data.drop i).dropWhile p := by
  have h : ((data.drop i).takeWhile p ++ (data.drop i).dropWhile p).drop ((data.drop i).takeWhile p).length =
      (data.drop i).dropWhile p := List.drop_left
  rwa [List.takeWhile_append_dropWhile, List.drop_drop] at h

/-! ## Single separators -/

section

variable {α : Type} [DecidableEq α]

theorem takeWhile_separator {c : α} {xs : List α} (h : c ∉ xs) (ys : List α) :
    (xs ++ c :: ys).takeWhile (fun x => decide (x ≠ c)) = xs := by
  have hother : ∀ x ∈ xs, decide (x ≠ c) = true := fun x hx => decide_eq_true fun heq => h (heq ▸ hx)
  rw [List.takeWhile_append_of_pos hother, List.takeWhile_cons_of_neg (by simp), List.append_nil]

theorem takeWhile_of_not_mem {c : α} {xs : List α} (h : c ∉ xs) : xs.takeWhile (fun x => decide (x ≠ c)) = xs :=
  List.takeWhile_eq_self_iff.2 fun _ hx => decide_eq_true fun heq => h (heq ▸ hx)

theorem find_singleton {c : α} {data : List α} {pos : Nat} (h : c ∈ data.drop pos) :
    find [c] data pos = some (pos + ((data.drop pos).takeWhile fun x => decide (x ≠ c)).length) := by
  obtain ⟨before, after, hcut, hbefore⟩ := List.eq_append_cons_of_mem h
  have hlen := congrArg List.length hcut
  rw [List.length_drop, List.length_append, List.length_cons] at hlen
  have hat : ∀ k, data.drop (pos + k) = (before ++ c :: after).drop k := fun k => by rw [← List.drop_drop, hcut]
  rw [hcut, takeWhile_separator hbefore]
  refine find_eq_some.2 ⟨Nat.le_add_right .., by omega, ?_, fun j hj hge hpre => ?_⟩
  · rw [hat, List.drop_left]
    exact ⟨after, rfl⟩
  · obtain ⟨k, rfl⟩ := Nat.exists_eq_add_of_le hge
    have hk : k < before.length := by omega
    rw [hat, List.drop_append_of_le_length hk.le, List.drop_eq_getElem_cons hk, List.cons_append,
      List.cons_prefix_cons] at hpre
    exact hbefore (hpre.1 ▸ List.getElem_mem hk)

theorem find_singleton_none {c : α} {data : List α} {pos : Nat} (h : c ∉ data.drop pos) :
    find [c] data pos = none := by
  refine find_eq_none.2 fun i _ hge hat => h ?_
  obtain ⟨k, rfl⟩ := Nat.exists_eq_add_of_le hge
  rw [← List.drop_drop] at hat
  exact List.mem_of_mem_drop (hat.subset (List.mem_singleton_self c))

/-- The text from a position up to the next separator, or to the end. -/
theorem take_to_separator (c : α) (data : List α) (start : Nat) :
    (data.drop start).take ((find [c] data start).getD data.length - start) =
      (data.drop start).takeWhile fun x => decide (x ≠ c) := by
  by_cases h : c ∈ data.drop start
  · rw [find_singleton h, Option.getD_some, Nat.add_sub_cancel_left]
    exact (List.prefix_iff_eq_take.1 (List.takeWhile_prefix _)).symm
  · rw [find_singleton_none h, Option.getD_none, ← List.length_drop, List.take_length, takeWhile_of_not_mem h]

end

/-! ## Pieces -/

section

variable {α : Type} [DecidableEq α]

/-- The parts between separators. -/
def pieces (c : α) : List α → List (List α)
  | [] => [[]]
  | x :: xs =>
    if x = c then [] :: pieces c xs
    else
      match pieces c xs with
      | [] => [[x]]
      | p :: ps => (x :: p) :: ps

theorem pieces_head (c : α) (xs : List α) : ∃ ps, pieces c xs = xs.takeWhile (fun x => decide (x ≠ c)) :: ps := by
  induction xs with
  | nil => exact ⟨[], rfl⟩
  | cons x xs ih =>
    obtain ⟨ps, hps⟩ := ih
    rw [pieces, List.takeWhile_cons]
    by_cases hx : x = c
    · rw [if_pos hx, if_neg (by simp [hx])]
      exact ⟨_, rfl⟩
    · rw [if_neg hx, if_pos (by simp [hx]), hps]
      exact ⟨ps, rfl⟩

theorem pieces_of_not_mem {c : α} {xs : List α} (h : c ∉ xs) : pieces c xs = [xs] := by
  induction xs with
  | nil => rfl
  | cons x xs ih =>
    rw [List.mem_cons, not_or] at h
    rw [pieces, if_neg (Ne.symm h.1), ih h.2]

/-- Cutting at a separator. -/
theorem pieces_append (c : α) (xs ys : List α) : pieces c (xs ++ c :: ys) = pieces c xs ++ pieces c ys := by
  induction xs with
  | nil => simp [pieces]
  | cons x xs ih =>
    obtain ⟨ps, hps⟩ := pieces_head c xs
    rw [List.cons_append, pieces, pieces, ih, hps]
    by_cases hx : x = c
    · rw [if_pos hx, if_pos hx]
      rfl
    · rw [if_neg hx, if_neg hx]
      rfl

/-- What follows the last separator before a position, up to the next one, is a piece. -/
theorem mem_pieces {c : α} {xs before after : List α} (h : xs = before ++ after)
    (hbefore : before = [] ∨ ∃ start, before = start ++ [c]) :
    after.takeWhile (fun x => decide (x ≠ c)) ∈ pieces c xs := by
  obtain ⟨ps, hps⟩ := pieces_head c after
  rcases hbefore with rfl | ⟨start, rfl⟩
  · rw [h, List.nil_append, hps]
    exact List.mem_cons_self ..
  · rw [h, List.append_assoc, List.singleton_append, pieces_append, hps]
    exact List.mem_append_right _ (List.mem_cons_self ..)

end

end Find
