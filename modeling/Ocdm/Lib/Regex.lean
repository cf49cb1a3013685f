/-
Regular expressions with captured groups, matched the way a backtracking matcher does: `run` lists the matches
of a prefix in the order they are tried, every repetition as long as it can be first, and `match` takes the
first one that leaves nothing. What matches is in the language of the expression, and what a group captured is
in the language of that group.
-/
import Ocdm.Lib.Assoc
import Mathlib.Data.List.TakeWhile

variable {α : Type}

/-- An expression over classes of characters; groups have numbers. -/
inductive Regex (α : Type) where
  /-- characters of a class, at least and at most so many -/
  | chars (p : α → Bool) (least : Nat) (most : Option Nat)
  | seq (r s : Regex α)
  | opt (r : Regex α)
  | group (n : Nat) (r : Regex α)

namespace Regex

def many (p : α → Bool) : Regex α := .chars p 0 none

def many1 (p : α → Bool) : Regex α := .chars p 1 none

def char [DecidableEq α] (c : α) : Regex α := .chars (fun x => decide (x = c)) 1 (some 1)

def optChar [DecidableEq α] (c : α) : Regex α := .chars (fun x => decide (x = c)) 0 (some 1)

/-- A literal and what follows it. -/
def lit [DecidableEq α] (cs : List α) (r : Regex α) : Regex α := cs.foldr (fun c r => .seq (char c) r) r

/-- A match of a prefix: the prefix, what is left, and what the groups captured. -/
structure Match (α : Type) where
  consumed : List α
  rest : List α
  groups : List (Nat × List α)

/-- The matches of a prefix, in the order in which they are tried. -/
def run : Regex α → List α → List (Match α)
  | .chars p least most, xs =>
    let longest := most.elim (xs.takeWhile p).length (min (xs.takeWhile p).length)
    (List.range' least (longest + 1 - least)).reverse.map fun k => ⟨xs.take k, xs.drop k, []⟩
  | .seq r s, xs =>
    (r.run xs).flatMap fun m =>
      (s.run m.rest).map fun m' => ⟨m.consumed ++ m'.consumed, m'.rest, m.groups ++ m'.groups⟩
  | .opt r, xs => r.run xs ++ [⟨[], xs, []⟩]
  | .group n r, xs => (r.run xs).map fun m => { m with groups := (n, m.consumed) :: m.groups }

/-- The groups of the first match of a whole text. -/
def fullMatch (r : Regex α) (xs : List α) : Option (List (Nat × List α)) :=
  ((r.run xs).find? fun m => m.rest.isEmpty).map (·.groups)

/-- What a group captured; nothing when it took no part. -/
def capture (n : Nat) (groups : List (Nat × List α)) : List α := (Assoc.lookup n groups).getD []

/-- The texts an expression describes. -/
inductive Lang : Regex α → List α → Prop where
  | chars {p : α → Bool} {least : Nat} {most : Option Nat} {xs : List α} :
      (∀ x ∈ xs, p x = true) → least ≤ xs.length → (∀ m ∈ most, xs.length ≤ m) → Lang (.chars p least most) xs
  | seq {r s : Regex α} {xs ys : List α} : Lang r xs → Lang s ys → Lang (.seq r s) (xs ++ ys)
  | optNone {r : Regex α} : Lang (.opt r) []
  | optSome {r : Regex α} {xs : List α} : Lang r xs → Lang (.opt r) xs
  | group {n : Nat} {r : Regex α} {xs : List α} : Lang r xs → Lang (.group n r) xs

/-- The expressions of a group of a number. -/
def inGroup (n : Nat) : Regex α → List (Regex α)
  | .chars _ _ _ => []
  | .seq r s => r.inGroup n ++ s.inGroup n
  | .opt r => r.inGroup n
  | .group k r => if k = n then r :: r.inGroup n else r.inGroup n

/-- A match as it should be: it splits the text, the prefix is in the language, and so is each captured text. -/
structure Match.Sound (r : Regex α) (xs : List α) (m : Match α) : Prop where
  split : m.consumed ++ m.rest = xs
  lang : Lang r m.consumed
  groups : ∀ e ∈ m.groups, ∃ s ∈ r.inGroup e.1, Lang s e.2

theorem run_chars_sound {p : α → Bool} {least : Nat} {most : Option Nat} {xs : List α} {m : Match α}
    (h : m ∈ (Regex.chars p least most).run xs) : m.Sound (.chars p least most) xs := by
  unfold run at h
  obtain ⟨k, hk, rfl⟩ := List.mem_map.1 h
  rw [List.mem_reverse, List.mem_range'_1] at hk
  obtain ⟨hleast, hk⟩ := hk
  have hk' : k ≤ most.elim (xs.takeWhile p).length (min (xs.takeWhile p).length) := by omega
  have hlongest : k ≤ (xs.takeWhile p).length := by
    cases most with
    | none => exact hk'
    | some m => exact hk'.trans (Nat.min_le_left _ _)
  have hlength : (xs.take k).length = k := by
    rw [List.length_take]
    exact Nat.min_eq_left (hlongest.trans (List.takeWhile_sublist p).length_le)
  refine ⟨List.take_append_drop k xs, .chars (fun x hx => ?_) (hleast.trans_eq hlength.symm) (fun m hm => ?_),
    fun e he => by cases he⟩
  · have hbegins : xs.take k <+: xs.takeWhile p :=
      List.prefix_of_prefix_length_le (List.take_prefix k xs) (List.takeWhile_prefix p) (by omega)
    exact List.mem_takeWhile_imp (hbegins.subset hx)
  · rw [Option.mem_def.1 hm] at hk'
    rw [hlength]
    exact hk'.trans (Nat.min_le_right _ _)

theorem run_sound (r : Regex α) : ∀ {xs : List α} {m : Match α}, m ∈ r.run xs → m.Sound r xs := by
  induction r with
  | chars p least most => exact run_chars_sound
  | seq r s ihr ihs =>
    intro xs m h
    unfold run at h
    obtain ⟨m₁, h₁, h⟩ := List.mem_flatMap.1 h
    obtain ⟨m₂, h₂, rfl⟩ := List.mem_map.1 h
    have s₁ := ihr h₁
    have s₂ := ihs h₂
    refine ⟨?_, .seq s₁.lang s₂.lang, fun e he => ?_⟩
    · rw [← s₁.split, ← s₂.split, List.append_assoc]
    · unfold inGroup
      rcases List.mem_append.1 he with he | he
      · obtain ⟨t, ht, hlang⟩ := s₁.groups e he
        exact ⟨t, List.mem_append_left _ ht, hlang⟩
      · obtain ⟨t, ht, hlang⟩ := s₂.groups e he
        exact ⟨t, List.mem_append_right _ ht, hlang⟩
  | opt r ih =>
    intro xs m h
    unfold run at h
    rcases List.mem_append.1 h with h | h
    · have s := ih h
      exact ⟨s.split, .optSome s.lang, s.groups⟩
    · rw [List.mem_singleton.1 h]
      exact ⟨rfl, .optNone, fun e he => by cases he⟩
  | group n r ih =>
    intro xs m h
    unfold run at h
    obtain ⟨m', h', rfl⟩ := List.mem_map.1 h
    have s := ih h'
    refine ⟨s.split, .group s.lang, fun e he => ?_⟩
    unfold inGroup
    rcases List.mem_cons.1 he with rfl | he
    · exact ⟨r, by simp, s.lang⟩
    · obtain ⟨t, ht, hlang⟩ := s.groups e he
      exact ⟨t, by split <;> simp [ht], hlang⟩

/-- Each captured text of a full match is in the language of its group. -/
theorem fullMatch_groups {r : Regex α} {xs : List α} {groups : List (Nat × List α)} (h : r.fullMatch xs = some groups) :
    ∀ e ∈ groups, ∃ s ∈ r.inGroup e.1, Lang s e.2 := by
  obtain ⟨m, hm, rfl⟩ := Option.map_eq_some_iff.1 h
  exact (run_sound r (List.mem_of_find?_eq_some hm)).groups

/-- A group that takes part in every match. -/
def Always (n : Nat) : Regex α → Prop
  | .chars _ _ _ => False
  | .seq r s => r.Always n ∨ s.Always n
  | .opt _ => False
  | .group k r => k = n ∨ r.Always n

theorem run_always {n : Nat} (r : Regex α) :
    ∀ {xs : List α} {m : Match α}, r.Always n → m ∈ r.run xs → ∃ e ∈ m.groups, e.1 = n := by
  induction r with
  | chars p least most => exact fun h => h.elim
  | seq r s ihr ihs =>
    intro xs m halways h
    unfold run at h
    obtain ⟨m₁, h₁, h⟩ := List.mem_flatMap.1 h
    obtain ⟨m₂, h₂, rfl⟩ := List.mem_map.1 h
    rcases halways with halways | halways
    · obtain ⟨e, he, hn⟩ := ihr halways h₁
      exact ⟨e, List.mem_append_left _ he, hn⟩
    · obtain ⟨e, he, hn⟩ := ihs halways h₂
      exact ⟨e, List.mem_append_right _ he, hn⟩
  | opt r ih => exact fun h => h.elim
  | group k r ih =>
    intro xs m halways h
    unfold run at h
    obtain ⟨m', h', rfl⟩ := List.mem_map.1 h
    rcases halways with rfl | halways
    · exact ⟨_, List.mem_cons_self, rfl⟩
    · obtain ⟨e, he, hn⟩ := ih halways h'
      exact ⟨e, List.mem_cons_of_mem _ he, hn⟩

/-- What a group captured that takes part in every match. -/
theorem capture_lang {r : Regex α} {xs : List α} {groups : List (Nat × List α)} (h : r.fullMatch xs = some groups)
    {n : Nat} (halways : r.Always n) : ∃ s ∈ r.inGroup n, Lang s (capture n groups) := by
  unfold capture
  cases hfound : Assoc.lookup n groups with
  | none =>
    obtain ⟨m, hm, rfl⟩ := Option.map_eq_some_iff.1 h
    obtain ⟨e, he, hn⟩ := run_always r halways (List.mem_of_find?_eq_some hm)
    exact absurd hn (Assoc.lookup_eq_none.1 hfound e he)
  | some text => exact fullMatch_groups h _ (Assoc.lookup_mem hfound)

end Regex
