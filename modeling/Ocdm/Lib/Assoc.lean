/-
Lists of pairs used as a `std::map`: `insertNew` keeps the entry a key already has, as `insert` does, and
`remove` erases the key's entry. A walk over such a list may leave out what it has met (`foldl_once`).
-/
import Mathlib.Data.List.Nodup
import Mathlib.Tactic.Common

namespace Assoc

variable {κ α : Type} [DecidableEq κ]

def lookup (k : κ) (t : List (κ × α)) : Option α := (t.find? fun e => decide (e.1 = k)).map (·.2)

def insertNew (k : κ) (a : α) (t : List (κ × α)) : List (κ × α) := if (lookup k t).isSome then t else t ++ [(k, a)]

def remove (k : κ) (t : List (κ × α)) : List (κ × α) := t.filter fun e => decide (e.1 ≠ k)

theorem lookup_mem {k : κ} {a : α} {t : List (κ × α)} (h : lookup k t = some a) : (k, a) ∈ t := by
  obtain ⟨e, he, rfl⟩ := Option.map_eq_some_iff.1 h
  have hk : e.1 = k := of_decide_eq_true (List.find?_some (p := fun e : κ × α => decide (e.1 = k)) he)
  subst hk
  exact List.mem_of_find?_eq_some he

theorem lookup_eq_none {k : κ} {t : List (κ × α)} : lookup k t = none ↔ ∀ e ∈ t, e.1 ≠ k := by
  unfold lookup
  rw [Option.map_eq_none_iff, List.find?_eq_none]
  simp only [decide_eq_true_eq]

theorem lookup_append (k : κ) (t t' : List (κ × α)) : lookup k (t ++ t') = (lookup k t).or (lookup k t') := by
  unfold lookup
  rw [List.find?_append]
  cases t.find? fun e => decide (e.1 = k) <;> rfl

theorem lookup_insertNew (j k : κ) (a : α) (t : List (κ × α)) :
    lookup j (insertNew k a t) = (lookup j t).or (if k = j then some a else none) := by
  unfold insertNew
  split
  · rename_i hsome
    by_cases hkj : k = j
    · subst hkj
      obtain ⟨b, hb⟩ := Option.isSome_iff_exists.1 hsome
      rw [hb]
      rfl
    · rw [if_neg hkj, Option.or_none]
  · rw [lookup_append]
    refine congrArg ((lookup j t).or ·) ?_
    unfold lookup
    by_cases hkj : k = j
    · simp [hkj]
    · simp [hkj]

theorem mem_insertNew {k : κ} {a : α} {t : List (κ × α)} {e : κ × α} (h : e ∈ insertNew k a t) :
    e ∈ t ∨ e = (k, a) := by
  unfold insertNew at h
  split at h
  · exact .inl h
  · rcases List.mem_append.1 h with h | h
    · exact .inl h
    · exact .inr (List.mem_singleton.1 h)

/-- A new entry brings no second one of its key. -/
theorem keys_insertNew {t : List (κ × α)} (h : (t.map Prod.fst).Nodup) (k : κ) (a : α) :
    ((insertNew k a t).map Prod.fst).Nodup := by
  unfold insertNew
  split
  · exact h
  · rename_i hnone
    rw [Option.not_isSome_iff_eq_none, lookup_eq_none] at hnone
    rw [List.map_append, List.nodup_append']
    refine ⟨h, List.nodup_singleton _, ?_⟩
    rw [List.map_singleton, List.disjoint_singleton]
    intro hmem
    obtain ⟨e, he, hk⟩ := List.mem_map.1 hmem
    exact hnone e he hk

/-- With one entry a key, what is in the list is what is looked up. -/
theorem mem_iff_lookup {t : List (κ × α)} (h : (t.map Prod.fst).Nodup) {k : κ} {a : α} :
    (k, a) ∈ t ↔ lookup k t = some a := by
  refine ⟨fun hmem => ?_, lookup_mem⟩
  cases hlookup : lookup k t with
  | none => exact absurd rfl (lookup_eq_none.1 hlookup _ hmem)
  | some b =>
    have heq : (k, b) = (k, a) := List.inj_on_of_nodup_map h (lookup_mem hlookup) hmem rfl
    cases heq
    rfl

theorem lookup_remove (j k : κ) (t : List (κ × α)) : lookup j (remove k t) = if j = k then none else lookup j t := by
  unfold lookup remove
  rw [List.find?_filter]
  split
  · rename_i hjk
    rw [Option.map_eq_none_iff, List.find?_eq_none]
    intro e _
    simp [hjk]
  · rename_i hjk
    congr 2
    funext e
    by_cases he : e.1 = j
    · simp [he, hjk]
    · simp [he]

theorem mem_remove {k : κ} {t : List (κ × α)} {e : κ × α} : e ∈ remove k t ↔ e ∈ t ∧ e.1 ≠ k := by
  unfold remove
  rw [List.mem_filter, decide_eq_true_eq]

theorem remove_of_none {k : κ} {t : List (κ × α)} (h : lookup k t = none) : remove k t = t := by
  unfold remove
  rw [List.filter_eq_self]
  exact fun e he => decide_eq_true (lookup_eq_none.1 h e he)

/-- Removing a new entry leaves what was there. -/
theorem remove_insertNew {k : κ} {t : List (κ × α)} (h : lookup k t = none) (a : α) :
    remove k (insertNew k a t) = t := by
  have hself : remove k [(k, a)] = [] := by simp [remove]
  unfold insertNew
  rw [h, if_neg (by simp)]
  unfold remove at *
  rw [List.filter_append, hself, List.append_nil]
  exact remove_of_none h

/-- Removing an entry that was there changes the list. -/
theorem remove_ne {k : κ} {a : α} {t : List (κ × α)} (h : lookup k t = some a) : remove k t ≠ t := by
  intro heq
  have hmem := lookup_mem h
  rw [← heq] at hmem
  exact (mem_remove.1 hmem).2 rfl

/-- A walk that leaves out what it has met meets everything once. -/
theorem foldl_once {α β : Type} [DecidableEq β] (f : α → β) (xs : List α) : ∀ met : List β, met.Nodup →
    (xs.foldl (fun met x => if f x ∈ met then met else met ++ [f x]) met).Nodup ∧
    ∀ n, n ∈ xs.foldl (fun met x => if f x ∈ met then met else met ++ [f x]) met ↔ n ∈ met ∨ ∃ x ∈ xs, f x = n := by
  induction xs with
  | nil => intro met h; simpa using h
  | cons x xs ih =>
    intro met h
    rw [List.foldl_cons]
    by_cases hx : f x ∈ met
    · rw [if_pos hx]
      refine ⟨(ih met h).1, fun n => (ih met h).2 n |>.trans ?_⟩
      simp only [List.mem_cons, exists_eq_or_imp]
      constructor
      · rintro (hn | hn)
        · exact .inl hn
        · exact .inr (.inr hn)
      · rintro (hn | rfl | hn)
        · exact .inl hn
        · exact .inl hx
        · exact .inr hn
    · rw [if_neg hx]
      have hmet : (met ++ [f x]).Nodup := by
        rw [List.nodup_append', List.disjoint_singleton]
        exact ⟨h, List.nodup_singleton _, hx⟩
      refine ⟨(ih _ hmet).1, fun n => ((ih _ hmet).2 n).trans ?_⟩
      simp only [List.mem_append, List.mem_cons, List.not_mem_nil, exists_eq_or_imp, or_assoc, false_or]
      rw [@eq_comm _ n (f x)]

end Assoc
