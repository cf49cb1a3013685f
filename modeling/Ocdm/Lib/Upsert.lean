/-
Lists used as tables: `upsert` updates the first row a test accepts, or appends a new one. With a
test that compares keys by an equivalence relation the list is a finite map that remembers the
order in which its keys first appeared (`find?_upsert`), and collecting a list of rows merges the
rows of one key into the first of them (`collect_keys`, `collect_distinct`, `collect_merged`).
-/
import Mathlib.Data.List.Induction
import Mathlib.Tactic.Common

namespace Upsert

variable {α κ : Type}

/-- Update the first row `p` accepts by `f`, or append `a`. -/
def upsert (p : α → Bool) (f : α → α) (a : α) : List α → List α
  | [] => [a]
  | x :: xs => if p x then f x :: xs else x :: upsert p f a xs

theorem upsert_of_none {p : α → Bool} {f : α → α} {a : α} {l : List α} (h : ∀ x ∈ l, p x = false) :
    upsert p f a l = l ++ [a] := by
  induction l with
  | nil => rfl
  | cons x xs ih =>
    have hx := h x (List.mem_cons_self ..)
    rw [upsert, hx, ih fun y hy => h y (List.mem_cons_of_mem _ hy)]
    rfl

theorem upsert_of_mem {p : α → Bool} {f : α → α} {a : α} {l : List α} (h : ∃ x ∈ l, p x = true) :
    ∃ pre x post, l = pre ++ x :: post ∧ (∀ y ∈ pre, p y = false) ∧ p x = true ∧
      upsert p f a l = pre ++ f x :: post := by
  induction l with
  | nil => obtain ⟨x, hx, -⟩ := h; cases hx
  | cons y ys ih =>
    cases hp : p y with
    | true => exact ⟨[], y, ys, rfl, by simp, hp, by rw [upsert, if_pos hp]; rfl⟩
    | false =>
      obtain ⟨pre, x, post, rfl, h1, h2, h3⟩ := ih (by
        obtain ⟨x, hx, hpx⟩ := h
        rcases List.mem_cons.1 hx with rfl | hx
        · rw [hp] at hpx; cases hpx
        · exact ⟨x, hx, hpx⟩)
      refine ⟨y :: pre, x, post, rfl, ?_, h2, ?_⟩
      · intro z hz
        rcases List.mem_cons.1 hz with rfl | hz
        · exact hp
        · exact h1 z hz
      · rw [upsert, hp, h3]; rfl

theorem map_upsert {p : α → Bool} {f : α → α} {a : α} {key : α → κ} (hf : ∀ x, key (f x) = key x) (l : List α) :
    (upsert p f a l).map key = if l.any p then l.map key else l.map key ++ [key a] := by
  induction l with
  | nil => rfl
  | cons x xs ih =>
    rw [upsert]
    cases hp : p x with
    | true => simp [hp, hf]
    | false =>
      simp only [Bool.false_eq_true, if_false, List.map_cons, ih, List.any_cons, hp, Bool.false_or]
      split <;> rfl

/-- A map that takes test and update of one kind of rows to those of another. -/
theorem map_upsert_hom {β : Type} {p : α → Bool} {p' : β → Bool} {f : α → α} {f' : β → β} {a : α} {g : α → β}
    (hp : ∀ x, p x = p' (g x)) (hf : ∀ x, g (f x) = f' (g x)) (l : List α) :
    (upsert p f a l).map g = upsert p' f' (g a) (l.map g) := by
  induction l with
  | nil => rfl
  | cons x xs ih =>
    rw [List.map_cons, upsert, upsert, ← hp]
    cases p x with
    | true => rw [if_pos rfl, if_pos rfl, List.map_cons, hf]
    | false => rw [if_neg Bool.false_ne_true, if_neg Bool.false_ne_true, List.map_cons, ih]

/-! ## Keys compared by an equivalence relation -/

/-- `r` is an equivalence relation, as a test. -/
structure Equiv (r : κ → κ → Bool) : Prop where
  refl : ∀ a, r a a = true
  symm : ∀ a b, r a b = r b a
  trans : ∀ {a b c}, r a b = true → r b c = true → r a c = true

theorem Equiv.congr {r : κ → κ → Bool} (hr : Equiv r) {a b : κ} (h : r a b = true) (c : κ) : r a c = r b c := by
  cases hb : r b c with
  | true => exact hr.trans h hb
  | false =>
    cases ha : r a c with
    | false => rfl
    | true =>
      have := hr.trans (hr.symm a b ▸ h) ha
      rw [hb] at this; cases this

section Keyed

variable {r : κ → κ → Bool} (hr : Equiv r) (key : α → κ)

include hr

/-- Looking a key up after an `upsert` finds the updated row when the keys are equal, and what was
there before otherwise. -/
theorem find?_upsert {f : α → α} (hf : ∀ x, key (f x) = key x) (a : α) (l : List α) (k : κ) :
    (upsert (fun x => r (key x) (key a)) f a l).find? (fun x => r (key x) k) =
      if r (key a) k then some (((l.find? fun x => r (key x) (key a)).map f).getD a)
      else l.find? fun x => r (key x) k := by
  induction l with
  | nil => cases h : r (key a) k <;> simp [upsert, h]
  | cons x xs ih =>
    rw [upsert]
    cases hp : r (key x) (key a) with
    | true =>
      rw [if_pos rfl, List.find?_cons, List.find?_cons, List.find?_cons, hf, hp, hr.congr hp]
      cases r (key a) k <;> rfl
    | false =>
      rw [if_neg (by simp), List.find?_cons, List.find?_cons, List.find?_cons, hp, ih]
      cases ha : r (key a) k with
      | false => rfl
      | true =>
        have hx : r (key x) k = false := by
          rw [hr.symm, ← hr.congr ha, hr.symm]; exact hp
        simp only [hx, if_true]

end Keyed

/-! ## Collecting rows -/

/-- Add the rows of a list one by one, merging each into the row of its key. -/
def collect (r : κ → κ → Bool) (key : α → κ) (merge : α → α → α) (l : List α) : List α :=
  l.foldl (fun acc a => upsert (fun x => r (key x) (key a)) (fun x => merge x a) a acc) []

/-- The rows of `l` with the key of `x`. -/
def rowsOf (r : κ → κ → Bool) (key : α → κ) (x : α) (l : List α) : List α := l.filter fun a => r (key x) (key a)

/-- `x` is the first row of its key, with the later ones merged into it in order. -/
def IsMerged (r : κ → κ → Bool) (key : α → κ) (merge : α → α → α) (x : α) (l : List α) : Prop :=
  ∃ a rest, rowsOf r key x l = a :: rest ∧ key x = key a ∧ x = rest.foldl merge a

section Collect

variable {r : κ → κ → Bool} (hr : Equiv r) {key : α → κ} {merge : α → α → α} (hm : ∀ x a, key (merge x a) = key x)

theorem collect_concat (l : List α) (a : α) :
    collect r key merge (l ++ [a]) =
      upsert (fun x => r (key x) (key a)) (fun x => merge x a) a (collect r key merge l) := by
  simp [collect, List.foldl_append]

include hr hm in
theorem collect_keys_from (l acc : List α) (seen : List κ) (h : acc.map key = seen.reverse) :
    (l.foldl (fun acc a => upsert (fun x => r (key x) (key a)) (fun x => merge x a) a acc) acc).map key =
      List.eraseDupsBy.loop r (l.map key) seen := by
  induction l generalizing acc seen with
  | nil => exact h
  | cons a l ih =>
    have hany : acc.any (fun x => r (key x) (key a)) = seen.any (r (key a)) := by
      rw [← List.any_reverse (l := seen), ← h, List.any_map]
      exact congrArg acc.any (funext fun x => hr.symm (key x) (key a))
    rw [List.foldl_cons, List.map_cons, List.eraseDupsBy.loop]
    cases hs : seen.any (r (key a)) with
    | true => exact ih _ _ (by rw [map_upsert fun x => hm x a, hany, hs, if_pos rfl, h])
    | false => exact ih _ _ (by rw [map_upsert fun x => hm x a, hany, hs, if_neg (by simp), h, List.reverse_cons])

include hr hm in
/-- The keys of a collected list are the keys collected, each at its first appearance. -/
theorem collect_keys (l : List α) : (collect r key merge l).map key = (l.map key).eraseDupsBy r :=
  collect_keys_from hr hm l [] [] rfl

include hr hm in
/-- Every key collected has a row. -/
theorem exists_collect (l : List α) : ∀ b ∈ l, ∃ x ∈ collect r key merge l, r (key x) (key b) = true := by
  induction l using List.reverseRecOn with
  | nil => intro b hb; cases hb
  | append_singleton l a ih =>
    intro b hb
    have hfind := find?_upsert hr key (f := fun x => merge x a) (fun x => hm x a) a (collect r key merge l) (key b)
    rw [← collect_concat] at hfind
    have hsome : ((collect r key merge (l ++ [a])).find? fun x => r (key x) (key b)).isSome := by
      rw [hfind]
      cases hab : r (key a) (key b) with
      | true => rfl
      | false =>
        rcases List.mem_append.1 hb with hb | hb
        · obtain ⟨x, hx, hxb⟩ := ih b hb
          rw [if_neg (by simp), List.find?_isSome]
          exact ⟨x, hx, hxb⟩
        · rw [List.mem_singleton.1 hb, hr.refl] at hab; cases hab
    rw [List.find?_isSome] at hsome
    exact hsome

include hm in
/-- No two rows of a collected list have equal keys. -/
theorem collect_distinct (l : List α) : (collect r key merge l).Pairwise fun x y => r (key x) (key y) = false := by
  induction l using List.reverseRecOn with
  | nil => exact .nil
  | append_singleton l a ih =>
    rw [collect_concat]
    by_cases h : ∃ x ∈ collect r key merge l, r (key x) (key a) = true
    · obtain ⟨pre, x, post, he, -, -, hu⟩ := upsert_of_mem (f := fun x => merge x a) (a := a) h
      rw [hu]
      rw [he] at ih
      simp only [List.pairwise_append, List.pairwise_cons, List.mem_cons, forall_eq_or_imp, hm] at ih ⊢
      exact ih
    · have hno : ∀ x ∈ collect r key merge l, r (key x) (key a) = false := fun x hx => by
        cases hb : r (key x) (key a) with
        | false => rfl
        | true => exact absurd ⟨x, hx, hb⟩ h
      rw [upsert_of_none hno, List.pairwise_append]
      exact ⟨ih, List.pairwise_singleton _ _, fun x hx y hy => by rw [List.mem_singleton.1 hy]; exact hno x hx⟩

theorem rowsOf_concat (x : α) (l : List α) (a : α) :
    rowsOf r key x (l ++ [a]) = if r (key x) (key a) then rowsOf r key x l ++ [a] else rowsOf r key x l := by
  unfold rowsOf
  rw [List.filter_append, List.filter_cons, List.filter_nil]
  cases r (key x) (key a) <;> simp

/-- A row of another key leaves the merge as it is. -/
theorem IsMerged.concat_other {x : α} {l : List α} (h : IsMerged r key merge x l) {a : α}
    (ha : r (key x) (key a) = false) : IsMerged r key merge x (l ++ [a]) := by
  obtain ⟨b, rest, hrows, hkey, hfold⟩ := h
  exact ⟨b, rest, by rw [rowsOf_concat, ha]; exact hrows, hkey, hfold⟩

include hm in
/-- A row of the same key is merged last. -/
theorem IsMerged.concat_same {x : α} {l : List α} (h : IsMerged r key merge x l) {a : α}
    (ha : r (key x) (key a) = true) : IsMerged r key merge (merge x a) (l ++ [a]) := by
  obtain ⟨b, rest, hrows, hkey, hfold⟩ := h
  refine ⟨b, rest ++ [a], ?_, by rw [hm]; exact hkey, ?_⟩
  · have hsame : rowsOf r key (merge x a) (l ++ [a]) = rowsOf r key x (l ++ [a]) := by
      unfold rowsOf; rw [hm]
    rw [hsame, rowsOf_concat, if_pos ha, hrows]; rfl
  · rw [List.foldl_append, ← hfold]; rfl

include hr in
/-- A row whose key is new is its own merge. -/
theorem isMerged_concat_new {l : List α} {a : α} (h : ∀ b ∈ l, r (key a) (key b) = false) :
    IsMerged r key merge a (l ++ [a]) := by
  have hnone : rowsOf r key a l = [] := by
    unfold rowsOf
    rw [List.filter_eq_nil_iff]
    intro b hb hab
    rw [h b hb] at hab; cases hab
  refine ⟨a, [], ?_, rfl, rfl⟩
  rw [rowsOf_concat, if_pos (hr.refl _), hnone]; rfl

include hr hm in
/-- Every row of a collected list is the merge of the collected rows of its key. -/
theorem collect_merged (l : List α) : ∀ x ∈ collect r key merge l, IsMerged r key merge x l := by
  induction l using List.reverseRecOn with
  | nil => intro x hx; cases hx
  | append_singleton l a ih =>
    intro x hx
    rw [collect_concat] at hx
    by_cases h : ∃ x ∈ collect r key merge l, r (key x) (key a) = true
    · obtain ⟨pre, y, post, he, hpre, hy, hu⟩ := upsert_of_mem (f := fun x => merge x a) (a := a) h
      have hd : (collect r key merge l).Pairwise fun x y => r (key x) (key y) = false := collect_distinct hm l
      rw [hu] at hx
      rw [he] at ih hd
      rw [List.pairwise_append, List.pairwise_cons] at hd
      rcases List.mem_append.1 hx with hx | hx
      · exact (ih x (List.mem_append_left _ hx)).concat_other (hpre x hx)
      · rcases List.mem_cons.1 hx with rfl | hx
        · exact (ih y (by simp)).concat_same hm hy
        · -- the rows behind the updated one have other keys than it
          refine (ih x (List.mem_append_right _ (List.mem_cons_of_mem _ hx))).concat_other ?_
          have hyx := hd.2.1.1 x hx
          rw [hr.symm, ← hr.congr hy, hyx]
    · have hno : ∀ x ∈ collect r key merge l, r (key x) (key a) = false := fun x hx => by
        cases hb : r (key x) (key a) with
        | false => rfl
        | true => exact absurd ⟨x, hx, hb⟩ h
      rw [upsert_of_none hno] at hx
      rcases List.mem_append.1 hx with hx | hx
      · exact (ih x hx).concat_other (hno x hx)
      · obtain rfl := List.mem_singleton.1 hx
        refine isMerged_concat_new hr fun b hb => ?_
        obtain ⟨y, hy, hyb⟩ := exists_collect hr hm l b hb
        rw [hr.symm, ← hr.congr hyb]
        exact hno y hy

end Collect

end Upsert
