/-
Resources that are acquired and released. A list of operations is matched when no release is ahead of an acquire of the
same resource, and every acquire has its release in the end. When the acquires all come first, that says that what is
released is what was acquired, in some order (`matched_iff_perm`).
-/
import Mathlib.Data.List.Count
import Mathlib.Data.List.Infix

namespace Pairing

inductive Op (β : Type) where
  | acquire (resource : β)
  | release (resource : β)
deriving DecidableEq, Repr

/-- Some of a list are all of it only if it is all of them. -/
theorem filter_perm_iff {α β : Type} (f : α → β) (p : α → Bool) (as : List α) :
    ((as.filter p).map f).Perm (as.map f) ↔ ∀ a ∈ as, p a = true := by
  rw [← List.length_filter_eq_length_iff]
  constructor
  · intro h
    have hlen := h.length_eq
    rwa [List.length_map, List.length_map] at hlen
  · intro h
    rw [List.filter_sublist.eq_of_length h]

variable {β : Type} [DecidableEq β]

/-- Every acquire is matched by one release behind it, and every release by one acquire. -/
structure Matched (ops : List (Op β)) : Prop where
  behind : ∀ before, before <+: ops → ∀ b, before.count (.release b) ≤ before.count (.acquire b)
  released : ∀ b, ops.count (.acquire b) = ops.count (.release b)

theorem Matched.nil : Matched ([] : List (Op β)) where
  behind before hbefore b := by rw [List.prefix_nil.1 hbefore, List.count_nil, List.count_nil]
  released _ := rfl

theorem Matched.append {ops ops' : List (Op β)} (h : Matched ops) (h' : Matched ops') : Matched (ops ++ ops') := by
  refine ⟨fun before hbefore b => ?_, fun b => ?_⟩
  · rcases List.prefix_or_prefix_of_prefix hbefore (List.prefix_append ops ops') with hshort | hlong
    · exact h.behind before hshort b
    · obtain ⟨more, rfl⟩ := hlong
      have hmore := h'.behind more ((List.prefix_append_right_inj ops).1 hbefore) b
      have hall := h.released b
      rw [List.count_append, List.count_append]
      omega
  · rw [List.count_append, List.count_append, h.released, h'.released]

/-- The acquires of some resources, then releases. -/
def acquireAll (acquired released : List β) : List (Op β) := acquired.map .acquire ++ released.map .release

theorem count_acquires (b : β) (acquired : List β) : (acquired.map Op.acquire).count (.acquire b) = acquired.count b :=
  List.count_map_of_injective _ _ (fun _ _ h => Op.acquire.inj h) b

theorem count_releases (b : β) (released : List β) : (released.map Op.release).count (.release b) = released.count b :=
  List.count_map_of_injective _ _ (fun _ _ h => Op.release.inj h) b

theorem no_releases (b : β) (acquired : List β) : (acquired.map Op.acquire).count (.release b) = 0 := by
  refine List.count_eq_zero.2 fun hmem => ?_
  obtain ⟨c, -, hc⟩ := List.mem_map.1 hmem
  cases hc

theorem no_acquires (b : β) (released : List β) : (released.map Op.release).count (.acquire b) = 0 := by
  refine List.count_eq_zero.2 fun hmem => ?_
  obtain ⟨c, -, hc⟩ := List.mem_map.1 hmem
  cases hc

/-- What is released is what was acquired, in some order. -/
theorem matched_iff_perm (acquired released : List β) :
    Matched (acquireAll acquired released) ↔ acquired.Perm released := by
  have hacquires : ∀ b, (acquireAll acquired released).count (.acquire b) = acquired.count b := fun b => by
    rw [acquireAll, List.count_append, count_acquires, no_acquires, Nat.add_zero]
  have hreleases : ∀ b, (acquireAll acquired released).count (.release b) = released.count b := fun b => by
    rw [acquireAll, List.count_append, count_releases, no_releases, Nat.zero_add]
  rw [List.perm_iff_count]
  constructor
  · intro h b
    rw [← hacquires, h.released, hreleases]
  · intro h
    refine ⟨fun before hbefore b => ?_, fun b => by rw [hacquires, hreleases, h]⟩
    rcases List.prefix_or_prefix_of_prefix hbefore (List.prefix_append ..) with hshort | hlong
    · -- nothing is released so far
      have hnone := hshort.sublist.count_le (.release b)
      rw [no_releases] at hnone
      omega
    · -- everything is acquired by now
      have hall := hlong.sublist.count_le (.acquire b)
      have hsome := hbefore.sublist.count_le (.release b)
      rw [count_acquires] at hall
      rw [hreleases, ← h] at hsome
      exact hsome.trans hall

theorem matched_self (resources : List β) : Matched (acquireAll resources resources) :=
  (matched_iff_perm _ _).2 (.refl _)

/-- All are released, but only some were acquired. -/
theorem matched_some_acquired (p : β → Bool) (resources : List β) :
    Matched (acquireAll (resources.filter p) resources) ↔ ∀ b ∈ resources, p b = true := by
  have h := filter_perm_iff id p resources
  rwa [List.map_id, List.map_id, ← matched_iff_perm] at h

/-- All were acquired, but only some are released, in any order. -/
theorem matched_some_released {α : Type} (f : α → β) (p : α → Bool) {as released : List α}
    (h : released.Perm (as.filter p)) :
    Matched (acquireAll (as.map f) (released.map f)) ↔ ∀ a ∈ as, p a = true := by
  rw [matched_iff_perm, ← filter_perm_iff f p, List.perm_comm]
  exact ⟨fun hall => (h.map f).symm.trans hall, fun hall => (h.map f).trans hall⟩

/-! ## Counting -/

/-- How often a resource is acquired and not released again, `n` times to begin with; nothing when it is released more
often than it was acquired. -/
def outstanding (b : β) (n : Nat) : List (Op β) → Option Nat
  | [] => some n
  | .acquire c :: ops => outstanding b (if c = b then n + 1 else n) ops
  | .release c :: ops =>
    if c = b then if n = 0 then none else outstanding b (n - 1) ops else outstanding b n ops

theorem outstanding_append (b : β) (n : Nat) (ops ops' : List (Op β)) :
    outstanding b n (ops ++ ops') = (outstanding b n ops).bind (outstanding b · ops') := by
  induction ops generalizing n with
  | nil => rfl
  | cons op ops ih =>
    cases op with
    | acquire c => exact ih _
    | release c =>
      simp only [List.cons_append, outstanding]
      split
      · split
        · rfl
        · exact ih _
      · exact ih n

/-- What was there to begin with stays there. -/
theorem outstanding_add (b : β) {n m : Nat} {ops : List (Op β)} (h : outstanding b n ops = some m) (k : Nat) :
    outstanding b (k + n) ops = some (k + m) := by
  induction ops generalizing n with
  | nil => cases h; rfl
  | cons op ops ih =>
    cases op with
    | acquire c =>
      simp only [outstanding] at h ⊢
      split
      · rename_i hc; rw [if_pos hc] at h; exact ih h
      · rename_i hc; rw [if_neg hc] at h; exact ih h
    | release c =>
      simp only [outstanding] at h ⊢
      split
      · rename_i hc
        rw [if_pos hc] at h
        split at h
        · cases h
        · rw [if_neg (by omega), Nat.add_sub_assoc (by omega)]
          exact ih h
      · rename_i hc; rw [if_neg hc] at h; exact ih h

end Pairing
