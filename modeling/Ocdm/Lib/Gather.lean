/-
Gathering ranges of a list into a block, and scattering a block back over them. A range is given by what is skipped in
front of it and by its size, each counted from the end of the one before (`start`). Gathering is the ranges in a row
(`gather_eq`), scattering replaces each range by its part of the block and nothing else (`scatter_replaced`), and two
loops that copy range by range at running offsets do just that (`gatherFrom_eq`, `scatterFrom_eq`).
-/
import Mathlib.Algebra.GroupWithZero.Nat
import Mathlib.Data.List.Basic
import Mathlib.Tactic.Common

namespace Gather

variable {α : Type}

/-! ## Ranges -/

/-- All that the ranges cover, with what is skipped. -/
def extent (rs : List (Nat × Nat)) : Nat := (rs.map fun r => r.1 + r.2).sum

/-- All bytes of the ranges. -/
def size (rs : List (Nat × Nat)) : Nat := (rs.map Prod.snd).sum

/-- Where range `i` starts. -/
def start (rs : List (Nat × Nat)) (i : Nat) : Nat := extent (rs.take i) + (rs.getD i (0, 0)).1

@[simp] theorem extent_nil : extent [] = 0 := rfl

@[simp] theorem extent_cons (r : Nat × Nat) (rs : List (Nat × Nat)) : extent (r :: rs) = r.1 + r.2 + extent rs := by
  simp [extent]

@[simp] theorem size_nil : size [] = 0 := rfl

@[simp] theorem size_cons (r : Nat × Nat) (rs : List (Nat × Nat)) : size (r :: rs) = r.2 + size rs := by simp [size]

@[simp] theorem start_zero (r : Nat × Nat) (rs : List (Nat × Nat)) : start (r :: rs) 0 = r.1 := by simp [start]

@[simp] theorem start_succ (r : Nat × Nat) (rs : List (Nat × Nat)) (i : Nat) :
    start (r :: rs) (i + 1) = r.1 + r.2 + start rs i := by simp [start, Nat.add_assoc]

theorem size_le_extent (rs : List (Nat × Nat)) : size rs ≤ extent rs := by
  induction rs with
  | nil => exact Nat.le_refl _
  | cons r rs ih =>
    rw [size_cons, extent_cons]
    omega

/-! ## Gathering and scattering -/

/-- The ranges of `data` one behind the other. -/
def gather : List (Nat × Nat) → List α → List α
  | [], _ => []
  | r :: rs, data => (data.drop r.1).take r.2 ++ gather rs (data.drop (r.1 + r.2))

/-- `data` with its ranges taken from `block` instead. -/
def scatter : List (Nat × Nat) → List α → List α → List α
  | [], _, data => data
  | r :: rs, block, data => data.take r.1 ++ block.take r.2 ++ scatter rs (block.drop r.2) (data.drop (r.1 + r.2))

theorem gather_length {rs : List (Nat × Nat)} {data : List α} (h : extent rs ≤ data.length) :
    (gather rs data).length = size rs := by
  induction rs generalizing data with
  | nil => rfl
  | cons r rs ih =>
    rw [extent_cons] at h
    rw [gather, List.length_append, List.length_take, List.length_drop, ih (by rw [List.length_drop]; omega), size_cons]
    omega

theorem scatter_length {rs : List (Nat × Nat)} {block data : List α} (h : extent rs ≤ data.length)
    (hb : block.length = size rs) : (scatter rs block data).length = data.length := by
  induction rs generalizing block data with
  | nil => rfl
  | cons r rs ih =>
    rw [extent_cons] at h
    rw [size_cons] at hb
    rw [scatter, List.length_append, List.length_append, List.length_take, List.length_take,
      ih (by rw [List.length_drop]; omega) (by rw [List.length_drop]; omega), List.length_drop]
    omega

/-- Gathering gives the ranges in order. -/
theorem gather_eq (rs : List (Nat × Nat)) (data : List α) : gather rs data =
    (List.range rs.length).flatMap fun i => (data.drop (start rs i)).take (rs.getD i (0, 0)).2 := by
  induction rs generalizing data with
  | nil => rfl
  | cons r rs ih =>
    rw [gather, ih, List.length_cons, List.range_succ_eq_map, List.flatMap_cons, List.flatMap_map]
    simp only [start_zero, start_succ, List.drop_drop, List.getD_cons_zero, List.getD_cons_succ]

/-- `after` is `data` with range `i` replaced by part `i` of the block. -/
structure Replaced (rs : List (Nat × Nat)) (block data after : List α) : Prop where
  length : after.length = data.length
  range : ∀ i < rs.length, (after.drop (start rs i)).take (rs.getD i (0, 0)).2 =
    (block.drop (size (rs.take i))).take (rs.getD i (0, 0)).2
  other : ∀ p, (∀ i < rs.length, ¬ (start rs i ≤ p ∧ p < start rs i + (rs.getD i (0, 0)).2)) → after[p]? = data[p]?

theorem scatter_range {rs : List (Nat × Nat)} {block data : List α} (h : extent rs ≤ data.length)
    (hb : block.length = size rs) {i : Nat} (hi : i < rs.length) :
    ((scatter rs block data).drop (start rs i)).take (rs.getD i (0, 0)).2 =
      (block.drop (size (rs.take i))).take (rs.getD i (0, 0)).2 := by
  induction rs generalizing block data i with
  | nil => exact absurd hi (Nat.not_lt_zero i)
  | cons r rs ih =>
    rw [extent_cons] at h
    rw [size_cons] at hb
    have hskip : (data.take r.1).length = r.1 := by
      rw [List.length_take]
      omega
    have htaken : (block.take r.2).length = r.2 := by
      rw [List.length_take]
      omega
    rw [scatter]
    cases i with
    | zero =>
      rw [start_zero, List.getD_cons_zero, List.append_assoc, List.drop_left' hskip, List.take_left' htaken]
      rfl
    | succ i =>
      have hfront : (data.take r.1 ++ block.take r.2).length = r.1 + r.2 := by rw [List.length_append, hskip, htaken]
      rw [start_succ, List.getD_cons_succ, ← List.drop_drop, List.drop_left' hfront,
        ih (by rw [List.length_drop]; omega) (by rw [List.length_drop]; omega) (Nat.lt_of_succ_lt_succ hi),
        List.drop_drop, List.take_succ_cons, size_cons]

theorem scatter_other {rs : List (Nat × Nat)} {block data : List α} (h : extent rs ≤ data.length)
    (hb : block.length = size rs) {p : Nat}
    (hp : ∀ i < rs.length, ¬ (start rs i ≤ p ∧ p < start rs i + (rs.getD i (0, 0)).2)) :
    (scatter rs block data)[p]? = data[p]? := by
  induction rs generalizing block data p with
  | nil => rfl
  | cons r rs ih =>
    rw [extent_cons] at h
    rw [size_cons] at hb
    have hskip : (data.take r.1).length = r.1 := by
      rw [List.length_take]
      omega
    have htaken : (block.take r.2).length = r.2 := by
      rw [List.length_take]
      omega
    have hfront : (data.take r.1 ++ block.take r.2).length = r.1 + r.2 := by rw [List.length_append, hskip, htaken]
    rw [scatter]
    by_cases hfirst : p < r.1
    · rw [List.append_assoc, List.getElem?_append_left (by omega), List.getElem?_take_of_lt hfirst]
    · have hzero := hp 0 (Nat.zero_lt_succ _)
      rw [start_zero, List.getD_cons_zero] at hzero
      rw [List.getElem?_append_right (by omega), hfront,
        ih (by rw [List.length_drop]; omega) (by rw [List.length_drop]; omega) fun i hi hin => ?_,
        List.getElem?_drop, Nat.add_sub_cancel' (by omega)]
      refine hp (i + 1) (Nat.succ_lt_succ hi) ?_
      rw [start_succ, List.getD_cons_succ]
      omega

/-- Scattering replaces the ranges, and nothing else. -/
theorem scatter_replaced {rs : List (Nat × Nat)} {block data : List α} (h : extent rs ≤ data.length)
    (hb : block.length = size rs) : Replaced rs block data (scatter rs block data) :=
  ⟨scatter_length h hb, fun _ hi => scatter_range h hb hi, fun _ hp => scatter_other h hb hp⟩

/-- There is one way to replace the ranges. -/
theorem Replaced.unique {rs : List (Nat × Nat)} {block data after after' : List α} (h : Replaced rs block data after)
    (h' : Replaced rs block data after') : after = after' := by
  refine List.ext_getElem? fun p => ?_
  by_cases hp : ∃ i < rs.length, start rs i ≤ p ∧ p < start rs i + (rs.getD i (0, 0)).2
  · obtain ⟨i, hi, hstart, hend⟩ := hp
    have hrange := congrArg (fun l => l[p - start rs i]?) ((h.range i hi).trans (h'.range i hi).symm)
    rwa [List.getElem?_take_of_lt (by omega), List.getElem?_take_of_lt (by omega), List.getElem?_drop,
      List.getElem?_drop, Nat.add_sub_cancel' hstart] at hrange
  · have hout : ∀ i < rs.length, ¬ (start rs i ≤ p ∧ p < start rs i + (rs.getD i (0, 0)).2) :=
      fun i hi hin => hp ⟨i, hi, hin⟩
    exact (h.other p hout).trans (h'.other p hout).symm

/-- `dst` with `bytes` at `offset`. -/
def splice (dst : List α) (offset : Nat) (bytes : List α) : List α :=
  dst.take offset ++ bytes ++ dst.drop (offset + bytes.length)

theorem splice_append (done rest bytes : List α) :
    splice (done ++ rest) done.length bytes = done ++ bytes ++ rest.drop bytes.length := by
  rw [splice, List.take_left, List.drop_append, List.drop_eq_nil_of_le (Nat.le_add_right _ _), List.nil_append,
    Nat.add_sub_cancel_left]

theorem splice_whole {dst bytes : List α} (h : dst.length = bytes.length) : splice dst 0 bytes = bytes := by
  rw [splice, List.take_zero, List.nil_append, Nat.zero_add, ← h, List.drop_length, List.append_nil]

/-- The loop that gathers: at `index` of the data, and at `iter` of the block. -/
def gatherFrom (data : List α) : List (Nat × Nat) → Nat → Nat → List α → List α
  | [], _, _, block => block
  | r :: rs, index, iter, block =>
    gatherFrom data rs (index + (r.1 + r.2)) (iter + r.2) (splice block iter ((data.drop (index + r.1)).take r.2))

/-- The loop that scatters: at `total` of the data, and at `index` of the block. -/
def scatterFrom (block : List α) : List (Nat × Nat) → Nat → Nat → List α → List α
  | [], _, _, data => data
  | r :: rs, total, index, data =>
    scatterFrom block rs (total + (r.1 + r.2)) (index + r.2)
      (splice data (total + r.1) ((block.drop index).take r.2))

/-- Behind what is done, the block gets the ranges of the data that is left. -/
theorem gatherFrom_eq {data : List α} {rs : List (Nat × Nat)} {index : Nat} (h : index + extent rs ≤ data.length)
    (done rest : List α) : gatherFrom data rs index done.length (done ++ rest) =
      done ++ gather rs (data.drop index) ++ rest.drop (size rs) := by
  induction rs generalizing index done rest with
  | nil => simp [gatherFrom, gather]
  | cons r rs ih =>
    rw [extent_cons] at h
    have hbytes : ((data.drop (index + r.1)).take r.2).length = r.2 := by
      rw [List.length_take, List.length_drop]
      omega
    have hdone : done.length + r.2 = (done ++ (data.drop (index + r.1)).take r.2).length := by
      rw [List.length_append, hbytes]
    rw [gatherFrom, splice_append, hbytes, hdone, ih (by omega), gather, List.drop_drop, List.drop_drop, List.drop_drop,
      size_cons]
    simp only [List.append_assoc]

/-- Behind what is done, the data gets its ranges from the block that is left. -/
theorem scatterFrom_eq {block : List α} {rs : List (Nat × Nat)} {index : Nat} (hb : index + size rs ≤ block.length)
    (done : List α) {rest : List α} (h : extent rs ≤ rest.length) :
    scatterFrom block rs done.length index (done ++ rest) = done ++ scatter rs (block.drop index) rest := by
  induction rs generalizing index done rest with
  | nil => simp [scatterFrom, scatter]
  | cons r rs ih =>
    rw [extent_cons] at h
    rw [size_cons] at hb
    have hskip : (done ++ rest.take r.1).length = done.length + r.1 := by
      rw [List.length_append, List.length_take]
      omega
    have hbytes : ((block.drop index).take r.2).length = r.2 := by
      rw [List.length_take, List.length_drop]
      omega
    have hsplit : done ++ rest = (done ++ rest.take r.1) ++ rest.drop r.1 := by
      rw [List.append_assoc, List.take_append_drop]
    have hdone : done.length + (r.1 + r.2) = (done ++ rest.take r.1 ++ (block.drop index).take r.2).length := by
      rw [List.length_append, hskip, hbytes, Nat.add_assoc]
    rw [scatterFrom, ← hskip, hsplit, splice_append, hbytes, hdone, ih (by omega) _ (by
      rw [List.length_drop, List.length_drop]
      omega), scatter, List.drop_drop, List.drop_drop]
    simp only [List.append_assoc]

end Gather
