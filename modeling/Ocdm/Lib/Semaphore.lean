/-
Semaphores of a library that is not at hand: what the programs over them rely on. A semaphore has a value;
`wait` blocks its caller at zero, and takes it from one to zero; `post` takes it from zero to one. What they
do at larger values is left open, so that a counting semaphore will do and a binary one.
-/
import Mathlib.Tactic.Common

/-- A semaphore: `wait` is not enabled when its caller blocks. -/
class Semaphore (Q : Type) where
  create : Bool → Q
  wait : Q → Option Q
  post : Q → Q
  value : Q → Nat
  value_create : ∀ set, value (create set) = if set then 1 else 0
  wait_blocks : ∀ q, value q = 0 → wait q = none
  wait_takes : ∀ q, value q = 1 → ∃ q', wait q = some q' ∧ value q' = 0
  post_gives : ∀ q, value q = 0 → value (post q) = 1

namespace Semaphore

/-- A counting semaphore. -/
instance : Semaphore Nat where
  create set := if set then 1 else 0
  wait n := if n > 0 then some (n - 1) else none
  post n := n + 1
  value n := n
  value_create _ := rfl
  wait_blocks n h := if_neg (by omega)
  wait_takes n h := ⟨0, by rw [h]; rfl, rfl⟩
  post_gives n h := congrArg (· + 1) h

variable {Q : Type} [Semaphore Q] {q q' : Q}

/-- Who gets it at one leaves it at zero. -/
theorem value_wait (hvalue : value q = 1) (h : wait q = some q') : value q' = 0 := by
  obtain ⟨q₁, hwait, hzero⟩ := wait_takes q hvalue
  cases h.symm.trans hwait
  exact hzero

/-- Nobody gets it at zero. -/
theorem not_wait (hvalue : value q = 0) : wait q ≠ some q' := by
  rw [wait_blocks q hvalue]
  intro h
  cases h

end Semaphore
