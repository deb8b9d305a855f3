import Mathlib.Order.Basic
import Mathlib.Tactic.Common

/-
  A number that several threads raise by compare-and-swap.

  A thread tries until the number that it saw last is not
  below its target.

  Main declarations:
    * `Raise`, `Raise.swap`
    * `Raise.left_swap_lt`, `Raise.left_mono`
    * `Raise.max_swap`
-/

------------------------------------------------------------
-- Raising a Shared Number
------------------------------------------------------------

namespace PRacer

namespace Foundations

/- What a thread saw last, and what it raises the number to. -/
structure Raise where
  old : Nat
  target : Nat
deriving DecidableEq, Repr

namespace Raise

variable (r : Raise)

/- Whether the thread tries once more. -/
def Open : Prop := r.old < r.target

instance : Decidable r.Open :=
  inferInstanceAs (Decidable (_ < _))

/- One compare-and-swap, which returns what it found. -/
def swap (shared : Nat) : Nat × Raise :=
  (if shared = r.old then r.target else shared,
    { r with old := shared })

/- A bound on the number of times that the thread tries. -/
def left (shared : Nat) : Nat :=
  2 * (r.target - r.old) + if shared = r.old then 1 else 0

theorem left_le (shared : Nat) :
    r.left shared ≤ 2 * (r.target - r.old) + 1 := by
  unfold left
  split
  · omega
  · omega

variable {r : Raise} {shared shared' : Nat}

@[simp] theorem swap_old :
    (r.swap shared).2.old = shared := rfl

@[simp] theorem swap_target :
    (r.swap shared).2.target = r.target := rfl

/- The number is never lowered. -/
theorem le_swap
    (hOpen : r.Open) :
    shared ≤ (r.swap shared).1 := by
  unfold Open at hOpen
  unfold swap
  dsimp only
  split
  · omega
  · omega

/- The target is still to come, or has been reached. -/
theorem max_swap
    (hOpen : r.Open) :
    max (r.swap shared).1 r.target = max shared r.target := by
  unfold Open at hOpen
  unfold swap
  dsimp only
  split
  · omega
  · omega

/- Each attempt brings the end closer. -/
theorem left_swap_lt
    (hOpen : r.Open)
    (hOld : r.old ≤ shared) :
    (r.swap shared).2.left (r.swap shared).1 <
      r.left shared := by
  unfold Open at hOpen
  unfold left swap
  dsimp only
  by_cases hSame : shared = r.old
  · rw [if_pos hSame, if_pos hSame, if_neg (by omega)]
    omega
  · rw [if_neg hSame, if_neg hSame, if_pos rfl]
    omega

/- What other threads do makes the end no more distant. -/
theorem left_mono
    (hOld : r.old ≤ shared)
    (hLe : shared ≤ shared') :
    r.left shared' ≤ r.left shared := by
  unfold left
  by_cases hSame : shared' = r.old
  · have hBefore : shared = r.old := by omega
    exact Nat.le_of_eq (by rw [if_pos hSame, if_pos hBefore])
  · rw [if_neg hSame]
    omega

end Raise

end Foundations

end PRacer
