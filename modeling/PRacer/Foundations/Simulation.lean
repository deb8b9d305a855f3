import Mathlib.Logic.Basic

/-
  Computations that may fail, one of which succeeds whenever
  the other does.

  Main declarations:
    * `Simulates`
    * `Simulates.bind`, `Simulates.ite`
-/

------------------------------------------------------------
-- Simulation
------------------------------------------------------------

namespace PRacer

namespace Foundations

universe u v w

variable {ε : Type w} {α α' : Type u} {β β' : Type v}

/- Whenever `x` has a result, `y` has a related one. -/
def Simulates
    (R : α → β → Prop)
    (x : Except ε α) (y : Except ε β) : Prop :=
  ∀ a, x = Except.ok a → ∃ b, y = Except.ok b ∧ R a b

namespace Simulates

variable {R : α → β → Prop} {S : α' → β' → Prop}
variable {x : Except ε α} {y : Except ε β}

theorem ok
    {a : α} {b : β}
    (h : R a b) :
    Simulates R (Except.ok a : Except ε α)
      (Except.ok b : Except ε β) := by
  intro c hc
  cases hc
  exact ⟨b, rfl, h⟩

theorem refl (x : Except ε α) : Simulates Eq x x := by
  intro a ha
  exact ⟨a, ha, rfl⟩

/- A failure has no result. -/
theorem error (e : ε) (y : Except ε β) :
    Simulates R (Except.error e) y := by
  intro a ha
  cases ha

/- One step after the other. -/
theorem bind
    {f : α → Except ε α'} {g : β → Except ε β'}
    (h : Simulates R x y)
    (hRest : ∀ a b, R a b → Simulates S (f a) (g b)) :
    Simulates S (x >>= f) (y >>= g) := by
  intro c hc
  cases x with
  | error e => cases hc
  | ok a =>
      rcases h a rfl with ⟨b, rfl, hR⟩
      exact hRest a b hR c hc

/- A choice that both make in the same way. -/
theorem ite
    {p q : Prop} [Decidable p] [Decidable q]
    {x' : Except ε α} {y' : Except ε β}
    (hIff : p ↔ q)
    (hThen : p → Simulates R x y)
    (hElse : ¬ p → Simulates R x' y') :
    Simulates R (if p then x else x')
      (if q then y else y') := by
  by_cases hp : p
  · rw [if_pos hp, if_pos (hIff.mp hp)]
    exact hThen hp
  · rw [if_neg hp, if_neg (fun hq => hp (hIff.mpr hq))]
    exact hElse hp

end Simulates

end Foundations

end PRacer
