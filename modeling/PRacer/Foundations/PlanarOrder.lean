import Mathlib.Order.Lattice

/-
  Two-dimensional partial orders.

  A point of `α × β` carries its place in two total orders.
  One point is before another when both orders agree on it,
  and the two are parallel when the orders disagree.

  Main declarations:
    * `Planar.Before`, `Planar.Below`, `Planar.Parallel`
    * `Planar.Generic`
    * `Planar.Generic.cases`
    * `Planar.Parallel.of_snd_le`, `Planar.Parallel.of_fst_le`
    * `Planar.Parallel.of_below`
-/

------------------------------------------------------------
-- Points in Two Total Orders
------------------------------------------------------------

namespace PRacer

namespace Foundations

namespace Planar

variable {α β : Type*} [LinearOrder α] [LinearOrder β]
variable {p q r : α × β}

/- Both orders put the first point before the second. -/
def Before (p q : α × β) : Prop :=
  p.1 < q.1 ∧ p.2 < q.2

/- The two orders disagree on the points. -/
def Parallel (p q : α × β) : Prop :=
  (p.1 < q.1 ∧ q.2 < p.2) ∨ (q.1 < p.1 ∧ p.2 < q.2)

/- Points that agree in one order agree in the other. -/
def Generic (p q : α × β) : Prop :=
  p.1 = q.1 ↔ p.2 = q.2

/- The first point is the second or before it. -/
def Below (p q : α × β) : Prop :=
  p = q ∨ Before p q

instance : Decidable (Before p q) :=
  inferInstanceAs (Decidable (_ ∧ _))

instance : Decidable (Parallel p q) :=
  inferInstanceAs (Decidable (_ ∨ _))

instance : Decidable (Generic p q) :=
  inferInstanceAs (Decidable (_ ↔ _))

theorem Before.trans
    (hpq : Before p q) (hqr : Before q r) :
    Before p r :=
  ⟨hpq.1.trans hqr.1, hpq.2.trans hqr.2⟩

theorem Below.trans
    (hpq : Below p q) (hqr : Below q r) :
    Below p r := by
  rcases hpq with rfl | hpq
  · exact hqr
  · rcases hqr with rfl | hqr
    · exact Or.inr hpq
    · exact Or.inr (hpq.trans hqr)

theorem Parallel.symm (h : Parallel p q) : Parallel q p :=
  h.elim Or.inr Or.inl

theorem Parallel.irrefl : ¬ Parallel p p := by
  rintro (h | h)
  · exact lt_irrefl _ h.1
  · exact lt_irrefl _ h.1

theorem Parallel.not_before
    (h : Parallel p q) : ¬ Before p q := by
  rintro ⟨hFst, hSnd⟩
  rcases h with h | h
  · exact lt_asymm hSnd h.2
  · exact lt_asymm hFst h.1

------------------------------------------------------------
-- Case Analysis
------------------------------------------------------------

/-
  Generic points are equal, comparable in one of the two
  directions, or parallel.
-/
theorem Generic.cases
    (hGen : Generic p q) :
    p = q ∨ Before p q ∨ Before q p ∨ Parallel p q := by
  rcases lt_trichotomy p.1 q.1 with hFst | hFst | hFst
  · rcases lt_trichotomy p.2 q.2 with hSnd | hSnd | hSnd
    · exact Or.inr (Or.inl ⟨hFst, hSnd⟩)
    · exact absurd (hGen.mpr hSnd) hFst.ne
    · exact Or.inr (Or.inr (Or.inr (Or.inl ⟨hFst, hSnd⟩)))
  · exact Or.inl (Prod.ext hFst (hGen.mp hFst))
  · rcases lt_trichotomy p.2 q.2 with hSnd | hSnd | hSnd
    · exact Or.inr (Or.inr (Or.inr (Or.inr ⟨hFst, hSnd⟩)))
    · exact absurd (hGen.mpr hSnd) hFst.ne'
    · exact Or.inr (Or.inr (Or.inl ⟨hFst, hSnd⟩))

/- Generic points are parallel exactly when the orders differ. -/
theorem Generic.parallel_iff
    (hGen : Generic p q) :
    Parallel p q ↔ ¬ (p.1 < q.1 ↔ p.2 < q.2) := by
  rcases hGen.cases with rfl | h | h | h
  · simp [Parallel]
  · have := h.1
    have := h.2
    simp_all [Parallel, not_lt_of_gt]
  · have := h.1
    have := h.2
    simp_all [Parallel, not_lt_of_gt]
  · refine iff_of_true h ?_
    rcases h with h | h
    · have := h.1
      have := h.2
      simp_all [not_lt_of_gt]
    · have := h.1
      have := h.2
      simp_all [not_lt_of_gt]

/- Points at or below each other are not parallel. -/
theorem Below.not_parallel
    (h : Below p q) : ¬ Parallel p q := by
  rcases h with rfl | h
  · exact Parallel.irrefl
  · exact fun hPar => hPar.not_before h

/-
  A point that is not after a generic point and not parallel
  to it is at or below it.
-/
theorem Generic.below
    (hGen : Generic p q)
    (hNot : ¬ Before q p)
    (hPar : ¬ Parallel p q) :
    Below p q := by
  rcases hGen.cases with h | h | h | h
  · exact Or.inl h
  · exact Or.inr h
  · exact absurd h hNot
  · exact absurd h hPar

------------------------------------------------------------
-- Extremal Points
------------------------------------------------------------

/-
  Raising the second coordinate of the left point keeps it
  parallel, unless the right point comes before it.
-/
theorem Parallel.of_snd_le
    (hGen : Generic q r)
    (hNot : ¬ Before r q)
    (hLt : r.2 < p.2)
    (hLe : p.2 ≤ q.2) :
    Parallel q r := by
  have hSnd : r.2 < q.2 := hLt.trans_le hLe
  rcases hGen.cases with rfl | h | h | h
  · exact absurd hSnd (lt_irrefl _)
  · exact absurd h.2 hSnd.asymm
  · exact absurd h hNot
  · exact h

/- The same in the first coordinate. -/
theorem Parallel.of_fst_le
    (hGen : Generic q r)
    (hNot : ¬ Before r q)
    (hLt : r.1 < p.1)
    (hLe : p.1 ≤ q.1) :
    Parallel q r := by
  have hFst : r.1 < q.1 := hLt.trans_le hLe
  rcases hGen.cases with rfl | h | h | h
  · exact absurd hFst (lt_irrefl _)
  · exact absurd h.1 hFst.asymm
  · exact absurd h hNot
  · exact h

/-
  A point above one of two parallel points, and not above
  the other, is parallel to the other.
-/
theorem Parallel.of_below
    (hPar : Parallel p r)
    (hGen : Generic q r)
    (hBelow : Below p q)
    (hNot : ¬ Before r q) :
    Parallel q r := by
  rcases hGen.cases with rfl | h | h | h
  · rcases hBelow with rfl | hBefore
    · exact hPar
    · exact absurd hBefore hPar.not_before
  · rcases hBelow with rfl | hBefore
    · exact absurd h hPar.not_before
    · exact absurd (hBefore.trans h) hPar.not_before
  · exact absurd h hNot
  · exact h

end Planar

end Foundations

end PRacer
