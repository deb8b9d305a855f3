import Mathlib.Data.List.Nodup
import Mathlib.Logic.Function.Basic
import Mathlib.Tactic.Common

/-
  Items that workers flag, record in a list and hand over
  together.

  A worker that finds the flag of an item down raises it and
  holds the item until it has put it into the list.  The
  holder of the whole list then lowers all flags at once.

  Main declarations:
    * `Booked`
    * `Booked.claim`, `Booked.record`, `Booked.hand_over`
-/

------------------------------------------------------------
-- Flags and Records
------------------------------------------------------------

namespace PRacer

namespace Foundations

/-
  The flag of a live item is up exactly while the item is in
  the list or in the hand of a worker, and it is there once.
-/
structure Booked
    {Item Worker : Type*}
    (live flag : Item → Prop) (listed : List Item)
    (hand : Worker → Option Item) : Prop where
  nodup : listed.Nodup
  liveListed : ∀ k ∈ listed, live k
  liveHeld : ∀ w k, hand w = some k → live k
  flagged : ∀ k, live k →
    (flag k ↔ k ∈ listed ∨ ∃ w, hand w = some k)
  unlisted : ∀ w k, hand w = some k → k ∉ listed
  single : ∀ v w k, hand v = some k → hand w = some k → v = w

namespace Booked

variable {Item Worker : Type*}
variable {live live' flag flag' : Item → Prop}
variable {listed : List Item}
variable {hand hand' : Worker → Option Item}

/- Nothing is flagged, listed or held. -/
theorem empty
    (hFlag : ∀ k, live k → ¬ flag k)
    (hHand : ∀ w, hand w = none) :
    Booked live flag [] hand where
  nodup := List.nodup_nil
  liveListed := by
    intro k hk
    cases hk
  liveHeld := by
    intro w k hk
    rw [hHand] at hk
    cases hk
  flagged := by
    intro k hk
    constructor
    · intro hUp
      exact absurd hUp (hFlag k hk)
    · rintro (hMem | ⟨w, hw⟩)
      · cases hMem
      · rw [hHand] at hw
        cases hw
  unlisted := by
    intro w k hk
    rw [hHand] at hk
    cases hk
  single := by
    intro v w k hv
    rw [hHand] at hv
    cases hv

/- Nothing that matters changes. -/
theorem congr
    (h : Booked live flag listed hand)
    (hLive : ∀ k, live' k ↔ live k)
    (hFlag : ∀ k, live k → (flag' k ↔ flag k))
    (hHand : ∀ w, hand' w = hand w) :
    Booked live' flag' listed hand' where
  nodup := h.nodup
  liveListed := by
    intro k hk
    exact (hLive k).mpr (h.liveListed k hk)
  liveHeld := by
    intro w k hk
    rw [hHand] at hk
    exact (hLive k).mpr (h.liveHeld w k hk)
  flagged := by
    intro k hk
    have hOld := (hLive k).mp hk
    rw [hFlag k hOld, h.flagged k hOld]
    simp only [hHand]
  unlisted := by
    intro w k hk
    rw [hHand] at hk
    exact h.unlisted w k hk
  single := by
    intro v w k hv hw
    rw [hHand] at hv hw
    exact h.single v w k hv hw

/- A worker raises the flag of an item and holds it. -/
theorem claim
    {w : Worker} {k : Item}
    (h : Booked live flag listed hand)
    (hLive : live k)
    (hDown : ¬ flag k)
    (hEmpty : hand w = none)
    (hFlag : ∀ j, live j → (flag' j ↔ flag j ∨ j = k))
    (hTake : hand' w = some k)
    (hOthers : ∀ v, v ≠ w → hand' v = hand v) :
    Booked live flag' listed hand' := by
  have hNot := hDown
  rw [h.flagged k hLive, not_or, not_exists] at hNot
  rcases hNot with ⟨hListed, hHeld⟩
  have hOld : ∀ v j, hand' v = some j →
      (v = w ∧ j = k) ∨ (v ≠ w ∧ hand v = some j) := by
    intro v j hv
    by_cases hvw : v = w
    · rw [hvw, hTake] at hv
      exact Or.inl ⟨hvw, (Option.some.inj hv).symm⟩
    · rw [hOthers v hvw] at hv
      exact Or.inr ⟨hvw, hv⟩
  refine ⟨h.nodup, h.liveListed, ?_, ?_, ?_, ?_⟩
  · intro v j hv
    rcases hOld v j hv with ⟨-, rfl⟩ | ⟨-, hv⟩
    · exact hLive
    · exact h.liveHeld v j hv
  · intro j hj
    rw [hFlag j hj, h.flagged j hj, or_assoc]
    apply or_congr_right
    constructor
    · rintro (⟨v, hv⟩ | rfl)
      · refine ⟨v, (hOthers v ?_).trans hv⟩
        rintro rfl
        rw [hEmpty] at hv
        cases hv
      · exact ⟨w, hTake⟩
    · rintro ⟨v, hv⟩
      rcases hOld v j hv with ⟨-, rfl⟩ | ⟨-, hv⟩
      · exact Or.inr rfl
      · exact Or.inl ⟨v, hv⟩
  · intro v j hv
    rcases hOld v j hv with ⟨-, rfl⟩ | ⟨-, hv⟩
    · exact hListed
    · exact h.unlisted v j hv
  · intro u v j hu hv
    rcases hOld u j hu with ⟨rfl, rfl⟩ | ⟨-, hu⟩
    · rcases hOld v j hv with ⟨rfl, -⟩ | ⟨-, hv⟩
      · rfl
      · exact absurd hv (hHeld v)
    · rcases hOld v j hv with ⟨-, rfl⟩ | ⟨-, hv⟩
      · exact absurd hu (hHeld u)
      · exact h.single u v j hu hv

/- A worker puts the item it holds into the list. -/
theorem record
    {w : Worker} {k : Item}
    (h : Booked live flag listed hand)
    (hHeld : hand w = some k)
    (hDrop : hand' w = none)
    (hOthers : ∀ v, v ≠ w → hand' v = hand v) :
    Booked live flag (listed ++ [k]) hand' := by
  have hFresh := h.unlisted w k hHeld
  have hOld : ∀ v j, hand' v = some j →
      hand v = some j ∧ j ≠ k := by
    intro v j hv
    have hvw : v ≠ w := by
      rintro rfl
      rw [hDrop] at hv
      cases hv
    rw [hOthers v hvw] at hv
    refine ⟨hv, ?_⟩
    rintro rfl
    exact hvw (h.single v w j hv hHeld)
  refine ⟨?_, ?_, ?_, ?_, ?_, ?_⟩
  · rw [← List.concat_eq_append]
    exact h.nodup.concat hFresh
  · intro j hj
    rw [List.mem_append, List.mem_singleton] at hj
    rcases hj with hj | rfl
    · exact h.liveListed j hj
    · exact h.liveHeld w j hHeld
  · intro v j hv
    exact h.liveHeld v j (hOld v j hv).1
  · intro j hj
    rw [h.flagged j hj, List.mem_append,
      List.mem_singleton, or_assoc]
    apply or_congr_right
    constructor
    · rintro ⟨v, hv⟩
      by_cases hvw : v = w
      · rw [hvw, hHeld] at hv
        exact Or.inl (Option.some.inj hv).symm
      · exact Or.inr ⟨v, (hOthers v hvw).trans hv⟩
    · rintro (rfl | ⟨v, hv⟩)
      · exact ⟨w, hHeld⟩
      · exact ⟨v, (hOld v j hv).1⟩
  · intro v j hv
    rw [List.mem_append, List.mem_singleton, not_or]
    exact ⟨h.unlisted v j (hOld v j hv).1, (hOld v j hv).2⟩
  · intro u v j hu hv
    exact h.single u v j (hOld u j hu).1 (hOld v j hv).1

/-
  The list is handed over while no worker holds an item.
  Items whose flag is still up afterwards were live before,
  flagged and not listed: there are none.
-/
theorem hand_over
    (h : Booked live flag listed hand)
    (hHand : ∀ w, hand w = none)
    (hKept : ∀ k, live' k → flag' k →
      live k ∧ flag k ∧ k ∉ listed) :
    ∀ k, live' k → ¬ flag' k := by
  intro k hLive hFlag
  rcases hKept k hLive hFlag with ⟨hOld, hUp, hNot⟩
  rw [h.flagged k hOld] at hUp
  rcases hUp with hMem | ⟨w, hw⟩
  · exact hNot hMem
  · rw [hHand] at hw
    cases hw

end Booked

end Foundations

end PRacer
