import Mathlib.Algebra.Group.Nat.Defs
import Mathlib.Data.Nat.ModEq
import Mathlib.Logic.Function.Basic
import Mathlib.Order.Lattice

/-
  Rings of slots.

  Items numbered from 0 go into the slots of a ring in turn.
  A slot is taken again only after all others have been, so
  the last items, as many as there are slots, are all there.

  Main declarations:
    * `SlotRing.put`, `SlotRing.get_put_of_recent`
    * `SlotRing.Holds`, `SlotRing.Holds.put`
-/

------------------------------------------------------------
-- Slots
------------------------------------------------------------

namespace PRacer

namespace Foundations

structure SlotRing (α : Type*) where
  size : Nat
  slots : Nat → Option α

namespace SlotRing

variable {α : Type*} {r : SlotRing α}

/- The slot of an item. -/
def get (r : SlotRing α) (i : Nat) : Option α :=
  r.slots (i % r.size)

/- Put an item into its slot, whatever is there. -/
def put (r : SlotRing α) (i : Nat) (a : α) : SlotRing α where
  size := r.size
  slots := Function.update r.slots (i % r.size) (some a)

@[simp] theorem size_put (i : Nat) (a : α) :
    (r.put i a).size = r.size :=
  rfl

/- Items less than a round apart have different slots. -/
theorem mod_ne
    {i k n : Nat}
    (hLt : i < k) (hRecent : k < i + n) :
    i % n ≠ k % n := by
  intro hEq
  have hDvd : n ∣ k - i :=
    (Nat.modEq_iff_dvd' hLt.le).mp hEq
  have hLe : n ≤ k - i :=
    Nat.le_of_dvd (Nat.sub_pos_of_lt hLt) hDvd
  omega

/- The slot of the next item. -/
theorem succ_mod
    {n : Nat}
    (hSize : 0 < n) (i : Nat) :
    (i + 1) % n = if i % n + 1 = n then 0 else i % n + 1 := by
  rw [← Nat.mod_add_mod]
  split
  · rename_i hLast
    rw [hLast, Nat.mod_self]
  · rename_i hLast
    have hLt : i % n < n := Nat.mod_lt i hSize
    exact Nat.mod_eq_of_lt (lt_of_le_of_ne hLt hLast)

theorem get_put_self (i : Nat) (a : α) :
    (r.put i a).get i = some a :=
  Function.update_self ..

theorem get_put_of_recent
    {i k : Nat} (a : α)
    (hLt : i < k) (hRecent : k < i + r.size) :
    (r.put k a).get i = r.get i :=
  Function.update_of_ne (mod_ne hLt hRecent) ..

------------------------------------------------------------
-- The Last Items
------------------------------------------------------------

/-
  Of the first `count` items the ring has those less than a
  round old, and the slots of the first round that no item
  has reached are empty.
-/
structure Holds
    (r : SlotRing α) (count : Nat) (item : Nat → α) :
    Prop where
  recent : ∀ i, i < count → count ≤ i + r.size →
    r.get i = some (item i)
  unused : ∀ i, count ≤ i → i < r.size → r.get i = none

theorem Holds.congr
    {count : Nat} {item item' : Nat → α}
    (hHolds : r.Holds count item)
    (hSame : ∀ i, i < count → item' i = item i) :
    r.Holds count item' where
  recent := by
    intro i hi hRecent
    rw [hSame i hi]
    exact hHolds.recent i hi hRecent
  unused := hHolds.unused

/- What the next item displaces. -/
theorem Holds.displaced
    {count : Nat} {item : Nat → α}
    (hSize : 0 < r.size)
    (hHolds : r.Holds count item) :
    r.get count =
      if count < r.size then none
      else some (item (count - r.size)) := by
  split
  · rename_i hFirst
    exact hHolds.unused count le_rfl hFirst
  · rename_i hLater
    have hRound : r.size ≤ count := not_lt.mp hLater
    have hOld := hHolds.recent (count - r.size)
      (Nat.sub_lt (hSize.trans_le hRound) hSize)
      (Nat.sub_add_cancel hRound).ge
    have hSlot : r.get count = r.get (count - r.size) := by
      unfold get
      rw [← Nat.mod_eq_sub_mod hRound]
    exact hSlot.trans hOld

/- The next item goes into the ring. -/
theorem Holds.put
    {count : Nat} {item : Nat → α}
    (hHolds : r.Holds count item) :
    (r.put count (item count)).Holds (count + 1) item where
  recent := by
    intro i hi hRecent
    rw [size_put] at hRecent
    rcases Nat.lt_succ_iff_lt_or_eq.mp hi with hOld | rfl
    · rw [get_put_of_recent _ hOld hRecent]
      exact hHolds.recent i hOld (Nat.le_of_succ_le hRecent)
    · exact get_put_self i (item i)
  unused := by
    intro i hi hRound
    rw [size_put] at hRound
    have hNe : i % r.size ≠ count % r.size :=
      (mod_ne hi (Nat.lt_add_left count hRound)).symm
    have hSame : (r.put count (item count)).get i =
        r.get i :=
      Function.update_of_ne hNe ..
    rw [hSame]
    exact hHolds.unused i (Nat.le_of_succ_le hi) hRound

end SlotRing

end Foundations

end PRacer
