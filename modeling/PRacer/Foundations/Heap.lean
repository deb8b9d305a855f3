import Mathlib.Data.Finset.Range
import Mathlib.Data.Finset.Card
import Mathlib.Data.Option.Basic
import Mathlib.Logic.Function.Basic
import Mathlib.Tactic.Common

/-
  Heaps of records of one type.

  A heap maps addresses to records.  It knows an address
  from which on no record was ever allocated, so allocation
  is total and never returns an address that is in use.

  Main declarations:
    * `Heap`, `Heap.alloc`, `Heap.modify`, `Heap.free`
    * `Heap.get_alloc_self`, `Heap.get_modify`,
      `Heap.get_free`
    * `Heap.length_le_next`
-/

------------------------------------------------------------
-- Heaps
------------------------------------------------------------

namespace PRacer

namespace Foundations

/- Records by address, none from `next` on. -/
structure Heap (α : Type*) where
  cells : Nat → Option α
  next : Nat
  fresh : ∀ p, next ≤ p → cells p = none

attribute [ext] Heap

namespace Heap

variable {α : Type*} (h : Heap α)

/- No record at all. -/
def empty : Heap α where
  cells := fun _ => none
  next := 0
  fresh := fun _ _ => rfl

/- The record at an address. -/
def get (p : Nat) : Option α := h.cells p

/- Allocate a record at an address that was never used. -/
def alloc (a : α) : Heap α where
  cells := Function.update h.cells h.next (some a)
  next := h.next + 1
  fresh := by
    intro p hp
    rw [Function.update_of_ne (by omega)]
    exact h.fresh p (by omega)

/- Change the record at an address, if there is one. -/
def modify (p : Nat) (f : α → α) : Heap α where
  cells := Function.update h.cells p ((h.cells p).map f)
  next := h.next
  fresh := by
    intro q hq
    by_cases hqp : q = p
    · subst hqp
      simp [h.fresh q hq]
    · rw [Function.update_of_ne hqp]
      exact h.fresh q hq

/- Give up the record at an address. -/
def free (p : Nat) : Heap α where
  cells := Function.update h.cells p none
  next := h.next
  fresh := by
    intro q hq
    by_cases hqp : q = p
    · subst hqp
      simp
    · rw [Function.update_of_ne hqp]
      exact h.fresh q hq

------------------------------------------------------------
-- Reading After Writing
------------------------------------------------------------

variable {h}

theorem get_eq_none
    {p : Nat}
    (hp : h.next ≤ p) :
    h.get p = none :=
  h.fresh p hp

theorem lt_next
    {p : Nat} {a : α}
    (hGet : h.get p = some a) :
    p < h.next := by
  by_contra hp
  rw [get_eq_none (by omega)] at hGet
  cases hGet

/- There are no more records than addresses given out. -/
theorem length_le_next
    {ps : List Nat}
    (hNodup : ps.Nodup)
    (hLive : ∀ p ∈ ps, ∃ a, h.get p = some a) :
    ps.length ≤ h.next := by
  rw [← List.toFinset_card_of_nodup hNodup,
    ← Finset.card_range h.next]
  apply Finset.card_le_card
  intro p hp
  rw [List.mem_toFinset] at hp
  rcases hLive p hp with ⟨a, hGet⟩
  exact Finset.mem_range.mpr (lt_next hGet)

@[simp] theorem get_alloc_self (a : α) :
    (h.alloc a).get h.next = some a := by
  simp [get, alloc]

theorem get_alloc_of_ne
    {p : Nat} (a : α)
    (hp : p ≠ h.next) :
    (h.alloc a).get p = h.get p := by
  simp [get, alloc, hp]

theorem get_alloc_of_get
    {p : Nat} {b : α} (a : α)
    (hGet : h.get p = some b) :
    (h.alloc a).get p = some b := by
  have hp := lt_next hGet
  rw [get_alloc_of_ne a (by omega)]
  exact hGet

theorem get_modify (p q : Nat) (f : α → α) :
    (h.modify p f).get q =
      if q = p then (h.get q).map f else h.get q := by
  by_cases hqp : q = p
  · subst hqp
    simp [get, modify]
  · simp [get, modify, hqp]

theorem get_modify_self
    {p : Nat} {a : α} (f : α → α)
    (hGet : h.get p = some a) :
    (h.modify p f).get p = some (f a) := by
  rw [get_modify, if_pos rfl, hGet]
  rfl

theorem get_modify_of_ne
    {p q : Nat} (f : α → α)
    (hqp : q ≠ p) :
    (h.modify p f).get q = h.get q := by
  rw [get_modify, if_neg hqp]

theorem get_free (p q : Nat) :
    (h.free p).get q = if q = p then none else h.get q := by
  by_cases hqp : q = p
  · subst hqp
    simp [get, free]
  · simp [get, free, hqp]

/- Two changes of one record are one change. -/
theorem modify_modify (p : Nat) (f g : α → α) :
    (h.modify p f).modify p g = h.modify p fun a => g (f a) := by
  apply Heap.ext
  · funext q
    by_cases hqp : q = p
    · subst hqp
      simp [modify, Function.comp_def]
    · simp [modify, hqp]
  · rfl

/- Changes of two records, or changes that commute. -/
theorem modify_comm
    {p q : Nat} {f g : α → α}
    (hComm : p = q → ∀ a, f (g a) = g (f a)) :
    (h.modify p f).modify q g = (h.modify q g).modify p f := by
  by_cases hpq : p = q
  · subst hpq
    rw [modify_modify, modify_modify]
    congr 1
    funext a
    exact (hComm rfl a).symm
  · apply Heap.ext
    · unfold modify
      dsimp only
      rw [Function.update_of_ne (Ne.symm hpq),
        Function.update_of_ne hpq, Function.update_comm hpq]
    · rfl

/- A record that was allocated is changed like any other. -/
theorem alloc_modify
    {p : Nat} (a : α) (f : α → α)
    (hp : p < h.next) :
    (h.modify p f).alloc a = (h.alloc a).modify p f := by
  have hNe : p ≠ h.next := by omega
  apply Heap.ext
  · unfold alloc modify
    dsimp only
    rw [Function.update_of_ne hNe,
      Function.update_comm hNe]
  · rfl

/- A record that is given up need not be changed. -/
theorem free_modify (p q : Nat) (f : α → α) :
    (h.modify p f).free q = (h.free q).modify p f := by
  apply Heap.ext
  · funext r
    unfold free modify
    dsimp only
    by_cases hrq : r = q
    · subst hrq
      by_cases hrp : r = p
      · subst hrp
        simp
      · simp [hrp]
    · by_cases hrp : r = p
      · subst hrp
        simp [hrq]
      · simp [hrq, hrp]
  · rfl

/- A change that leaves the record as it is. -/
theorem modify_eq_self
    {p : Nat} {a : α} {f : α → α}
    (hGet : h.get p = some a)
    (hSame : f a = a) :
    h.modify p f = h := by
  apply Heap.ext
  · funext q
    by_cases hqp : q = p
    · subst hqp
      unfold get at hGet
      simp [modify, hGet, hSame]
    · simp [modify, hqp]
  · rfl

@[simp] theorem next_alloc (a : α) :
    (h.alloc a).next = h.next + 1 := rfl

@[simp] theorem next_modify (p : Nat) (f : α → α) :
    (h.modify p f).next = h.next := rfl

@[simp] theorem next_free (p : Nat) :
    (h.free p).next = h.next := rfl

end Heap

end Foundations

end PRacer
