import Mathlib.Algebra.BigOperators.Group.Finset.Basic
import PRacer.Foundations.Heap

/-
  Sums over all records of a heap.

  Main declarations:
    * `Heap.total`
    * `Heap.total_alloc`, `Heap.total_modify`,
      `Heap.total_free`
-/

namespace PRacer

namespace Foundations

namespace Heap

variable {α : Type*} {h : Heap α} {p : Nat} {a : α}
variable {f : α → Nat}

/- What one address adds to a sum. -/
def share (h : Heap α) (f : α → Nat) (p : Nat) : Nat :=
  (h.get p).elim 0 f

/- The sum over all records. -/
def total (h : Heap α) (f : α → Nat) : Nat :=
  ∑ p ∈ Finset.range h.next, h.share f p

theorem share_of_get
    (hGet : h.get p = some a) :
    h.share f p = f a := by
  simp [share, hGet]

@[simp] theorem total_empty (f : α → Nat) :
    (empty : Heap α).total f = 0 := rfl

/- Only live records count. -/
theorem total_eq_zero
    (hNone : ∀ p, h.get p = none) :
    h.total f = 0 := by
  unfold total
  refine Finset.sum_eq_zero fun p _ => ?_
  simp [share, hNone p]

theorem total_alloc (a : α) :
    (h.alloc a).total f = h.total f + f a := by
  have hSelf : (h.alloc a).share f h.next = f a :=
    share_of_get (get_alloc_self a)
  have hOld : ∀ p ∈ Finset.range h.next,
      (h.alloc a).share f p = h.share f p := by
    intro p hp
    have hNe := Nat.ne_of_lt (Finset.mem_range.mp hp)
    unfold share
    rw [get_alloc_of_ne a hNe]
  unfold total
  rw [next_alloc, Finset.sum_range_succ, hSelf,
    Finset.sum_congr rfl hOld]

/- Two heaps that differ at one address. -/
private theorem total_of_ne
    {h' : Heap α}
    (hNext : h'.next = h.next)
    (hOther : ∀ q, q ≠ p → h'.get q = h.get q)
    (hp : p < h.next) :
    h'.total f + h.share f p = h.total f + h'.share f p := by
  have hMem : p ∈ Finset.range h.next :=
    Finset.mem_range.mpr hp
  have hRest : ∑ q ∈ (Finset.range h.next).erase p,
      h'.share f q =
      ∑ q ∈ (Finset.range h.next).erase p, h.share f q := by
    refine Finset.sum_congr rfl fun q hq => ?_
    unfold share
    rw [hOther q (Finset.ne_of_mem_erase hq)]
  have hSum := Finset.add_sum_erase (Finset.range h.next)
    (fun q => h.share f q) hMem
  have hSum' := Finset.add_sum_erase (Finset.range h.next)
    (fun q => h'.share f q) hMem
  unfold total
  rw [hNext]
  omega

theorem total_modify
    (hGet : h.get p = some a) (g : α → α) :
    (h.modify p g).total f + f a = h.total f + f (g a) := by
  have hTotal := total_of_ne (f := f) (next_modify p g)
    (fun q hq => get_modify_of_ne g hq) (lt_next hGet)
  rwa [share_of_get hGet,
    share_of_get (get_modify_self g hGet)] at hTotal

theorem total_free
    (hGet : h.get p = some a) :
    (h.free p).total f + f a = h.total f := by
  have hTotal := total_of_ne (f := f) (next_free p)
    (fun q hq => by rw [get_free, if_neg hq]) (lt_next hGet)
  have hNone : (h.free p).share f p = 0 := by
    unfold share
    rw [get_free, if_pos rfl]
    rfl
  rwa [share_of_get hGet, hNone] at hTotal

end Heap

end Foundations

end PRacer
