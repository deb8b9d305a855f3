import Mathlib.Data.List.Basic
import Mathlib.Order.Lattice

/-
  Total orders that grow by inserting a new element
  immediately after an old one.

  Main declarations:
    * `insertAfter`, `Precedes`, `Follows`
    * `Increasing`, `Increasing.insertAfter`,
      `Increasing.precedes_iff`
    * `OrderList`
-/

------------------------------------------------------------
-- Insertion
------------------------------------------------------------

namespace PRacer

namespace Foundations

variable {α : Type*}

/- Put `x` immediately after the first `base`. -/
def insertAfter [DecidableEq α] (base x : α) :
    List α → List α
| [] => []
| y :: ys =>
    if y = base then y :: x :: ys
    else y :: insertAfter base x ys

/- The first element stands before the second. -/
def Precedes (l : List α) (x y : α) : Prop :=
  [x, y].Sublist l

instance [DecidableEq α] (l : List α) (x y : α) :
    Decidable (Precedes l x y) :=
  inferInstanceAs (Decidable (List.Sublist _ _))

theorem insertAfter_eq [DecidableEq α]
    {base : α} (x : α) {l : List α}
    (hBase : base ∈ l) :
    ∃ pre post, l = pre ++ base :: post ∧
      insertAfter base x l = pre ++ base :: x :: post := by
  induction l with
  | nil => cases hBase
  | cons y ys ih =>
      unfold insertAfter
      by_cases hy : y = base
      · exact ⟨[], ys, by simp [hy], by simp [hy]⟩
      · have hRest : base ∈ ys :=
          List.mem_of_ne_of_mem (Ne.symm hy) hBase
        rcases ih hRest with ⟨pre, post, hSplit, hInsert⟩
        refine ⟨y :: pre, post, by simp [hSplit], ?_⟩
        simp [hy, hInsert]

/- Only the first of several bases counts. -/
theorem insertAfter_append_cons [DecidableEq α]
    {base : α} (x : α) {pre : List α} (post : List α)
    (hPre : base ∉ pre) :
    insertAfter base x (pre ++ base :: post) =
      pre ++ base :: x :: post := by
  induction pre with
  | nil => simp [insertAfter]
  | cons y pre ih =>
      rw [List.mem_cons, not_or] at hPre
      rw [List.cons_append, insertAfter,
        if_neg (Ne.symm hPre.1), ih hPre.2]
      rfl

theorem insertAfter_of_notMem [DecidableEq α]
    {base : α} (x : α) {l : List α}
    (hBase : base ∉ l) :
    insertAfter base x l = l := by
  induction l with
  | nil => rfl
  | cons y ys ih =>
      have hy : y ≠ base := by
        rintro rfl
        exact hBase List.mem_cons_self
      have hRest : base ∉ ys :=
        fun hMem => hBase (List.mem_cons_of_mem y hMem)
      simp [insertAfter, hy, ih hRest]

theorem mem_insertAfter [DecidableEq α]
    {base x y : α} {l : List α}
    (hBase : base ∈ l) :
    y ∈ insertAfter base x l ↔ y = x ∨ y ∈ l := by
  rcases insertAfter_eq x hBase with
    ⟨pre, post, hSplit, hInsert⟩
  rw [hInsert, hSplit]
  simp only [List.mem_append, List.mem_cons]
  tauto

theorem sublist_insertAfter [DecidableEq α]
    (base x : α) (l : List α) :
    l.Sublist (insertAfter base x l) := by
  induction l with
  | nil => exact List.Sublist.refl _
  | cons y ys ih =>
      unfold insertAfter
      split
      · exact (List.sublist_cons_self x ys).cons_cons y
      · exact ih.cons_cons y

theorem nodup_insertAfter [DecidableEq α]
    {base x : α} {l : List α}
    (hNodup : l.Nodup)
    (hFresh : x ∉ l) :
    (insertAfter base x l).Nodup := by
  by_cases hBase : base ∈ l
  · rcases insertAfter_eq x hBase with
      ⟨pre, post, hSplit, hInsert⟩
    have hPerm :
        (insertAfter base x l).Perm (x :: l) := by
      rw [hInsert, hSplit]
      have hMiddle :
          ((pre ++ [base]) ++ x :: post).Perm
            (x :: ((pre ++ [base]) ++ post)) :=
        List.perm_middle
      simpa using hMiddle
    rw [hPerm.nodup_iff]
    exact List.nodup_cons.mpr ⟨hFresh, hNodup⟩
  · rwa [insertAfter_of_notMem x hBase]

------------------------------------------------------------
-- Precedence
------------------------------------------------------------

theorem Precedes.insertAfter [DecidableEq α]
    {l : List α} {x y : α}
    (h : Precedes l x y) (base z : α) :
    Precedes (insertAfter base z l) x y :=
  List.Sublist.trans h (sublist_insertAfter base z l)

/- Without the new element, the old list is left. -/
theorem filter_insertAfter [DecidableEq α]
    {z : α} {l : List α} (base : α)
    (hz : z ∉ l) :
    (insertAfter base z l).filter (· ≠ z) = l := by
  induction l with
  | nil => rfl
  | cons y l ih =>
      rw [List.mem_cons, not_or] at hz
      have hYes : decide (y ≠ z) = true :=
        decide_eq_true (Ne.symm hz.1)
      have hKeep : l.filter (· ≠ z) = l := by
        rw [List.filter_eq_self]
        intro a ha
        rw [decide_eq_true_iff]
        rintro rfl
        exact hz.2 ha
      unfold Foundations.insertAfter
      split
      · rw [List.filter_cons, if_pos hYes, List.filter_cons,
          if_neg (by simp), hKeep]
      · rw [List.filter_cons, if_pos hYes, ih hz.2]

/- Insertions do not change the order of old elements. -/
theorem precedes_insertAfter_iff [DecidableEq α]
    {l : List α} {x y z : α} (base : α)
    (hz : z ∉ l) (hx : x ∈ l) (hy : y ∈ l) :
    Precedes (insertAfter base z l) x y ↔
      Precedes l x y := by
  constructor
  · intro h
    have hFilter : ([x, y].filter (· ≠ z)).Sublist
        ((insertAfter base z l).filter (· ≠ z)) :=
      h.filter _
    have hxz : x ≠ z := by
      rintro rfl
      exact hz hx
    have hyz : y ≠ z := by
      rintro rfl
      exact hz hy
    rw [filter_insertAfter base hz] at hFilter
    have hPair : [x, y].filter (· ≠ z) = [x, y] := by
      simp [hxz, hyz]
    rw [hPair] at hFilter
    exact hFilter
  · intro h
    exact h.insertAfter base z

/- Two elements stand in one of the two orders. -/
theorem precedes_or_precedes
    {l : List α} {x y : α}
    (hx : x ∈ l) (hy : y ∈ l) (hne : x ≠ y) :
    Precedes l x y ∨ Precedes l y x := by
  induction l with
  | nil => cases hx
  | cons z zs ih =>
      rcases List.mem_cons.mp hx with rfl | hxRest
      · have hyRest : y ∈ zs :=
          List.mem_of_ne_of_mem (Ne.symm hne) hy
        exact Or.inl ((List.singleton_sublist.mpr
          hyRest).cons_cons x)
      · rcases List.mem_cons.mp hy with rfl | hyRest
        · exact Or.inr ((List.singleton_sublist.mpr
            hxRest).cons_cons y)
        · rcases ih hxRest hyRest with h | h
          · exact Or.inl (h.cons z)
          · exact Or.inr (h.cons z)

------------------------------------------------------------
-- Neighbours
------------------------------------------------------------

/- The second element stands right after the first. -/
def Follows (l : List α) (x y : α) : Prop :=
  ∃ pre post, l = pre ++ x :: y :: post

theorem follows_insertAfter [DecidableEq α]
    {base x : α} {l : List α}
    (hBase : base ∈ l) :
    Follows (insertAfter base x l) base x := by
  rcases insertAfter_eq x hBase with
    ⟨pre, post, -, hInsert⟩
  exact ⟨pre, post, hInsert⟩

/- Insertions after other elements come between no two. -/
theorem Follows.insertAfter [DecidableEq α]
    {l : List α} {x y base : α}
    (h : Follows l x y)
    (hNe : x ≠ base) (z : α) :
    Follows (insertAfter base z l) x y := by
  rcases h with ⟨pre, post, rfl⟩
  induction pre with
  | nil =>
      rw [List.nil_append, Foundations.insertAfter,
        if_neg hNe, Foundations.insertAfter]
      split
      · exact ⟨[], z :: post, rfl⟩
      · exact ⟨[], _, rfl⟩
  | cons u pre ih =>
      rw [List.cons_append, Foundations.insertAfter]
      split
      · exact ⟨u :: z :: pre, post, rfl⟩
      · rcases ih with ⟨pre', post', hEq⟩
        rw [hEq]
        exact ⟨u :: pre', post', rfl⟩

theorem Follows.mem_right
    {l : List α} {x y : α}
    (h : Follows l x y) : y ∈ l := by
  rcases h with ⟨pre, post, rfl⟩
  simp

------------------------------------------------------------
-- Ranks
------------------------------------------------------------

section Ranks

variable {β : Type*} [LinearOrder β]
variable {rank : α → β} {l : List α}

/- The ranks of the elements grow along the list. -/
def Increasing (rank : α → β) (l : List α) : Prop :=
  l.Pairwise fun x y => rank x < rank y

/- Along an increasing list, precedence compares ranks. -/
theorem Increasing.precedes_iff
    (hInc : Increasing rank l)
    {x y : α} (hx : x ∈ l) (hy : y ∈ l) :
    Precedes l x y ↔ rank x < rank y := by
  have hForward : ∀ {u v : α},
      Precedes l u v → rank u < rank v := by
    intro u v h
    have hPair :
        [u, v].Pairwise fun x y => rank x < rank y :=
      List.Pairwise.sublist h hInc
    simpa using hPair
  constructor
  · exact hForward
  · intro hLt
    have hne : x ≠ y := by
      rintro rfl
      exact lt_irrefl _ hLt
    rcases precedes_or_precedes hx hy hne with h | h
    · exact h
    · exact absurd (hForward h) hLt.asymm

/- Ranks along an increasing list are distinct. -/
theorem Increasing.rank_injOn
    (hInc : Increasing rank l)
    {x y : α} (hx : x ∈ l) (hy : y ∈ l)
    (hRank : rank x = rank y) :
    x = y := by
  by_contra hne
  rcases precedes_or_precedes hx hy hne with h | h
  · have hLt := (hInc.precedes_iff hx hy).mp h
    exact lt_irrefl _ (hRank ▸ hLt)
  · have hLt := (hInc.precedes_iff hy hx).mp h
    exact lt_irrefl _ (hRank ▸ hLt)

/- Ranks matter on the elements of the list only. -/
theorem Increasing.congr
    {rank' : α → β}
    (hInc : Increasing rank l)
    (hSame : ∀ x ∈ l, rank' x = rank x) :
    Increasing rank' l := by
  refine List.Pairwise.imp_of_mem ?_ hInc
  intro x y hx hy hLt
  rwa [hSame x hx, hSame y hy]

/-
  An insertion keeps the list increasing if the new rank lies
  above the rank of the base and below all ranks above it.
-/
theorem Increasing.insertAfter [DecidableEq α]
    (hInc : Increasing rank l)
    {base x : α} (hBase : base ∈ l)
    (hLt : rank base < rank x)
    (hGap : ∀ y ∈ l,
      rank base < rank y → rank x < rank y) :
    Increasing rank (insertAfter base x l) := by
  rcases insertAfter_eq x hBase with
    ⟨pre, post, hSplit, hInsert⟩
  rw [hInsert]
  unfold Increasing at hInc ⊢
  rw [hSplit, List.pairwise_append] at hInc
  rcases hInc with ⟨hPre, hPost, hAcross⟩
  rw [List.pairwise_cons] at hPost
  rcases hPost with ⟨hBasePost, hPost⟩
  have hNew : ∀ y ∈ post, rank x < rank y := by
    intro y hy
    refine hGap y ?_ (hBasePost y hy)
    rw [hSplit]
    simp [hy]
  refine List.pairwise_append.mpr
    ⟨hPre, List.pairwise_cons.mpr
      ⟨?_, List.pairwise_cons.mpr ⟨hNew, hPost⟩⟩, ?_⟩
  · intro y hy
    rcases List.mem_cons.mp hy with rfl | hy
    · exact hLt
    · exact hBasePost y hy
  · intro y hy z hz
    have hyBase : rank y < rank base :=
      hAcross y hy base List.mem_cons_self
    rcases List.mem_cons.mp hz with rfl | hz
    · exact hyBase
    · rcases List.mem_cons.mp hz with rfl | hz
      · exact hyBase.trans hLt
      · exact hAcross y hy z (List.mem_cons_of_mem _ hz)

end Ranks

------------------------------------------------------------
-- Order Lists
------------------------------------------------------------

/-
  An order that hands out names for its elements: the names
  in use are distinct and smaller than the next one.
-/
structure OrderList where
  nodes : List Nat
  next : Nat
  nodup : nodes.Nodup
  fresh : ∀ x ∈ nodes, x < next

namespace OrderList

theorem next_notMem (o : OrderList) :
    o.next ∉ o.nodes :=
  fun hMem => Nat.lt_irrefl _ (o.fresh o.next hMem)

/- The order with a single element. -/
def singleton : OrderList where
  nodes := [0]
  next := 1
  nodup := List.pairwise_singleton _ 0
  fresh := by simp

/- Insert a new element immediately after `base`. -/
def insert (o : OrderList) (base : Nat) :
    Nat × OrderList :=
  (o.next,
    { nodes := insertAfter base o.next o.nodes
      next := o.next + 1
      nodup := nodup_insertAfter o.nodup o.next_notMem
      fresh := by
        intro x hx
        by_cases hBase : base ∈ o.nodes
        · rcases (mem_insertAfter hBase).mp hx with rfl | h
          · exact Nat.lt_succ_self _
          · exact Nat.lt_succ_of_lt (o.fresh x h)
        · rw [insertAfter_of_notMem _ hBase] at hx
          exact Nat.lt_succ_of_lt (o.fresh x hx) })

@[simp] theorem insert_fst (o : OrderList) (base : Nat) :
    (o.insert base).1 = o.next := rfl

theorem mem_insert
    {o : OrderList} {base x : Nat}
    (hBase : base ∈ o.nodes) :
    x ∈ (o.insert base).2.nodes ↔
      x = o.next ∨ x ∈ o.nodes :=
  mem_insertAfter hBase

theorem ne_next
    {o : OrderList} {x : Nat}
    (hx : x ∈ o.nodes) : x ≠ o.next :=
  fun hEq => o.next_notMem (hEq ▸ hx)

end OrderList

end Foundations

end PRacer
