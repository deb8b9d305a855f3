import Mathlib.Logic.Function.Basic
import PRacer.Foundations.Address
import PRacer.Foundations.InsertionOrder

/-
  Order lists whose nodes stand for the nodes of an ordered
  tree, listed in preorder, while the tree is grown.

  Main declarations:
    * `Grown`
    * `Grown.insert`, `Grown.insert_two`
-/

namespace PRacer

namespace Foundations

variable {α : Type*} [LinearOrder α]

/-
  The order lists addresses in preorder, and all ancestors of
  a listed address have been expanded.
-/
structure Grown
    (o : OrderList) (addr : Nat → List α)
    (Expanded : List α → Prop) : Prop where
  increasing : Increasing addr o.nodes
  closed :
    ∀ n ∈ o.nodes, ∀ p, p <+: addr n →
      p ≠ addr n → Expanded p

namespace Grown

variable {o : OrderList} {addr : Nat → List α}
variable {Expanded : List α → Prop}

/- A single node is a tree in which nothing is expanded. -/
theorem singleton
    (Expanded : List α → Prop)
    (hRoot : addr 0 = []) :
    Grown OrderList.singleton addr Expanded where
  increasing := List.pairwise_singleton _ 0
  closed := by
    intro n hn p hPrefix hne
    obtain rfl : n = 0 := by
      simpa [OrderList.singleton] using hn
    rw [hRoot] at hPrefix hne
    exact absurd (List.prefix_nil.mp hPrefix) hne

/- Below an address that is not expanded lies only itself. -/
theorem eq_of_prefix
    (hGrown : Grown o addr Expanded)
    {p : List α} (hLeaf : ¬ Expanded p)
    {n : Nat} (hn : n ∈ o.nodes)
    (hPrefix : p <+: addr n) :
    addr n = p := by
  by_contra hne
  exact hLeaf (hGrown.closed n hn p hPrefix (Ne.symm hne))

theorem mono
    {Expanded' : List α → Prop}
    (hGrown : Grown o addr Expanded)
    (hMore : ∀ p, Expanded p → Expanded' p) :
    Grown o addr Expanded' where
  increasing := hGrown.increasing
  closed n hn p hPrefix hne :=
    hMore p (hGrown.closed n hn p hPrefix hne)

/-
  Insert branch `c` of `p` after a node `base` that is `p`
  itself or lies in an earlier branch.  What is listed below
  `p` already stands up to `base` or in a later branch.
-/
theorem insert
    (hGrown : Grown o addr Expanded)
    {p : List α} {c : α} {base : Nat}
    (hBase : base ∈ o.nodes)
    (hAt : addr base = p ∨
      ∃ b, b < c ∧ addr base = p ++ [b])
    (hFree : ∀ n ∈ o.nodes, p <+: addr n →
      addr n ≤ addr base ∨
        ∃ d, c < d ∧ p ++ [d] <+: addr n) :
    Grown (o.insert base).2
      (Function.update addr o.next (p ++ [c]))
      (fun q => Expanded q ∨ q = p) where
  increasing := by
    have hSame : ∀ n ∈ o.nodes,
        Function.update addr o.next (p ++ [c]) n =
          addr n := by
      intro n hn
      exact Function.update_of_ne (OrderList.ne_next hn) _ _
    have hNew :
        Function.update addr o.next (p ++ [c]) o.next =
          p ++ [c] :=
      Function.update_self _ _ _
    have hPrefixBase : p <+: addr base := by
      rcases hAt with hAt | ⟨b, -, hAt⟩
      · simp [hAt]
      · rw [hAt]
        exact List.prefix_append p [b]
    refine (hGrown.increasing.congr hSame).insertAfter
      hBase ?_ ?_
    · rw [hNew, hSame base hBase]
      rcases hAt with hAt | ⟨b, hb, hAt⟩
      · rw [hAt]
        exact Address.lt_append p (by simp)
      · rw [hAt]
        exact Address.append_cons_lt p [] [] hb
    · intro y hy hLt
      rw [hNew, hSame y hy]
      rw [hSame base hBase, hSame y hy] at hLt
      by_cases hBelow : p <+: addr y
      · rcases hFree y hy hBelow with hLe | ⟨d, hcd, hd⟩
        · exact absurd hLt (not_lt_of_ge hLe)
        · exact Address.lt_of_prefix_of_prefix hcd
            (List.prefix_refl _) hd
      · have hpLt : p < addr y :=
          lt_of_le_of_lt
            (Address.le_of_prefix hPrefixBase) hLt
        exact Address.append_lt_of_not_prefix hpLt hBelow _
  closed := by
    intro n hn q hPrefix hne
    rcases (OrderList.mem_insert hBase).mp hn with rfl | hn
    · rw [Function.update_self] at hPrefix hne
      rcases List.prefix_concat_iff.mp hPrefix with hq | hq
      · exact absurd hq hne
      · by_cases hqp : q = p
        · exact Or.inr hqp
        · rcases hAt with hAt | ⟨b, -, hAt⟩
          · exact Or.inl (hGrown.closed base hBase q
              (hAt ▸ hq) (hAt ▸ hqp))
          · refine Or.inl (hGrown.closed base hBase q
              (hAt ▸ hq.trans (List.prefix_append p [b])) ?_)
            rw [hAt]
            rintro rfl
            have hLength := hq.length_le
            rw [List.length_append, List.length_singleton]
              at hLength
            omega
    · rw [Function.update_of_ne (OrderList.ne_next hn)]
        at hPrefix hne
      exact Or.inl (hGrown.closed n hn q hPrefix hne)

/-
  Insert two branches of `addr base`, the second immediately
  after the first.  Only later branches are listed so far.
-/
theorem insert_two
    (hGrown : Grown o addr Expanded)
    {c d : α} {base : Nat}
    (hLt : c < d)
    (hBase : base ∈ o.nodes)
    (hFree : ∀ n ∈ o.nodes, addr base <+: addr n →
      addr n = addr base ∨
        ∃ e, d < e ∧ addr base ++ [e] <+: addr n) :
    ∃ addr',
      Grown ((o.insert base).2.insert o.next).2 addr'
        (fun q => Expanded q ∨ q = addr base) ∧
      (∀ n ∈ o.nodes, addr' n = addr n) ∧
      addr' o.next = addr base ++ [c] ∧
      addr' (o.next + 1) = addr base ++ [d] := by
  have hFirst := hGrown.insert (c := c) hBase
    (Or.inl rfl) fun n hn hPrefix => by
      rcases hFree n hn hPrefix with hEq | ⟨e, hde, he⟩
      · exact Or.inl (le_of_eq hEq)
      · exact Or.inr ⟨e, hLt.trans hde, he⟩
  let addr₁ :=
    Function.update addr o.next (addr base ++ [c])
  have hNew : addr₁ o.next = addr base ++ [c] :=
    Function.update_self _ _ _
  have hOld : ∀ n ∈ o.nodes, addr₁ n = addr n := fun n hn =>
    Function.update_of_ne (OrderList.ne_next hn) _ _
  have hNext : o.next ∈ (o.insert base).2.nodes :=
    (OrderList.mem_insert hBase).mpr (Or.inl rfl)
  have hSecond := hFirst.insert (p := addr base) (c := d)
    hNext (Or.inr ⟨c, hLt, hNew⟩) fun n hn hPrefix => by
      rcases (OrderList.mem_insert hBase).mp hn with
        rfl | hn
      · exact Or.inl (le_refl _)
      · have hSame := hOld n hn
        change addr base <+: addr₁ n at hPrefix
        change addr₁ n ≤ addr₁ o.next ∨
          ∃ e, d < e ∧ addr base ++ [e] <+: addr₁ n
        rw [hSame] at hPrefix
        rw [hSame, hNew]
        rcases hFree n hn hPrefix with hEq | ⟨e, hde, he⟩
        · rw [hEq]
          exact Or.inl
            (le_of_lt (Address.lt_append _ (by simp)))
        · exact Or.inr ⟨e, hde, he⟩
  refine ⟨_, hSecond.mono ?_, ?_, ?_, ?_⟩
  · rintro q ((hq | rfl) | rfl)
    · exact Or.inl hq
    · exact Or.inr rfl
    · exact Or.inr rfl
  · intro n hn
    have hne : n ≠ o.next + 1 :=
      Nat.ne_of_lt (Nat.lt_succ_of_lt (o.fresh n hn))
    exact (Function.update_of_ne hne _ _).trans (hOld n hn)
  · have hne : o.next ≠ o.next + 1 := Nat.ne_add_one _
    exact (Function.update_of_ne hne _ _).trans hNew
  · exact Function.update_self _ _ _

end Grown

end Foundations

end PRacer
