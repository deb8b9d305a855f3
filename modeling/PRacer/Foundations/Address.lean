import Mathlib.Data.List.Lex
import Mathlib.Order.Lattice

/-
  Addresses of the nodes of an ordered tree.

  An address lists the branches taken from the root, and the
  lexicographic order of addresses, prefixes first, is the
  preorder of the tree.

  Main declarations:
    * `Address.lt_append`, `Address.append_cons_lt`
    * `Address.append_lt_of_not_prefix`
    * `Address.prefix_of_between`
-/

namespace PRacer

namespace Foundations

namespace Address

variable {α : Type*} [LinearOrder α]
variable {p q : List α} {c d : α}

theorem append_lt_append_iff (p u v : List α) :
    p ++ u < p ++ v ↔ u < v := by
  induction p with
  | nil => rfl
  | cons x xs ih =>
      simp [ih]

/- A node comes before its descendants. -/
theorem lt_append
    (p : List α) {w : List α}
    (hNonempty : w ≠ []) :
    p < p ++ w := by
  have hLt : p ++ [] < p ++ w := by
    rw [append_lt_append_iff]
    cases w with
    | nil => exact absurd rfl hNonempty
    | cons x xs => exact List.nil_lt_cons x xs
  simpa using hLt

theorem le_of_prefix (hPrefix : p <+: q) : p ≤ q := by
  rcases hPrefix with ⟨w, rfl⟩
  cases w with
  | nil => simp
  | cons x xs =>
      exact le_of_lt (lt_append p (by simp))

/- Descendants of two branches come in branch order. -/
theorem append_cons_lt
    (p u v : List α) (hLt : c < d) :
    p ++ c :: u < p ++ d :: v := by
  rw [append_lt_append_iff, List.cons_lt_cons_iff]
  exact Or.inl hLt

/- The same for descendants given by their prefixes. -/
theorem lt_of_prefix_of_prefix
    {a b : List α}
    (hLt : c < d)
    (ha : p ++ [c] <+: a)
    (hb : p ++ [d] <+: b) :
    a < b := by
  rcases ha with ⟨u, rfl⟩
  rcases hb with ⟨v, rfl⟩
  simpa using append_cons_lt p u v hLt

/-
  What comes after a node and is not below it comes after
  all nodes below it.
-/
theorem append_lt_of_not_prefix
    (hLt : p < q)
    (hNot : ¬ p <+: q)
    (w : List α) :
    p ++ w < q := by
  induction p generalizing q with
  | nil => exact absurd (List.nil_prefix) hNot
  | cons x xs ih =>
      cases q with
      | nil => exact absurd hLt (List.not_lt_nil _)
      | cons y ys =>
          rw [List.cons_append, List.cons_lt_cons_iff]
          rcases List.cons_lt_cons_iff.mp hLt with
            hHead | ⟨rfl, hTail⟩
          · exact Or.inl hHead
          · refine Or.inr ⟨rfl, ih hTail fun hPrefix => ?_⟩
            exact hNot (List.cons_prefix_cons.mpr
              ⟨rfl, hPrefix⟩)

/-
  What comes after a node and before a descendant in its
  least branch lies in that branch.
-/
theorem prefix_of_between
    (hLeast : ∀ x, c ≤ x)
    {a b : List α}
    (hAfter : p < a)
    (hBefore : a < b)
    (hBelow : p ++ [c] <+: b) :
    p ++ [c] <+: a := by
  have hPrefix : p <+: a := by
    by_contra hNot
    rcases hBelow with ⟨w, rfl⟩
    have hLt := append_lt_of_not_prefix hAfter hNot
      ([c] ++ w)
    rw [← List.append_assoc] at hLt
    exact lt_asymm hLt hBefore
  rcases hPrefix with ⟨w, rfl⟩
  cases w with
  | nil => simp at hAfter
  | cons x xs =>
      rcases (hLeast x).lt_or_eq with hLt | rfl
      · have hAfter' := lt_of_prefix_of_prefix hLt hBelow
          (by simp : p ++ [x] <+: p ++ x :: xs)
        exact absurd hBefore (lt_asymm hAfter')
      · simp

end Address

end Foundations

end PRacer
