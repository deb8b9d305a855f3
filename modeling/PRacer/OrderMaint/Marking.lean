import PRacer.OrderMaint.Rebalance
import PRacer.OrderMaint.Split

/-
  Replacing a leaf of the tree.

  A leaf whose list was split into several lists becomes a
  heavy leaf; the nodes above it are counted up and marked.

  Main declarations:
    * `Grafts`
    * `Pending`, `updateSizes_path`
    * `climb`, `SameParents`
-/

namespace PRacer

open Foundations

namespace OrderMaint

------------------------------------------------------------
-- Replacing a Leaf
------------------------------------------------------------

/- The leaves that were not split. -/
def Shape.plain : Shape → List (Nat × Nat)
| .leaf p l => [(p, l)]
| .heavy _ _ => []
| .node _ left right => left.plain ++ right.plain

/- A leaf, that many links down, is replaced by a shape. -/
inductive Grafts (p l : Nat) (new : Shape) :
    Shape → Shape → Nat → Prop
| leaf : Grafts p l new (.leaf p l) new 0
| left {q d : Nat} {a a' b : Shape} :
    Grafts p l new a a' d →
      Grafts p l new (.node q a b) (.node q a' b) (d + 1)
| right {q d : Nat} {a b b' : Shape} :
    Grafts p l new b b' d →
      Grafts p l new (.node q a b) (.node q a b') (d + 1)

namespace Grafts

variable {p l d : Nat} {new t t' : Shape}

/- Every leaf that was not split can be replaced. -/
theorem exists_of_plain
    (h : (p, l) ∈ t.plain) :
    ∃ ls rs d, t.leaves = ls ++ (p, l) :: rs ∧
      ∀ new, ∃ t', Grafts p l new t t' d ∧
        t'.leaves = ls ++ (new.leaves ++ rs) := by
  induction t with
  | leaf q k =>
      rw [Shape.plain, List.mem_singleton] at h
      cases h
      refine ⟨[], [], 0, rfl, ?_⟩
      intro new
      exact ⟨new, Grafts.leaf, by simp⟩
  | heavy q parts => cases h
  | node q a b ihLeft ihRight =>
      rw [Shape.plain, List.mem_append] at h
      rcases h with h | h
      · rcases ihLeft h with ⟨ls, rs, d, hOld, hAll⟩
        refine ⟨ls, rs ++ b.leaves, d + 1, ?_, ?_⟩
        · rw [Shape.leaves, hOld]
          simp
        · intro new
          rcases hAll new with ⟨a', hGraft, hNew⟩
          refine ⟨_, hGraft.left, ?_⟩
          rw [Shape.leaves, hNew]
          simp
      · rcases ihRight h with ⟨ls, rs, d, hOld, hAll⟩
        refine ⟨a.leaves ++ ls, rs, d + 1, ?_, ?_⟩
        · rw [Shape.leaves, hOld]
          simp
        · intro new
          rcases hAll new with ⟨b', hGraft, hNew⟩
          refine ⟨_, hGraft.right, ?_⟩
          rw [Shape.leaves, hNew]
          simp

/- The leaves change in one place. -/
theorem leaves
    (h : Grafts p l new t t' d) :
    ∃ ls rs, t.leaves = ls ++ (p, l) :: rs ∧
      t'.leaves = ls ++ (new.leaves ++ rs) := by
  induction h with
  | leaf => exact ⟨[], [], rfl, by simp⟩
  | @left q d a a' b _ ih =>
      rcases ih with ⟨ls, rs, hOld, hNew⟩
      refine ⟨ls, rs ++ b.leaves, ?_, ?_⟩
      · rw [Shape.leaves, hOld]
        simp
      · rw [Shape.leaves, hNew]
        simp
  | @right q d a b b' _ ih =>
      rcases ih with ⟨ls, rs, hOld, hNew⟩
      refine ⟨a.leaves ++ ls, rs, ?_, ?_⟩
      · rw [Shape.leaves, hOld]
        simp
      · rw [Shape.leaves, hNew]
        simp

/- The addresses change in one place. -/
theorem addrs
    (h : Grafts p l new t t' d) :
    ∃ as bs, t.addrs = as ++ p :: bs ∧
      t'.addrs = as ++ (new.addrs ++ bs) := by
  induction h with
  | leaf => exact ⟨[], [], rfl, by simp⟩
  | @left q d a a' b _ ih =>
      rcases ih with ⟨as, bs, hOld, hNew⟩
      refine ⟨q :: as, bs ++ b.addrs, ?_, ?_⟩
      · rw [Shape.addrs, hOld]
        simp
      · rw [Shape.addrs, hNew]
        simp
  | @right q d a b b' _ ih =>
      rcases ih with ⟨as, bs, hOld, hNew⟩
      refine ⟨q :: (a.addrs ++ as), bs, ?_, ?_⟩
      · rw [Shape.addrs, hOld]
        simp
      · rw [Shape.addrs, hNew]
        simp

/- The root stays where it is. -/
theorem ptr
    (h : Grafts p l new t t' d)
    (hPtr : new.ptr = p) :
    t'.ptr = t.ptr := by
  cases h with
  | leaf => exact hPtr
  | left => rfl
  | right => rfl

theorem marked
    (h : Grafts p l new t t' d) :
    t'.marked = (t.marked || new.marked) := by
  induction h with
  | leaf => rfl
  | @left q d a a' b _ ih =>
      rw [Shape.marked, Shape.marked, ih, Bool.or_assoc,
        Bool.or_comm new.marked, ← Bool.or_assoc]
  | @right q d a b b' _ ih =>
      rw [Shape.marked, Shape.marked, ih, ← Bool.or_assoc]

theorem isNode
    (h : Grafts p l new t t' d)
    (hNew : new.isNode = false) :
    t'.isNode = t.isNode := by
  cases h with
  | leaf => exact hNew
  | left => rfl
  | right => rfl

/- The other leaves are not split by a replacement. -/
theorem plain
    (h : Grafts p l new t t' d)
    {x : Nat × Nat}
    (hx : x ∈ t.plain)
    (hNe : x.1 ≠ p) :
    x ∈ t'.plain := by
  induction h with
  | leaf =>
      rw [Shape.plain, List.mem_singleton] at hx
      rw [hx] at hNe
      exact absurd rfl hNe
  | @left q d a a' b _ ih =>
      rw [Shape.plain, List.mem_append] at hx ⊢
      rcases hx with hx | hx
      · exact Or.inl (ih hx)
      · exact Or.inr hx
  | @right q d a b b' _ ih =>
      rw [Shape.plain, List.mem_append] at hx ⊢
      rcases hx with hx | hx
      · exact Or.inl hx
      · exact Or.inr (ih hx)

/- The height reaches below what was put there. -/
theorem heavyDeep
    {cfg : Config} {H level : Nat}
    (h : Grafts p l new t t' d)
    (hDeep : HeavyDeep cfg H level t)
    (hNew : HeavyDeep cfg H (level + d) new) :
    HeavyDeep cfg H level t' := by
  induction h generalizing level with
  | leaf => exact hNew
  | @left q d a a' b _ ih =>
      rw [← Nat.add_assoc, Nat.add_right_comm] at hNew
      exact ⟨ih hDeep.1 hNew, hDeep.2⟩
  | @right q d a b b' _ ih =>
      rw [← Nat.add_assoc, Nat.add_right_comm] at hNew
      exact ⟨hDeep.1, ih hDeep.2 hNew⟩

/- A leaf is not further down than the depth. -/
theorem le_depth
    (h : Grafts p l new t t' d) :
    d ≤ t.depth := by
  induction h with
  | leaf => exact Nat.zero_le _
  | left _ ih =>
      unfold Shape.depth
      omega
  | right _ ih =>
      unfold Shape.depth
      omega

end Grafts

/- A larger height reaches as deep. -/
theorem HeavyDeep.mono
    {cfg : Config} {H H' level : Nat} {t : Shape}
    (h : HeavyDeep cfg H level t)
    (hLe : H ≤ H') :
    HeavyDeep cfg H' level t := by
  induction t generalizing level with
  | leaf p l => trivial
  | heavy p parts =>
      unfold HeavyDeep at h ⊢
      omega
  | node p left right ihLeft ihRight =>
      exact ⟨ihLeft h.1, ihRight h.2⟩

/- Without split leaves, any height will do. -/
theorem heavyDeep_of_unmarked
    (cfg : Config) (H level : Nat) {t : Shape}
    (hMarked : t.marked = false) :
    HeavyDeep cfg H level t := by
  induction t generalizing level with
  | leaf p l => trivial
  | heavy p parts => cases hMarked
  | node p left right ihLeft ihRight =>
      rw [Shape.marked, Bool.or_eq_false_iff] at hMarked
      exact ⟨ihLeft _ hMarked.1, ihRight _ hMarked.2⟩

------------------------------------------------------------
-- The Way to the Root
------------------------------------------------------------

/- The heap when a leaf was split but not yet counted. -/
structure Pending
    (cfg : Config) (tls₀ tls : Heap TlNode) (p : Nat)
    (parts : List (Nat × Nat)) (t : Shape) : Prop where
  leaf : ∃ x first, tls₀.get p = some x ∧
    parts.head?.map Prod.fst = some first ∧
    tls.get p = some { x with below := .splitNodes first }
  same : ∀ q ∈ t.addrs, q ≠ p → tls.get q = tls₀.get q
  chain : SplitChain cfg tls none parts
  apart : ∀ q ∈ t.addrs, q ∉ parts.map Prod.fst
  two : 2 ≤ parts.length

theorem Pending.mono
    {cfg : Config} {tls₀ tls : Heap TlNode} {p : Nat}
    {parts : List (Nat × Nat)} {t a : Shape}
    (h : Pending cfg tls₀ tls p parts t)
    (hSub : a.addrs ⊆ t.addrs) :
    Pending cfg tls₀ tls p parts a := by
  refine ⟨h.leaf, ?_, h.chain, ?_, h.two⟩
  · intro q hq hqp
    exact h.same q (hSub hq) hqp
  · intro q hq
    exact h.apart q (hSub hq)

/- What the way from a leaf to the root of a subtree does. -/
structure Climbed
    (cfg : Config) (tls tls' : Heap TlNode)
    (parent : Option Nat) (lo level : Nat) (t t' : Shape) :
    Prop where
  rep : Rep cfg tls' parent lo level true t'
  next : tls'.next = tls.next
  frame : ∀ q, q ∉ t.addrs → tls'.get q = tls.get q

/- The numbers of leaves on both sides of a replacement. -/
theorem Grafts.count
    {p l d : Nat} {parts : List (Nat × Nat)} {t t' : Shape}
    (h : Grafts p l (.heavy p parts) t t' d)
    (hPos : 0 < parts.length) :
    t'.count = t.count + (parts.length - 1) := by
  rcases h.leaves with ⟨ls, rs, hOld, hNew⟩
  unfold Shape.count
  rw [hOld, hNew, Shape.leaves]
  simp only [List.length_append, List.length_cons]
  omega

/- One step up, to a node with the leaf on its left. -/
private theorem updateSizes_step
    {m : Mem} {tls : Heap TlNode} {extra f q h : Nat}
    {x : TlNode}
    (hGet : tls.get q = some x) :
    updateSizes extra (f + 1) (m.withTls tls) (some q) h =
      updateSizes extra f
        (m.withTls (tls.modify q fun x =>
          { x with
            numLeaves := x.numLeaves + extra
            needsRebalance := true })) x.parent (h + 1) := by
  rw [updateSizes, Mem.tls_withTls, Mem.load_of_get hGet,
    ok_bind, Mem.setTl_withTls _ hGet, ok_bind]

/- A node that was counted up, above its new children. -/
private theorem Rep.counted
    {cfg : Config} {tls : Heap TlNode}
    {parent : Option Nat} {q lo level extra : Nat}
    {mark : Bool} {a b a' b' : Shape} {below : Below}
    (hLt : level < cfg.maxLevel)
    (hGet : tls.get q = some
      { label := BitVec.ofNat 64
          (lo + 2 ^ (cfg.maxLevel - level) - 1)
        level := level
        numLeaves := a.count + b.count
        parent := parent
        left := some a.ptr
        right := some b.ptr
        below := below
        needsRebalance := mark })
    (hLeft : Rep cfg tls (some q) lo (level + 1) a'.marked a')
    (hRight : Rep cfg tls (some q)
      (lo + 2 ^ (cfg.maxLevel - level - 1)) (level + 1)
      b'.marked b')
    (hPtrL : a'.ptr = a.ptr)
    (hPtrR : b'.ptr = b.ptr)
    (hCount : a'.count + b'.count =
      a.count + b.count + extra)
    (hqL : q ∉ a'.addrs)
    (hqR : q ∉ b'.addrs) :
    Rep cfg (tls.modify q fun x =>
        { x with
          numLeaves := x.numLeaves + extra
          needsRebalance := true }) parent lo level true
      (.node q a' b') := by
  refine ⟨hLt, ⟨below, ?_⟩, ?_, ?_⟩
  · rw [Heap.get_modify_self _ hGet, hPtrL, hPtrR, hCount]
  · apply hLeft.congr
    intro r hr
    apply Heap.get_modify_of_ne
    rintro rfl
    exact hqL hr
  · apply hRight.congr
    intro r hr
    apply Heap.get_modify_of_ne
    rintro rfl
    exact hqR hr

/- A node that is not below a replacement keeps apart. -/
private theorem Grafts.not_mem
    {p l d q : Nat} {parts : List (Nat × Nat)} {t t' : Shape}
    (h : Grafts p l (.heavy p parts) t t' d)
    (hq : q ∉ t.addrs)
    (hParts : q ∉ parts.map Prod.fst) :
    q ∉ t'.addrs := by
  rcases h.addrs with ⟨as, bs, hOld, hNew⟩
  rw [hOld, List.mem_append, List.mem_cons, not_or,
    not_or] at hq
  rw [hNew, Shape.addrs, List.mem_append, List.mem_append,
    List.mem_cons]
  rintro (h | (h | h) | h)
  · exact hq.1 h
  · exact hq.2.1 h
  · exact hParts h
  · exact hq.2.2 h

/- The leaf that is replaced is one of the addresses. -/
theorem Grafts.mem
    {p l d : Nat} {new t t' : Shape}
    (h : Grafts p l new t t' d) :
    p ∈ t.addrs := by
  rcases h.addrs with ⟨as, bs, hOld, -⟩
  rw [hOld]
  simp

/- The way up counts the new leaves and marks the nodes. -/
theorem updateSizes_path
    {cfg : Config} {m : Mem} {tls₀ tls : Heap TlNode}
    {parent : Option Nat} {p l d lo level f h : Nat}
    {parts : List (Nat × Nat)} {t t' : Shape}
    (hGraft : Grafts p l (.heavy p parts) t t' d)
    (hRep : Rep cfg tls₀ parent lo level t.marked t)
    (hNodup : t.addrs.Nodup)
    (hPending : Pending cfg tls₀ tls p parts t) :
    ∃ tls',
      updateSizes (parts.length - 1) (f + d + 1)
          (m.withTls tls) (some p) h =
        updateSizes (parts.length - 1) f (m.withTls tls')
          parent (h + d + 1) ∧
      Climbed cfg tls tls' parent lo level t t' := by
  have hTwo := hPending.two
  induction hGraft generalizing parent lo level f h with
  | leaf =>
      rcases hPending.leaf with ⟨x, first, hx, hFirst, hGet⟩
      unfold Rep at hRep
      rw [hx] at hRep
      cases hRep
      have hNot := hPending.apart p (by simp [Shape.addrs])
      refine ⟨_, updateSizes_step hGet, ⟨hTwo, ⟨first, hFirst,
        ?_⟩, ?_⟩, rfl, ?_⟩
      · rw [Heap.get_modify_self _ hGet]
        congr 2
        dsimp only
        omega
      · apply hPending.chain.congr
        intro q hq
        apply Heap.get_modify_of_ne
        rintro rfl
        exact hNot hq
      · intro q hq
        apply Heap.get_modify_of_ne
        simpa [Shape.addrs] using hq
  | @left q d a a' b hGraft ih =>
      rcases hRep with ⟨hLt, ⟨below, hGetQ⟩, hRepL, hRepR⟩
      have hSubL : a.addrs ⊆ (Shape.node q a b).addrs := by
        intro r hr
        simp [Shape.addrs, hr]
      have hq : q ∈ (Shape.node q a b).addrs := by
        simp [Shape.addrs]
      have hParts := hPending.apart q hq
      rw [Shape.addrs, List.nodup_cons, List.mem_append,
        not_or, List.nodup_append'] at hNodup
      rcases hNodup with
        ⟨⟨hqL, hqR⟩, hNodupL, hNodupR, hDisj⟩
      have hpL := hGraft.mem
      have hqp : q ≠ p := by
        rintro rfl
        exact hqL hpL
      rcases ih (f := f + 1) (h := h) hRepL hNodupL
        (hPending.mono hSubL) with ⟨tls₁, hRun, hClimbed⟩
      have hGet₁ : tls₁.get q = tls₀.get q := by
        rw [hClimbed.frame q hqL, hPending.same q hq hqp]
      have hRepR₁ : Rep cfg tls₁ (some q)
          (lo + 2 ^ (cfg.maxLevel - level - 1)) (level + 1)
          b.marked b := by
        apply hRepR.congr
        intro r hr
        have hrL : r ∉ a.addrs := fun hrL => hDisj hrL hr
        have hrp : r ≠ p := by
          rintro rfl
          exact hrL hpL
        rw [hClimbed.frame r hrL,
          hPending.same r (by simp [Shape.addrs, hr]) hrp]
      rw [hGetQ] at hGet₁
      have hRepL₁ := hClimbed.rep
      rw [← Bool.or_true a.marked,
        show true = (Shape.heavy p parts).marked from rfl,
        ← hGraft.marked] at hRepL₁
      have hCount : a'.count + b.count =
          a.count + b.count + (parts.length - 1) := by
        rw [hGraft.count (by omega)]
        omega
      have hRep' := Rep.counted hLt hGet₁ hRepL₁ hRepR₁
        (hGraft.ptr rfl) rfl hCount
        (hGraft.not_mem hqL hParts) hqR
      refine ⟨_, ?_, hRep', ?_, ?_⟩
      · rw [← Nat.add_assoc, Nat.add_right_comm f d 1, hRun,
          updateSizes_step hGet₁]
        congr 1
      · exact hClimbed.next
      · intro r hr
        rw [Shape.addrs, List.mem_cons, List.mem_append,
          not_or, not_or] at hr
        rw [Heap.get_modify_of_ne _ hr.1,
          hClimbed.frame r hr.2.1]
  | @right q d a b b' hGraft ih =>
      rcases hRep with ⟨hLt, ⟨below, hGetQ⟩, hRepL, hRepR⟩
      have hSubR : b.addrs ⊆ (Shape.node q a b).addrs := by
        intro r hr
        simp [Shape.addrs, hr]
      have hq : q ∈ (Shape.node q a b).addrs := by
        simp [Shape.addrs]
      have hParts := hPending.apart q hq
      rw [Shape.addrs, List.nodup_cons, List.mem_append,
        not_or, List.nodup_append'] at hNodup
      rcases hNodup with
        ⟨⟨hqL, hqR⟩, hNodupL, hNodupR, hDisj⟩
      have hpR := hGraft.mem
      have hqp : q ≠ p := by
        rintro rfl
        exact hqR hpR
      rcases ih (f := f + 1) (h := h) hRepR hNodupR
        (hPending.mono hSubR) with ⟨tls₁, hRun, hClimbed⟩
      have hGet₁ : tls₁.get q = tls₀.get q := by
        rw [hClimbed.frame q hqR, hPending.same q hq hqp]
      have hRepL₁ : Rep cfg tls₁ (some q) lo (level + 1)
          a.marked a := by
        apply hRepL.congr
        intro r hr
        have hrR : r ∉ b.addrs := fun hrR => hDisj hr hrR
        have hrp : r ≠ p := by
          rintro rfl
          exact hrR hpR
        rw [hClimbed.frame r hrR,
          hPending.same r (by simp [Shape.addrs, hr]) hrp]
      rw [hGetQ] at hGet₁
      have hRepR₁ := hClimbed.rep
      rw [← Bool.or_true b.marked,
        show true = (Shape.heavy p parts).marked from rfl,
        ← hGraft.marked] at hRepR₁
      have hCount : a.count + b'.count =
          a.count + b.count + (parts.length - 1) := by
        rw [hGraft.count (by omega)]
        omega
      have hRep' := Rep.counted hLt hGet₁ hRepL₁ hRepR₁
        rfl (hGraft.ptr rfl) hCount hqL
        (hGraft.not_mem hqR hParts)
      refine ⟨_, ?_, hRep', ?_, ?_⟩
      · rw [← Nat.add_assoc, Nat.add_right_comm f d 1, hRun,
          updateSizes_step hGet₁]
        congr 1
      · exact hClimbed.next
      · intro r hr
        rw [Shape.addrs, List.mem_cons, List.mem_append,
          not_or, not_or] at hr
        rw [Heap.get_modify_of_ne _ hr.1,
          hClimbed.frame r hr.2.2]

/- The record of a leaf that was not split. -/
theorem Grafts.get_leaf
    {cfg : Config} {tls : Heap TlNode}
    {parent : Option Nat} {p l d lo level : Nat}
    {new t t' : Shape}
    (hGraft : Grafts p l new t t' d)
    (hRep : Rep cfg tls parent lo level t.marked t) :
    ∃ x, tls.get p = some x ∧ x.level = cfg.maxLevel ∧
      x.left = none ∧ x.right = none ∧ x.below = .list l ∧
      x.needsRebalance = false ∧
      ((x.parent = parent ∧ p = t.ptr) ∨ x.parent ≠ none) := by
  have hOr : ∀ (x : TlNode) (q r s : Nat),
      (x.parent = some q ∧ r = s) ∨ x.parent ≠ none →
        x.parent ≠ none := by
    intro x q r s h
    rcases h with ⟨h, -⟩ | h
    · simp [h]
    · exact h
  induction hGraft generalizing parent lo level with
  | leaf =>
      exact ⟨_, hRep, rfl, rfl, rfl, rfl, rfl,
        Or.inl ⟨rfl, rfl⟩⟩
  | @left q d a a' b hGraft ih =>
      rcases ih hRep.2.2.1 with
        ⟨x, hGet, hLevel, hLeft, hRight, hBelow, hMark, hTop⟩
      exact ⟨x, hGet, hLevel, hLeft, hRight, hBelow, hMark,
        Or.inr (hOr x q _ _ hTop)⟩
  | @right q d a b b' hGraft ih =>
      rcases ih hRep.2.2.2 with
        ⟨x, hGet, hLevel, hLeft, hRight, hBelow, hMark, hTop⟩
      exact ⟨x, hGet, hLevel, hLeft, hRight, hBelow, hMark,
        Or.inr (hOr x q _ _ hTop)⟩

/- A leaf gets another list. -/
theorem Grafts.rep_relisted
    {cfg : Config} {tls tls' : Heap TlNode}
    {parent : Option Nat} {p l k d lo level : Nat}
    {x : TlNode} {t t' : Shape}
    (hGraft : Grafts p l (.leaf p k) t t' d)
    (hRep : Rep cfg tls parent lo level t.marked t)
    (hNodup : t.addrs.Nodup)
    (hGet : tls.get p = some x)
    (hNew : tls'.get p = some { x with below := .list k })
    (hSame : ∀ q ∈ t.addrs, q ≠ p →
      tls'.get q = tls.get q) :
    Rep cfg tls' parent lo level t'.marked t' := by
  induction hGraft generalizing parent lo level with
  | leaf =>
      unfold Rep at hRep ⊢
      rw [hGet] at hRep
      cases hRep
      exact hNew
  | @left q d a a' b hGraft ih =>
      rcases hRep with ⟨hLt, ⟨below, hGetQ⟩, hRepL, hRepR⟩
      rw [Shape.addrs, List.nodup_cons, List.mem_append,
        not_or, List.nodup_append'] at hNodup
      rcases hNodup with
        ⟨⟨hqL, hqR⟩, hNodupL, hNodupR, hDisj⟩
      have hpL := hGraft.mem
      have hqp : q ≠ p := by
        rintro rfl
        exact hqL hpL
      have hMarked : (Shape.node q a' b).marked =
          (Shape.node q a b).marked := by
        rw [Shape.marked, Shape.marked, hGraft.marked]
        simp [Shape.marked]
      refine ⟨hLt, ⟨below, ?_⟩, ?_, ?_⟩
      · rw [hSame q (by simp [Shape.addrs]) hqp, hGetQ,
          hMarked, hGraft.ptr rfl]
        have hCount : a'.count = a.count := by
          rcases hGraft.leaves with ⟨ls, rs, hOld, hNewL⟩
          unfold Shape.count
          rw [hOld, hNewL]
          simp [Shape.leaves]
        rw [hCount]
      · apply ih hRepL hNodupL
        intro r hr hrp
        exact hSame r (by simp [Shape.addrs, hr]) hrp
      · apply hRepR.congr
        intro r hr
        apply hSame r (by simp [Shape.addrs, hr])
        rintro rfl
        exact hDisj hpL hr
  | @right q d a b b' hGraft ih =>
      rcases hRep with ⟨hLt, ⟨below, hGetQ⟩, hRepL, hRepR⟩
      rw [Shape.addrs, List.nodup_cons, List.mem_append,
        not_or, List.nodup_append'] at hNodup
      rcases hNodup with
        ⟨⟨hqL, hqR⟩, hNodupL, hNodupR, hDisj⟩
      have hpR := hGraft.mem
      have hqp : q ≠ p := by
        rintro rfl
        exact hqR hpR
      have hMarked : (Shape.node q a b').marked =
          (Shape.node q a b).marked := by
        rw [Shape.marked, Shape.marked, hGraft.marked]
        simp [Shape.marked]
      refine ⟨hLt, ⟨below, ?_⟩, ?_, ?_⟩
      · rw [hSame q (by simp [Shape.addrs]) hqp, hGetQ,
          hMarked, hGraft.ptr rfl]
        have hCount : b'.count = b.count := by
          rcases hGraft.leaves with ⟨ls, rs, hOld, hNewL⟩
          unfold Shape.count
          rw [hOld, hNewL]
          simp [Shape.leaves]
        rw [hCount]
      · apply hRepL.congr
        intro r hr
        apply hSame r (by simp [Shape.addrs, hr])
        rintro rfl
        exact hDisj hr hpR
      · apply ih hRepR hNodupR
        intro r hr hrp
        exact hSame r (by simp [Shape.addrs, hr]) hrp

/- The addresses after a leaf became heavy. -/
theorem Grafts.nodup_heavy
    {p l d : Nat} {parts : List (Nat × Nat)} {t t' : Shape}
    (hGraft : Grafts p l (.heavy p parts) t t' d)
    (hNodup : t.addrs.Nodup)
    (hParts : (parts.map Prod.fst).Nodup)
    (hApart : ∀ q ∈ t.addrs, q ∉ parts.map Prod.fst) :
    t'.addrs.Nodup := by
  rcases hGraft.addrs with ⟨as, bs, hOld, hNew⟩
  rw [hOld] at hNodup hApart
  rw [hNew, Shape.addrs]
  simp only [List.cons_append, List.nodup_append',
    List.nodup_cons, List.disjoint_cons_right,
    List.mem_append, not_or, List.disjoint_append_right]
    at hNodup hApart ⊢
  rcases hNodup with ⟨hAs, ⟨hpBs, hBs⟩, hpAs, hDisj⟩
  refine ⟨hAs, ⟨⟨?_, hpBs⟩, hParts, hBs, ?_⟩, hpAs, ?_,
    hDisj⟩
  · exact hApart p (by simp)
  · intro q hqP hqBs
    exact hApart q (by simp [hqBs]) hqP
  · intro q hqAs hqP
    exact hApart q (by simp [hqAs]) hqP

/- The update of a way that ends at the root. -/
theorem updateSizes_none
    (extra f h : Nat) (m : Mem) :
    updateSizes extra f m none h = Except.ok (m, h) := by
  cases f <;> rfl

------------------------------------------------------------
-- Heights
------------------------------------------------------------

/- A replacement that fits keeps the number of levels. -/
theorem Grafts.within
    {p l d k : Nat} {new t t' : Shape}
    (h : Grafts p l new t t' d)
    (hOld : t.Within k)
    (hNew : new.Within (k - d)) :
    t'.Within k := by
  induction h generalizing k with
  | leaf => exact hNew
  | @left q d a a' b _ ih =>
      cases k with
      | zero => cases hOld
      | succ k =>
          rw [Nat.add_sub_add_right] at hNew
          exact ⟨ih hOld.1 hNew, hOld.2⟩
  | @right q d a b b' _ ih =>
      cases k with
      | zero => cases hOld
      | succ k =>
          rw [Nat.add_sub_add_right] at hNew
          exact ⟨hOld.1, ih hOld.2 hNew⟩

/- The height, and the number of nodes up to the root. -/
def climb (tls : Heap TlNode) : Nat → Option Nat → Nat → Nat
| 0, _, height => height
| _ + 1, none, height => height
| fuel + 1, some p, height =>
    match tls.get p with
    | some x => climb tls fuel x.parent (height + 1)
    | none => height

/- The links to the root are kept. -/
def SameParents (tls tls' : Heap TlNode) : Prop :=
  ∀ q x, tls.get q = some x →
    ∃ y, tls'.get q = some y ∧ y.parent = x.parent

theorem SameParents.refl (tls : Heap TlNode) :
    SameParents tls tls :=
  fun _ x hGet => ⟨x, hGet, rfl⟩

theorem SameParents.trans
    {tls tls' tls'' : Heap TlNode}
    (h : SameParents tls tls')
    (h' : SameParents tls' tls'') :
    SameParents tls tls'' := by
  intro q x hGet
  rcases h q x hGet with ⟨y, hGet', hy⟩
  rcases h' q y hGet' with ⟨z, hGet'', hz⟩
  exact ⟨z, hGet'', hz.trans hy⟩

theorem SameParents.modify
    (tls : Heap TlNode) (p : Nat) {f : TlNode → TlNode}
    (hf : ∀ x, (f x).parent = x.parent) :
    SameParents tls (tls.modify p f) := by
  intro q x hGet
  by_cases hq : q = p
  · rw [hq] at hGet ⊢
    exact ⟨f x, Heap.get_modify_self _ hGet, hf x⟩
  · rw [Heap.get_modify_of_ne _ hq]
    exact ⟨x, hGet, rfl⟩

/- The way up from a leaf has a node for each link. -/
theorem Grafts.climb_eq
    {cfg : Config} {tls tls' : Heap TlNode}
    {parent : Option Nat} {p l d lo level f h : Nat}
    {new t t' : Shape}
    (hGraft : Grafts p l new t t' d)
    (hRep : Rep cfg tls parent lo level t.marked t)
    (hSame : SameParents tls tls') :
    climb tls' (f + d + 1) (some p) h =
      climb tls' f parent (h + d + 1) := by
  induction hGraft generalizing parent lo level f with
  | leaf =>
      rcases hSame _ _ hRep with ⟨y, hGet, hParent⟩
      rw [climb, hGet]
      dsimp only
      rw [hParent, Nat.add_zero, Nat.add_zero]
  | @left q d a a' b _ ih =>
      rcases hRep with ⟨-, ⟨below, hGetQ⟩, hRepA, -⟩
      rcases hSame _ _ hGetQ with ⟨y, hGet, hParent⟩
      rw [show f + (d + 1) + 1 = f + 1 + d + 1 by omega,
        ih hRepA, climb, hGet]
      dsimp only
      rw [hParent]
      congr 1
  | @right q d a b b' _ ih =>
      rcases hRep with ⟨-, ⟨below, hGetQ⟩, -, hRepB⟩
      rcases hSame _ _ hGetQ with ⟨y, hGet, hParent⟩
      rw [show f + (d + 1) + 1 = f + 1 + d + 1 by omega,
        ih hRepB, climb, hGet]
      dsimp only
      rw [hParent]
      congr 1

theorem climb_none
    (tls : Heap TlNode) (f h : Nat) :
    climb tls f none h = h := by
  cases f <;> rfl

/- The way up does not change the links. -/
theorem updateSizes_parents
    {extra f h h' : Nat} {m m' : Mem} {p : Option Nat}
    (hRun : updateSizes extra f m p h = Except.ok (m', h')) :
    SameParents m.tls m'.tls := by
  induction f generalizing m p h with
  | zero =>
      cases p with
      | none =>
          cases hRun
          exact SameParents.refl _
      | some p => cases hRun
  | succ f ih =>
      cases p with
      | none =>
          cases hRun
          exact SameParents.refl _
      | some p =>
          unfold updateSizes at hRun
          rcases bind_eq_ok hRun with ⟨x, hLoad, hRun⟩
          have hGet := Mem.get_of_load hLoad
          rw [Mem.setTl_of_get _ hGet, ok_bind] at hRun
          have hRest := ih hRun
          rw [Mem.tls_mapTl] at hRest
          apply SameParents.trans _ hRest
          apply SameParents.modify
          intro y
          rfl

end OrderMaint

end PRacer
