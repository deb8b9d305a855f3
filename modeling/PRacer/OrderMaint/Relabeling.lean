import PRacer.OrderMaint.Splitting

/-
  What a relabel does to the structure.

  Main declarations:
    * `Stored.rebalance`
    * `Relabelled`, `omRelabel_spec`
    * `Trie`, `Rep.trie`
-/

namespace PRacer

open Foundations

namespace OrderMaint

------------------------------------------------------------
-- Relabeling
------------------------------------------------------------

/- Without split leaves, all leaves are plain. -/
theorem Shape.plain_of_unmarked
    {t : Shape}
    (hMarked : t.marked = false) :
    t.plain = t.leaves := by
  induction t with
  | leaf p l => rfl
  | heavy p parts => cases hMarked
  | node p left right ihLeft ihRight =>
      rw [Shape.marked, Bool.or_eq_false_iff] at hMarked
      rw [Shape.plain, Shape.leaves, ihLeft hMarked.1,
        ihRight hMarked.2]

/- A list is not changed by changes to the tree. -/
theorem sameList_withTls
    (m : Mem) (tls : Heap TlNode) (list : Nat) :
    SameList m (m.withTls tls) list := by
  refine ⟨rfl, ?_⟩
  intro ys h
  exact h.congr rfl fun _ _ => rfl

theorem ListOf.of_same
    {m m' : Mem} {x : Nat × Nat} {ys : List (Nat × Label)}
    (h : ListOf m x ys)
    (hSame : SameList m m' x.2) :
    ListOf m' x ys := by
  rcases h.above with ⟨l, hGet, hAbove⟩
  refine ⟨⟨l, ?_, hAbove⟩, hSame.linked ys h.linked⟩
  rw [hSame.record]
  exact hGet

/- The structure after a rebalance. -/
theorem Stored.rebalance
    {cfg : Config} {m : Mem} {om : Om} {t : Shape}
    {yss : List (List (Nat × Label))}
    (hCfg : cfg.WellFormed)
    (h : Stored cfg m om t yss) :
    Outcome cfg m m.tls none 0 0 t
      (omRebalance cfg m om) := by
  have hPos := hCfg.level_pos
  have hFuel : t.depth < m.tls.next + 1 := by
    have := t.depth_lt_length_addrs
    have := Heap.length_le_next h.nodup h.rep.exists_get
    omega
  unfold omRebalance
  rw [h.root]
  have hOutcome := rebalance_spec m (f := m.tls.next + 1)
    hCfg (inRange_root cfg) h.rep h.nodup (by simp)
    ⟨rfl, rfl⟩ h.deep (fun _ => hPos) hFuel
  rw [Mem.withTls_self] at hOutcome
  exact hOutcome

theorem Stored.of_rebuild
    {cfg : Config} {m : Mem} {om : Om} {t t' : Shape}
    {tls' : Heap TlNode} {yss : List (List (Nat × Label))}
    (h : Stored cfg m om t yss)
    (hRebuild : Rebuild cfg m.tls tls' none 0 0 t t') :
    Stored cfg (m.withTls tls') om t' yss := by
  constructor
  · rw [h.root, hRebuild.ptr]
  · rw [hRebuild.unmarked]
    exact hRebuild.rep
  · exact hRebuild.nodup
  · rw [hRebuild.leaves]
    apply h.lists.imp
    intro x ys hOf
    exact hOf.of_same (sameList_withTls m tls' x.2)
  · rw [hRebuild.leaves]
    exact h.nodupLists
  · exact h.nodupNodes
  · exact heavyDeep_of_unmarked cfg _ _ hRebuild.unmarked

/- What a relabel leads to. -/
structure Relabelled
    (cfg : Config) (m m' : Mem) (om om' : Om) (t t' : Shape)
    (yss yss' : List (List (Nat × Label)))
    (heavy : List Nat) : Prop where
  stored : Stored cfg m' om' t' yss'
  unmarked : t'.marked = false
  order : yss'.flatten.map Prod.fst = yss.flatten.map Prod.fst
  leaves : ∀ x ∈ t'.leaves,
    (x ∈ t.leaves ∧ x.1 ∉ heavy ∧ SameList m m' x.2) ∨
      NewList cfg m' x.2
  nodesNext : m'.nodes.next = m.nodes.next
  height : om'.height =
    (heavy.map (estimate cfg m)).foldl max om.height
  shallow : cfg.LogsBound → t.depth ≤ om.height →
    t'.depth ≤ om'.height

/- A relabel that returns. -/
theorem omRelabel_spec
    {cfg : Config} {m m' : Mem} {om om' : Om}
    {heavy : List Nat} {t : Shape}
    {yss : List (List (Nat × Label))}
    (hCfg : cfg.WellFormed)
    (hStored : Stored cfg m om t yss)
    (hMarked : t.marked = false)
    (hLeaves : ∀ p ∈ heavy, ∃ l, (p, l) ∈ t.leaves)
    (hNodup : heavy.Nodup)
    (hRun : omRelabel cfg m om heavy = Except.ok (m', om')) :
    ∃ t' yss', Relabelled cfg m m' om om' t t' yss yss' heavy := by
  unfold omRelabel at hRun
  rcases bind_eq_ok hRun with ⟨root, -, hRun⟩
  rcases bind_eq_ok hRun with ⟨⟨m₁, om₁⟩, hSplit, hRun⟩
  rcases bind_eq_ok hRun with ⟨newRoot, -, hRun⟩
  rw [← Shape.plain_of_unmarked hMarked] at hLeaves
  rcases splitAllHeavy_spec hCfg hStored hLeaves hNodup hSplit
    with ⟨t₁, yss₁, hSplits⟩
  split at hRun
  · cases hRun
  · rcases bind_eq_ok hRun with ⟨m₂, hRebalance, hRun⟩
    cases hRun
    rcases (hSplits.stored.rebalance hCfg).onOk _ hRebalance
      with ⟨tls', t₂, rfl, hRebuild⟩
    refine ⟨t₂, yss₁, hSplits.stored.of_rebuild hRebuild,
      hRebuild.unmarked, hSplits.order, ?_,
      hSplits.nodesNext, hSplits.height, ?_⟩
    · intro x hx
      have hSame := sameList_withTls m₁ tls' x.2
      rw [hRebuild.leaves] at hx
      rcases hSplits.leaves x hx with
        ⟨hOld, hNot, hSame₁⟩ | hNew
      · exact Or.inl ⟨hOld, hNot, hSame₁.trans hSame⟩
      · exact Or.inr (hNew.of_same hSame)
    · intro hLogs hDepth
      rw [← Shape.within_iff_of_unmarked hMarked] at hDepth
      exact hRebuild.shallow _ (hSplits.within hLogs hDepth)

------------------------------------------------------------
-- The Trie
------------------------------------------------------------

/-
  The records of a tree: `lo` is the left end of the range
  of the root, which is at the given level.
-/
def Trie (cfg : Config) (m : Mem)
    (parent : Option Nat) (lo level : Nat) : Shape → Prop
| .leaf p l =>
    ∃ x k, m.tls.get p = some x ∧ x.parent = parent ∧
      x.level = cfg.maxLevel ∧ x.numLeaves = 1 ∧
      x.label.toNat = lo ∧ x.left = none ∧ x.right = none ∧
      x.needsRebalance = false ∧ x.below = .list l ∧
      m.lists.get l = some k ∧ k.above = some p
| .heavy _ _ => False
| .node p left right =>
    (∃ x, m.tls.get p = some x ∧ x.parent = parent ∧
      x.level = level ∧ level < cfg.maxLevel ∧
      x.numLeaves = left.count + right.count ∧
      (rangeRight x).toNat =
        lo + 2 ^ (cfg.maxLevel - level) - 1 ∧
      (rangeLeft cfg x).toNat = lo ∧
      x.left = some left.ptr ∧ x.right = some right.ptr ∧
      x.needsRebalance = false) ∧
    Trie cfg m (some p) lo (level + 1) left ∧
    Trie cfg m (some p)
      (lo + 2 ^ (cfg.maxLevel - level - 1)) (level + 1) right

/- The label of a leaf. -/
def leafLabel (m : Mem) (p : Nat) : Label :=
  match m.tls.get p with
  | some x => x.label
  | none => 0

theorem leafLabel_of_get
    {m : Mem} {p : Nat} {x : TlNode}
    (hGet : m.tls.get p = some x) :
    leafLabel m p = x.label := by
  unfold leafLabel
  rw [hGet]

/- The labels of a tree lie in its range, in order. -/
theorem Rep.leafLabels
    {cfg : Config} {m : Mem} {parent : Option Nat}
    {lo level : Nat} {t : Shape}
    (hCfg : cfg.WellFormed)
    (hRange : InRange cfg lo level)
    (hRep : Rep cfg m.tls parent lo level false t)
    (hMarked : t.marked = false) :
    (∀ x ∈ t.leaves, lo ≤ (leafLabel m x.1).toNat ∧
      (leafLabel m x.1).toNat <
        lo + 2 ^ (cfg.maxLevel - level)) ∧
      t.leaves.Pairwise fun x y =>
        leafLabel m x.1 < leafLabel m y.1 := by
  induction t generalizing parent lo level with
  | leaf p l =>
      have hWord := hRange.lt_word hCfg
      have hPow : 0 < 2 ^ (cfg.maxLevel - level) :=
        Nat.pow_pos (by omega)
      refine ⟨?_, List.pairwise_singleton _ _⟩
      intro x hx
      rw [Shape.leaves, List.mem_singleton] at hx
      subst hx
      rw [leafLabel_of_get hRep]
      dsimp only
      rw [toNat_label (by omega)]
      omega
  | heavy p parts => cases hMarked
  | node p left right ihLeft ihRight =>
      rcases hRep with ⟨hLt, -, hLeft, hRight⟩
      rw [Shape.marked, Bool.or_eq_false_iff] at hMarked
      rw [hMarked.1] at hLeft
      rw [hMarked.2] at hRight
      have hTwo := InRange.two_mul hLt
      have hSub : cfg.maxLevel - (level + 1) =
          cfg.maxLevel - level - 1 := by
        omega
      rcases ihLeft (hRange.left hLt) hLeft hMarked.1 with
        ⟨hBoundL, hPairL⟩
      rcases ihRight (hRange.right hLt) hRight hMarked.2 with
        ⟨hBoundR, hPairR⟩
      rw [hSub] at hBoundL hBoundR
      rw [Shape.leaves]
      constructor
      · intro x hx
        rw [List.mem_append] at hx
        rcases hx with hx | hx
        · have := hBoundL x hx
          omega
        · have := hBoundR x hx
          omega
      · rw [List.pairwise_append]
        refine ⟨hPairL, hPairR, ?_⟩
        intro x hx y hy
        have := hBoundL x hx
        have := hBoundR y hy
        rw [BitVec.lt_def]
        omega

/- A structure without split leaves holds a trie. -/
theorem Rep.trie
    {cfg : Config} {m : Mem} {parent : Option Nat}
    {lo level : Nat} {t : Shape}
    (hCfg : cfg.WellFormed)
    (hRange : InRange cfg lo level)
    (hRoot : parent = none → lo = 0)
    (hChild : parent ≠ none → 0 < level)
    (hRep : Rep cfg m.tls parent lo level false t)
    (hMarked : t.marked = false)
    (hLists : ∀ x ∈ t.leaves, ∃ k,
      m.lists.get x.2 = some k ∧ k.above = some x.1) :
    Trie cfg m parent lo level t := by
  have hWord := hRange.lt_word hCfg
  have hPow : 0 < 2 ^ (cfg.maxLevel - level) :=
    Nat.pow_pos (by omega)
  induction t generalizing parent lo level with
  | leaf p l =>
      rcases hLists (p, l) (by simp [Shape.leaves]) with
        ⟨k, hList, hAbove⟩
      refine ⟨_, k, hRep, rfl, rfl, rfl, ?_, rfl, rfl, rfl,
        rfl, hList, hAbove⟩
      exact toNat_label (by omega)
  | heavy p parts => cases hMarked
  | node p left right ihLeft ihRight =>
      rcases hRep with ⟨hLt, ⟨below, hGet⟩, hLeft, hRight⟩
      rw [Shape.marked, Bool.or_eq_false_iff] at hMarked
      rw [hMarked.1] at hLeft
      rw [hMarked.2] at hRight
      have hRangeL := hRange.left hLt
      have hRangeR := hRange.right hLt
      refine ⟨⟨_, hGet, rfl, rfl, hLt, rfl, ?_, ?_, rfl, rfl,
        rfl⟩, ?_, ?_⟩
      · unfold rangeRight
        exact toNat_label (by omega)
      · rw [rangeLeft_eq hCfg hRange rfl rfl hRoot hChild]
        exact toNat_label (by omega)
      · apply ihLeft hRangeL (by simp) (by simp) hLeft
          hMarked.1
        · intro x hx
          apply hLists
          rw [Shape.leaves, List.mem_append]
          exact Or.inl hx
        · exact hRangeL.lt_word hCfg
        · exact Nat.pow_pos (by omega)
      · apply ihRight hRangeR (by simp) (by simp) hRight
          hMarked.2
        · intro x hx
          apply hLists
          rw [Shape.leaves, List.mem_append]
          exact Or.inr hx
        · exact hRangeR.lt_word hCfg
        · exact Nat.pow_pos (by omega)

/- The lists below the leaves point back to them. -/
theorem Stored.lists_above
    {cfg : Config} {m : Mem} {om : Om} {t : Shape}
    {yss : List (List (Nat × Label))}
    (h : Stored cfg m om t yss) :
    ∀ x ∈ t.leaves, ∃ k,
      m.lists.get x.2 = some k ∧ k.above = some x.1 := by
  intro x hx
  have hLists := h.lists
  rcases List.mem_iff_append.mp hx with ⟨ls, rs, hSplit⟩
  rw [hSplit] at hLists
  rcases forall₂_middle hLists with
    ⟨us, ys, vs, -, -, hOf, -⟩
  exact hOf.above

end OrderMaint

end PRacer
