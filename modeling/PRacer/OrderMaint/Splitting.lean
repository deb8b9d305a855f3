import PRacer.OrderMaint.Stored

/-
  Splitting the lists of heavy leaves.

  Main declarations:
    * `Splits`
    * `splitHeavy_short`
    * `splitHeavy_spec`, `splitAllHeavy_spec`
-/

namespace PRacer

open Foundations

namespace OrderMaint

------------------------------------------------------------
-- Replacing a List
------------------------------------------------------------

/- What splitting the lists of some leaves leads to. -/
structure Splits
    (cfg : Config) (m m' : Mem) (om om' : Om) (t t' : Shape)
    (yss yss' : List (List (Nat × Label)))
    (heavy : List Nat) : Prop where
  stored : Stored cfg m' om' t' yss'
  order : yss'.flatten.map Prod.fst = yss.flatten.map Prod.fst
  leaves : ∀ x ∈ t'.leaves,
    (x ∈ t.leaves ∧ x.1 ∉ heavy ∧ SameList m m' x.2) ∨
      NewList cfg m' x.2
  plain : ∀ x ∈ t.plain, x.1 ∉ heavy → x ∈ t'.plain
  root : om'.root = t.ptr
  nodesNext : m'.nodes.next = m.nodes.next
  junk : m'.junk = m.junk
  sizes : ∀ x ∈ t.plain, x.1 ∉ heavy →
    leafSize m' x.1 = leafSize m x.1
  count : t'.count =
    t.count + (heavy.map (extraLeaves cfg m)).sum
  marked : t'.marked =
    (t.marked || heavy.any fun p => 0 < extraLeaves cfg m p)
  isNode : t'.isNode = t.isNode
  estimates : ∀ x ∈ t.plain, x.1 ∉ heavy →
    estimate cfg m' x.1 = estimate cfg m x.1
  height : om'.height =
    (heavy.map (estimate cfg m)).foldl max om.height
  within : cfg.LogsBound → t.Within om.height →
    t'.Within om'.height

/- The nodes of the new lists. -/
private theorem map_fst_flatten_spaced
    (cfg : Config) (chunks : List (List Nat)) :
    (chunks.map (spaced cfg 0)).flatten.map Prod.fst =
      chunks.flatten := by
  induction chunks with
  | nil => rfl
  | cons c chunks ih =>
      rw [List.map_cons, List.flatten_cons, List.map_append,
        ih, map_fst_spaced, List.flatten_cons]

/- The lists when one was replaced by new ones. -/
structure Replaced
    (cfg : Config) (m m' : Mem) (l : Nat)
    (new : List (Nat × Nat)) (chunks : List (List Nat))
    (xs : List (Nat × Label)) : Prop where
  flatten : chunks.flatten = xs.map Prod.fst
  lists : List.Forall₂ (ListOf m') new
    (chunks.map (spaced cfg 0))
  newList : ∀ x ∈ new, NewList cfg m' x.2
  fresh : ∀ x ∈ new, m.lists.next ≤ x.2
  nodup : (new.map Prod.snd).Nodup
  otherLists : ∀ k, k < m.lists.next → k ≠ l →
    m'.lists.get k = m.lists.get k
  otherNodes : ∀ p, p ∉ xs.map Prod.fst →
    m'.nodes.get p = m.nodes.get p
  nodesNext : m'.nodes.next = m.nodes.next
  junk : m'.junk = m.junk

/- The lists of the other leaves and the new lists. -/
private theorem Replaced.stored
    {cfg : Config} {m m' : Mem} {p l : Nat}
    {ls rs new : List (Nat × Nat)}
    {chunks : List (List Nat)}
    {us vs : List (List (Nat × Label))}
    {xs : List (Nat × Label)}
    (h : Replaced cfg m m' l new chunks xs)
    (hLeft : List.Forall₂ (ListOf m) ls us)
    (hRight : List.Forall₂ (ListOf m) rs vs)
    (hLists : ((ls ++ (p, l) :: rs).map Prod.snd).Nodup)
    (hNodes :
      ((us ++ xs :: vs).flatten.map Prod.fst).Nodup) :
    List.Forall₂ (ListOf m') (ls ++ (new ++ rs))
        (us ++ (chunks.map (spaced cfg 0) ++ vs)) ∧
      ((ls ++ (new ++ rs)).map Prod.snd).Nodup ∧
      (us ++ (chunks.map (spaced cfg 0) ++ vs)).flatten.map
          Prod.fst =
        (us ++ xs :: vs).flatten.map Prod.fst ∧
      ∀ x ∈ ls ++ rs, SameList m m' x.2 := by
  have hOrder :
      (us ++ (chunks.map (spaced cfg 0) ++ vs)).flatten.map
          Prod.fst =
        (us ++ xs :: vs).flatten.map Prod.fst := by
    simp only [List.flatten_append, List.flatten_cons,
      List.map_append, map_fst_flatten_spaced, h.flatten]
  simp only [List.flatten_append, List.flatten_cons,
    List.map_append, List.nodup_append'] at hNodes
  rcases hNodes with
    ⟨-, ⟨-, -, hXsVs⟩, hUs⟩
  simp only [List.map_append, List.map_cons,
    List.nodup_append', List.nodup_cons,
    List.disjoint_cons_right] at hLists
  rcases hLists with ⟨hNodupL, ⟨hlR, hNodupR⟩, hlL, hDisj⟩
  have hLtL := lists_lt_next hLeft
  have hLtR := lists_lt_next hRight
  rcases lists_same m' hLeft
    (by
      intro x hx
      apply h.otherLists x.2 (hLtL x hx)
      rintro rfl
      exact hlL (List.mem_map_of_mem hx))
    (by
      intro ys hys q hq
      apply h.otherNodes q
      intro hqXs
      exact hUs (mem_flatten_map hys hq)
        (List.mem_append_left _ hqXs)) with
    ⟨hLeft', hSameL⟩
  rcases lists_same m' hRight
    (by
      intro x hx
      apply h.otherLists x.2 (hLtR x hx)
      rintro rfl
      exact hlR (List.mem_map_of_mem hx))
    (by
      intro ys hys q hq
      apply h.otherNodes q
      intro hqXs
      exact hXsVs hqXs (mem_flatten_map hys hq)) with
    ⟨hRight', hSameR⟩
  have hNew : ∀ k ∈ new.map Prod.snd, m.lists.next ≤ k := by
    intro k hk
    rw [List.mem_map] at hk
    rcases hk with ⟨x, hx, rfl⟩
    exact h.fresh x hx
  refine ⟨?_, ?_, hOrder, ?_⟩
  · exact List.rel_append hLeft'
      (List.rel_append h.lists hRight')
  · simp only [List.map_append, List.nodup_append',
      List.disjoint_append_right]
    refine ⟨hNodupL, ⟨h.nodup, hNodupR, ?_⟩, ?_, hDisj⟩
    · intro k hkNew hkR
      have := hNew k hkNew
      rw [List.mem_map] at hkR
      rcases hkR with ⟨x, hx, rfl⟩
      have := hLtR x hx
      omega
    · intro k hkL hkNew
      have := hNew k hkNew
      rw [List.mem_map] at hkL
      rcases hkL with ⟨x, hx, rfl⟩
      have := hLtL x hx
      omega
  · intro x hx
    rw [List.mem_append] at hx
    rcases hx with hx | hx
    · exact hSameL x hx
    · exact hSameR x hx

/- A leaf that was replaced, together with its list. -/
private theorem Replaced.splits
    {cfg : Config} {m m' : Mem} {om om' : Om}
    {p l d : Nat} {new t t' : Shape}
    {yss us vs : List (List (Nat × Label))}
    {ls rs : List (Nat × Nat)} {chunks : List (List Nat)}
    {xs : List (Nat × Label)}
    (hStored : Stored cfg m om t yss)
    (hGraft : Grafts p l new t t' d)
    (hPtr : new.ptr = p)
    (hOld : t.leaves = ls ++ (p, l) :: rs)
    (hNew : t'.leaves = ls ++ (new.leaves ++ rs))
    (hYss : yss = us ++ xs :: vs)
    (hLeft : List.Forall₂ (ListOf m) ls us)
    (hRight : List.Forall₂ (ListOf m) rs vs)
    (h : Replaced cfg m m' l new.leaves chunks xs)
    (hRep : Rep cfg m'.tls none 0 0 t'.marked t')
    (hNodup : t'.addrs.Nodup)
    (hDeep : HeavyDeep cfg om'.height 0 t')
    (hRoot : om'.root = om.root)
    (hCount : new.count = extraLeaves cfg m p + 1)
    (hMarked : new.marked =
      decide (0 < extraLeaves cfg m p))
    (hLeaf : new.isNode = false)
    (hParents : SameParents m.tls m'.tls)
    (hNext : m.tls.next ≤ m'.tls.next)
    (hHeight : om'.height =
      max om.height (estimate cfg m p))
    (hWithin : cfg.LogsBound → t.Within om.height →
      t'.Within om'.height) :
    Splits cfg m m' om om' t t' yss
      (us ++ (chunks.map (spaced cfg 0) ++ vs)) [p] := by
  have hLists := hStored.nodupLists
  have hNodes := hStored.nodupNodes
  have hAddrs := hStored.nodup.sublist t.leaves_sublist_addrs
  rw [hOld] at hLists hAddrs
  rw [hYss] at hNodes
  rcases h.stored hLeft hRight hLists hNodes with
    ⟨hForall, hNodupLists, hOrder, hSame⟩
  have hSizes : ∀ x ∈ t.plain, x.1 ≠ p →
      leafSize m' x.1 = leafSize m x.1 ∧
        estimate cfg m' x.1 = estimate cfg m x.1 := by
    intro x hx hNe
    rcases Grafts.exists_of_plain hx with
      ⟨as, bs, i, hAt, hAll⟩
    rcases hAll (.leaf x.1 x.2) with ⟨u, hGraftX, -⟩
    rcases hGraftX.get_leaf hStored.rep with
      ⟨y, hGetY, -, -, -, hBelowY, -, -⟩
    rcases Grafts.exists_of_plain (hGraft.plain hx hNe) with
      ⟨as', bs', i', -, hAll'⟩
    rcases hAll' (.leaf x.1 x.2) with ⟨u', hGraftX', -⟩
    rcases hGraftX'.get_leaf hRep with
      ⟨z, hGetZ, -, -, -, hBelowZ, -, -⟩
    have hMem : x ∈ ls ++ rs := by
      have hLeaf : x ∈ t.leaves := by
        rw [hAt]
        simp
      rw [hOld, List.mem_append, List.mem_cons] at hLeaf
      rw [List.mem_append]
      rcases hLeaf with h | rfl | h
      · exact Or.inl h
      · exact absurd rfl hNe
      · exact Or.inr h
    rcases exists_listOf_of_mem
      (List.rel_append hLeft hRight) hMem with ⟨zs, hOf⟩
    have hEq : leafSize m' x.1 = leafSize m x.1 := by
      rw [leafSize_eq hGetY hBelowY hOf.linked,
        leafSize_eq hGetZ hBelowZ
          ((hSame x hMem).linked zs hOf.linked)]
    refine ⟨hEq, ?_⟩
    unfold estimate
    dsimp only
    rw [hEq, hStored.climb_eq hGraftX hParents hNext,
      hStored.climb_eq hGraftX (SameParents.refl _)
        (Nat.le_refl _)]
  have hNe : ∀ x ∈ ls ++ rs, x.1 ≠ p := by
    rintro x hx rfl
    simp only [List.map_append, List.map_cons,
      List.nodup_append', List.nodup_cons,
      List.disjoint_cons_right] at hAddrs
    rw [List.mem_append] at hx
    rcases hx with hx | hx
    · exact hAddrs.2.2.1 (List.mem_map_of_mem hx)
    · exact hAddrs.2.1.1 (List.mem_map_of_mem hx)
  constructor
  · constructor
    · rw [hRoot, hStored.root, hGraft.ptr hPtr]
    · exact hRep
    · exact hNodup
    · rw [hNew]
      exact hForall
    · rw [hNew]
      exact hNodupLists
    · rw [hOrder]
      exact hNodes
    · exact hDeep
  · rw [hOrder, hYss]
  · intro x hx
    rw [hNew, List.mem_append, List.mem_append] at hx
    have hKept : x ∈ ls ++ rs →
        x ∈ t.leaves ∧ x.1 ∉ [p] ∧ SameList m m' x.2 := by
      intro hMem
      refine ⟨?_, ?_, hSame x hMem⟩
      · rw [hOld, List.mem_append, List.mem_cons]
        rw [List.mem_append] at hMem
        rcases hMem with hMem | hMem
        · exact Or.inl hMem
        · exact Or.inr (Or.inr hMem)
      · rw [List.mem_singleton]
        exact hNe x hMem
    rcases hx with hx | hx | hx
    · exact Or.inl (hKept (List.mem_append_left _ hx))
    · exact Or.inr (h.newList x hx)
    · exact Or.inl (hKept (List.mem_append_right _ hx))
  · intro x hx hxp
    rw [List.mem_singleton] at hxp
    exact hGraft.plain hx hxp
  · rw [hRoot, hStored.root]
  · exact h.nodesNext
  · exact h.junk
  · intro x hx hxp
    rw [List.mem_singleton] at hxp
    exact (hSizes x hx hxp).1
  · have hCounts := hGraft.leaves
    rcases hCounts with ⟨as, bs, hAs, hBs⟩
    unfold Shape.count at hCount ⊢
    rw [hAs, hBs, List.length_append, List.length_append,
      List.length_append, List.length_cons, hCount,
      List.map_singleton, List.sum_singleton]
    omega
  · rw [hGraft.marked, hMarked, List.any_cons, List.any_nil,
      Bool.or_false]
  · exact hGraft.isNode hLeaf
  · intro x hx hxp
    rw [List.mem_singleton] at hxp
    exact (hSizes x hx hxp).2
  · exact hHeight
  · exact hWithin

/- The new lists of a leaf that was split. -/
private theorem SplitList.replaced
    {cfg : Config} {m m₁ m' : Mem} {l p : Nat} {a : TlNode}
    {xs : List (Nat × Label)}
    {parts : List (Nat × Nat)} {chunks : List (List Nat)}
    (h : SplitList cfg m m₁ l p a (xs.map Prod.fst) parts
      chunks)
    (hNodes : m'.nodes = m₁.nodes)
    (hLists : m'.lists = m₁.lists)
    (hJunk : m'.junk = m₁.junk) :
    Replaced cfg m m' l parts chunks xs := by
  have hLinked : ∀ k ys, Linked m₁ k ys → Linked m' k ys := by
    intro k ys hk
    apply hk.congr
    · rw [hLists]
    · intro q _
      rw [hNodes]
  constructor
  · exact h.flatten
  · rw [List.forall₂_map_right_iff]
    apply h.lists.imp
    intro part ps hOf
    rcases hOf.list with ⟨k, hGet, hAbove, -⟩
    refine ⟨⟨k, ?_, hAbove⟩, hLinked _ _ hOf.linked⟩
    rw [hLists]
    exact hGet
  · intro x hx
    rcases List.mem_iff_append.mp hx with ⟨ls, rs, rfl⟩
    rcases forall₂_middle h.lists with
      ⟨us, ps, vs, -, -, hOf, -⟩
    rcases hOf.list with ⟨k, hGet, -, hHeavy⟩
    refine ⟨k, ps, ?_, hHeavy, hLinked _ _ hOf.linked,
      hOf.nonempty, hOf.length_le⟩
    rw [hLists]
    exact hGet
  · intro x hx
    exact (h.fresh x hx).2
  · exact h.nodupLists
  · intro k hk hkl
    rw [hLists]
    exact h.otherLists k hk hkl
  · intro q hq
    rw [hNodes]
    exact h.otherNodes q hq
  · rw [hNodes]
    exact h.nodesNext
  · rw [hJunk]
    exact h.junk

------------------------------------------------------------
-- Splitting the List of a Leaf
------------------------------------------------------------

/- A split keeps the links of the tree. -/
theorem SplitList.sameParents
    {cfg : Config} {m m₁ : Mem} {l p : Nat} {a : TlNode}
    {ps : List Nat}
    {parts : List (Nat × Nat)} {chunks : List (List Nat)}
    (h : SplitList cfg m m₁ l p a ps parts chunks)
    (hGet : m.tls.get p = some a) :
    SameParents m.tls m₁.tls := by
  intro q x hGetQ
  by_cases hq : q = p
  · rw [hq] at hGetQ ⊢
    cases hGet.symm.trans hGetQ
    rcases h.opened with ⟨first, -, hOpened⟩
    exact ⟨_, hOpened, rfl⟩
  · rw [h.otherTls q (Heap.lt_next hGetQ) hq]
    exact ⟨x, hGetQ, rfl⟩

/- The leaf is still linked to the tree above it. -/
private theorem SplitList.pending
    {cfg : Config} {m m₁ : Mem} {l p : Nat} {a : TlNode}
    {ps : List Nat} {t : Shape}
    {parts : List (Nat × Nat)} {chunks : List (List Nat)}
    (h : SplitList cfg m m₁ l p a ps parts chunks)
    (hGet : m.tls.get p = some a)
    (hLt : ∀ q ∈ t.addrs, q < m.tls.next)
    (hTwo : 2 ≤ parts.length) :
    Pending cfg m.tls m₁.tls p parts t := by
  refine ⟨?_, ?_, h.chain, ?_, hTwo⟩
  · rcases h.opened with ⟨first, hFirst, hOpened⟩
    exact ⟨a, first, hGet, hFirst, hOpened⟩
  · intro q hq hqp
    exact h.otherTls q (hLt q hq) hqp
  · intro q hq hMem
    rw [List.mem_map] at hMem
    rcases hMem with ⟨x, hx, rfl⟩
    have := hLt _ hq
    have := (h.fresh x hx).1
    omega

/- A leaf whose list was split into several lists. -/
private theorem splitHeavy_many
    {cfg : Config} {m m₁ m' : Mem} {om om' : Om}
    {p l d : Nat} {a : TlNode} {t t' : Shape}
    {yss us vs : List (List (Nat × Label))}
    {ls rs parts : List (Nat × Nat)}
    {chunks : List (List Nat)} {xs : List (Nat × Label)}
    (hStored : Stored cfg m om t yss)
    (hGraft : Grafts p l (.heavy p parts) t t' d)
    (hOld : t.leaves = ls ++ (p, l) :: rs)
    (hNew : t'.leaves = ls ++ (parts ++ rs))
    (hYss : yss = us ++ xs :: vs)
    (hLeft : List.Forall₂ (ListOf m) ls us)
    (hRight : List.Forall₂ (ListOf m) rs vs)
    (hSplit : SplitList cfg m m₁ l p a (xs.map Prod.fst)
      parts chunks)
    (hGet : m.tls.get p = some a)
    (hSize : leafSize m p = xs.length)
    (hWords : xs.length ≤ 2 ^ 64)
    (hEnds : a.left = none ∧ a.right = none)
    (hTwo : 2 ≤ parts.length)
    (hRun : (do
      let m ← m₁.setTl p fun x =>
        { x with left := none, right := none }
      let (m, height) ←
        updateSizes (parts.length - 1) (m.tls.next + 1) m
          (some p) (fastLog2Ceil cfg parts.length - 1)
      return (m, { om with height := max om.height height })) =
        Except.ok (m', om')) :
    Splits cfg m m' om om' t t' yss
      (us ++ (chunks.map (spaced cfg 0) ++ vs)) [p] := by
  have hOldLt := hStored.rep.lt_next
  have hPending := hSplit.pending hGet hOldLt hTwo
  rcases hSplit.opened with ⟨first, hFirst, hOpened⟩
  have hSet : m₁.setTl p (fun x =>
      { x with left := none, right := none }) =
        Except.ok m₁ := by
    rw [Mem.setTl_of_get _ hOpened]
    congr 1
    unfold Mem.mapTl
    rw [Heap.modify_eq_self hOpened]
    rcases a with ⟨lab, level, count, parent, left, right,
      below, mark⟩
    rcases hEnds with ⟨rfl, rfl⟩
    rfl
  have hNext := hSplit.tlsNext
  have hDepth := hStored.depth_le hGraft
  obtain ⟨f, hf⟩ : ∃ f, m₁.tls.next + 1 = f + d + 1 :=
    ⟨m₁.tls.next - d, by omega⟩
  rcases updateSizes_path (f := f) (m := m₁)
    (h := fastLog2Ceil cfg parts.length - 1) hGraft
    hStored.rep hStored.nodup hPending with
    ⟨tls', hUpdate, hClimbed⟩
  rw [Mem.withTls_self, ← hf, updateSizes_none] at hUpdate
  rw [hSet, ok_bind, hUpdate, ok_bind] at hRun
  cases hRun
  have hParents : SameParents m.tls tls' := by
    apply SameParents.trans _ (updateSizes_parents hUpdate)
    exact hSplit.sameParents hGet
  have hEstimate : estimate cfg m p =
      fastLog2Ceil cfg parts.length - 1 + d + 1 := by
    unfold estimate
    dsimp only
    rw [hStored.climb_eq hGraft (SameParents.refl _)
      (Nat.le_refl _), hSize, ← List.length_map Prod.fst,
      ← hSplit.count, if_pos (by omega)]
  have hMarked : t'.marked = true := by
    rw [hGraft.marked]
    simp [Shape.marked]
  have hLog := fastLog2Ceil_pos cfg hTwo
  have hExtra : extraLeaves cfg m p = parts.length - 1 := by
    unfold extraLeaves
    rw [hSize, hSplit.count, List.length_map]
  apply Replaced.splits hStored hGraft rfl hOld hNew hYss
    hLeft hRight
  · exact hSplit.replaced rfl rfl rfl
  · rw [hMarked]
    exact hClimbed.rep
  · exact hGraft.nodup_heavy hStored.nodup hSplit.nodupTls
      hPending.apart
  · apply hGraft.heavyDeep
    · exact hStored.deep.mono (le_max_left _ _)
    · unfold HeavyDeep
      dsimp only
      omega
  · rfl
  · rw [Shape.count_heavy]
    omega
  · rw [Shape.marked, eq_comm, decide_eq_true_iff]
    omega
  · rfl
  · exact hParents
  · rw [Mem.tls_withTls, hClimbed.next]
    exact hNext
  · rw [hEstimate]
  · intro hLogs hOldWithin
    apply hGraft.within (hOldWithin.mono (le_max_left _ _))
    have hFew : parts.length ≤
        numSublists cfg (2 ^ 64) := by
      rw [hSplit.count, List.length_map]
      exact numSublists_mono cfg hWords
    have hLog' := hLogs _ hFew
    have hFits : (Shape.heavy p parts).Within
        (fastLog2Ceil cfg parts.length) :=
      Shape.within_heavy.mpr hLog'
    apply hFits.mono
    omega

/- What is left of a split into a single new list. -/
structure Relisted
    (cfg : Config) (m m' : Mem) (p n k : Nat) (a : TlNode)
    (ps : List Nat) : Prop where
  leaf : m'.tls.get p = some { a with below := .list k }
  freed : m'.tls.get n = none
  otherTls : ∀ q, q ≠ p → q ≠ n →
    m'.tls.get q = m.tls.get q
  list : ∃ r, m'.lists.get k = some r ∧
    r.above = some p ∧ r.heavy = false
  linked : Linked m' k (spaced cfg 0 ps)
  otherLists : ∀ q, q ≠ k → m'.lists.get q = m.lists.get q
  nodes : m'.nodes = m.nodes
  junk : m'.junk = m.junk
  tlsNext : m'.tls.next = m.tls.next

/- A single new list is put below the leaf. -/
theorem SplitList.relist
    {cfg : Config} {m m₁ : Mem} {α : Type} {o : α}
    {p l n k : Nat} {a : TlNode} {qs ps : List Nat}
    (h : SplitList cfg m m₁ l p a qs [(n, k)] [ps])
    (hGet : m.tls.get p = some a)
    (hMark : a.needsRebalance = false) :
    ∃ m', (do
        let m ← m₁.setTl p fun x =>
          { x with needsRebalance := false }
        let x ← Mem.load m.tls p
        let node ← x.below.asSplitNodes
        let s ← Mem.load m.tls node
        let list ← s.below.asList
        let m ← m.setTl node fun s =>
          { s with level := cfg.maxLevel }
        let m ← tlNodeFree m node
        let m ← m.setTl p fun x =>
          { x with below := .list list }
        let m ← m.setList list fun l =>
          { l with above := some p }
        return (m, o)) = Except.ok (m', o) ∧
      Relisted cfg m₁ m' p n k a ps := by
  have hp := Heap.lt_next hGet
  have hFresh := h.fresh (n, k) (by simp)
  dsimp only at hFresh
  have hnp : p ≠ n := by omega
  have hOf : PartOf cfg m₁ (n, k) ps := by
    have := h.lists
    rw [List.forall₂_cons] at this
    exact this.1
  rcases hOf.list with ⟨r, hList, -, hHeavy⟩
  rcases h.opened with ⟨first, hFirst, hOpened⟩
  cases hFirst
  rcases h.chain.1 with ⟨s, hs, -, -, hBelow, -, -⟩
  have hSet : m₁.setTl p (fun x =>
      { x with needsRebalance := false }) = Except.ok m₁ := by
    rw [Mem.setTl_of_get _ hOpened]
    congr 1
    unfold Mem.mapTl
    rw [Heap.modify_eq_self hOpened]
    rcases a with ⟨lab, level, count, parent, left, right,
      below, mark⟩
    cases hMark
    rfl
  have hFree : tlNodeFree (m₁.mapTl n fun s =>
      { s with level := cfg.maxLevel }) n =
        Except.ok (m₁.withTls ((m₁.tls.modify n fun s =>
          { s with level := cfg.maxLevel }).free n)) := by
    unfold tlNodeFree
    rw [Mem.tls_mapTl,
      Mem.load_of_get (Heap.get_modify_self _ hs), ok_bind]
    rfl
  have hGetP : ((m₁.tls.modify n fun s =>
      { s with level := cfg.maxLevel }).free n).get p =
        some { a with below := .splitNodes n } := by
    rw [Heap.get_free, if_neg hnp,
      Heap.get_modify_of_ne _ hnp]
    exact hOpened
  have hSetList : ∀ tls, ((m₁.withTls tls).setList k fun l =>
      { l with above := some p }) =
        Except.ok ((m₁.withTls tls).mapList k fun l =>
          { l with above := some p }) := by
    intro tls
    exact Mem.setList_of_get _ hList
  rw [hSet, ok_bind, Mem.load_of_get hOpened, ok_bind]
  dsimp only [Below.asSplitNodes]
  rw [ok_bind, Mem.load_of_get hs, ok_bind, hBelow]
  dsimp only [Below.asList]
  rw [ok_bind, Mem.setTl_of_get _ hs, ok_bind, hFree, ok_bind,
    Mem.setTl_withTls _ hGetP, ok_bind, hSetList, ok_bind]
  have hNewP := Heap.get_modify_self
    (fun x : TlNode => { x with below := .list k }) hGetP
  refine ⟨_, rfl, ?_⟩
  constructor
  · exact hNewP
  · rw [Mem.tls_mapList, Mem.tls_withTls,
      Heap.get_modify_of_ne _ hnp.symm, Heap.get_free,
      if_pos rfl]
  · intro q hqp hqn
    rw [Mem.tls_mapList, Mem.tls_withTls,
      Heap.get_modify_of_ne _ hqp, Heap.get_free,
      if_neg hqn, Heap.get_modify_of_ne _ hqn]
  · exact ⟨_, Heap.get_modify_self _ hList, rfl, hHeavy⟩
  · rcases hOf.linked.ends with ⟨r', hList', hHead, hTail⟩
    exact ⟨⟨_, Heap.get_modify_self _ hList', hHead, hTail⟩,
      hOf.linked.chain, hOf.linked.sorted⟩
  · intro q hq
    exact Heap.get_modify_of_ne _ hq
  · rfl
  · rfl
  · rfl

/- A leaf whose list was moved to a single new list. -/
private theorem splitHeavy_one
    {cfg : Config} {m m₁ m' : Mem} {om om' : Om}
    {p l d n k : Nat} {a : TlNode} {t t' : Shape}
    {yss us vs : List (List (Nat × Label))}
    {ls rs : List (Nat × Nat)}
    {ps : List Nat} {xs : List (Nat × Label)}
    (hStored : Stored cfg m om t yss)
    (hGraft : Grafts p l (.leaf p k) t t' d)
    (hOld : t.leaves = ls ++ (p, l) :: rs)
    (hNew : t'.leaves = ls ++ ([(p, k)] ++ rs))
    (hYss : yss = us ++ xs :: vs)
    (hLeft : List.Forall₂ (ListOf m) ls us)
    (hRight : List.Forall₂ (ListOf m) rs vs)
    (hSplit : SplitList cfg m m₁ l p a (xs.map Prod.fst)
      [(n, k)] [ps])
    (hGet : m.tls.get p = some a)
    (hSize : leafSize m p = xs.length)
    (hMark : a.needsRebalance = false)
    (hRun : (do
      let m ← m₁.setTl p fun x =>
        { x with needsRebalance := false }
      let x ← Mem.load m.tls p
      let node ← x.below.asSplitNodes
      let s ← Mem.load m.tls node
      let list ← s.below.asList
      let m ← m.setTl node fun s =>
        { s with level := cfg.maxLevel }
      let m ← tlNodeFree m node
      let m ← m.setTl p fun x => { x with below := .list list }
      let m ← m.setList list fun l => { l with above := some p }
      return (m, om)) =
        Except.ok (m', om')) :
    Splits cfg m m' om om' t t' yss
      (us ++ ([ps].map (spaced cfg 0) ++ vs)) [p] := by
  have hOldLt := hStored.rep.lt_next
  have hFresh := hSplit.fresh (n, k) (by simp)
  dsimp only at hFresh
  have hOf : PartOf cfg m₁ (n, k) ps := by
    have := hSplit.lists
    rw [List.forall₂_cons] at this
    exact this.1
  rcases hSplit.relist (o := om) hGet hMark with
    ⟨m₂, hRun₂, hRelisted⟩
  rw [hRun₂] at hRun
  cases hRun
  rcases hRelisted.list with ⟨r, hList, hAbove, hHeavy⟩
  have hExtra : extraLeaves cfg m p = 0 := by
    have hOne := hSplit.count
    rw [List.length_map, List.length_singleton] at hOne
    unfold extraLeaves
    rw [hSize, ← hOne]
  apply Replaced.splits hStored hGraft rfl hOld hNew hYss
    hLeft hRight
  · constructor
    · exact hSplit.flatten
    · exact List.Forall₂.cons
        ⟨⟨r, hList, hAbove⟩, hRelisted.linked⟩
        List.Forall₂.nil
    · intro x hx
      rw [Shape.leaves, List.mem_singleton] at hx
      subst hx
      exact ⟨r, ps, hList, hHeavy, hRelisted.linked,
        hOf.nonempty, hOf.length_le⟩
    · intro x hx
      rw [Shape.leaves, List.mem_singleton] at hx
      subst hx
      exact hFresh.2
    · exact List.nodup_singleton k
    · intro q hq hql
      rw [← hSplit.otherLists q hq hql]
      exact hRelisted.otherLists q (by omega)
    · rw [hRelisted.nodes]
      exact hSplit.otherNodes
    · rw [hRelisted.nodes]
      exact hSplit.nodesNext
    · rw [hRelisted.junk]
      exact hSplit.junk
  · apply hGraft.rep_relisted hStored.rep hStored.nodup hGet
    · exact hRelisted.leaf
    · intro q hq hqp
      have hqLt := hOldLt q hq
      exact (hRelisted.otherTls q hqp (by omega)).trans
        (hSplit.otherTls q hqLt hqp)
  · rcases hGraft.addrs with ⟨as, bs, hAddrs, hAddrs'⟩
    have hNodup := hStored.nodup
    rw [hAddrs] at hNodup
    rw [hAddrs']
    exact hNodup
  · exact hGraft.heavyDeep hStored.deep trivial
  · rfl
  · rw [hExtra]
    rfl
  · rw [hExtra]
    rfl
  · rfl
  · intro q x hGetQ
    have hqLt := Heap.lt_next hGetQ
    by_cases hqp : q = p
    · rw [hqp] at hGetQ ⊢
      cases hGet.symm.trans hGetQ
      exact ⟨_, hRelisted.leaf, rfl⟩
    · rw [hRelisted.otherTls q hqp (by omega),
        hSplit.otherTls q hqLt hqp]
      exact ⟨x, hGetQ, rfl⟩
  · rw [hRelisted.tlsNext]
    exact hSplit.tlsNext
  · unfold extraLeaves at hExtra
    unfold estimate
    dsimp only
    rw [if_neg (by omega), Nat.max_zero]
  · intro _ hOldWithin
    apply hGraft.within hOldWithin
    cases om.height - d <;> trivial

/- A list that is split is not empty. -/
theorem nonempty_of_split
    {cfg : Config} {m : Mem} {list : Nat} {r : Mem × Nat}
    {xs : List (Nat × Label)}
    (hLinked : Linked m list xs)
    (hRun : split cfg m list = Except.ok r) :
    xs ≠ [] := by
  rintro rfl
  rcases hLinked.ends with ⟨l, hGet, hHead, -⟩
  unfold split at hRun
  rw [Mem.load_of_get hGet, ok_bind] at hRun
  rcases bind_eq_ok hRun with ⟨above, -, hRun⟩
  rcases bind_eq_ok hRun with ⟨a, -, hRun⟩
  rcases bind_eq_ok hRun with ⟨u, -, hRun⟩
  rcases bind_eq_ok hRun with ⟨v, hCheck, -⟩
  exact of_check hCheck hHead

/- A leaf whose list is split, if the code returns. -/
theorem splitHeavy_spec
    {cfg : Config} {m m' : Mem} {om om' : Om} {p l : Nat}
    {t : Shape} {yss : List (List (Nat × Label))}
    (hCfg : cfg.WellFormed)
    (hStored : Stored cfg m om t yss)
    (hPlain : (p, l) ∈ t.plain)
    (hRun : splitHeavy cfg m om p = Except.ok (m', om')) :
    ∃ t' yss', Splits cfg m m' om om' t t' yss yss' [p] := by
  rcases Grafts.exists_of_plain hPlain with
    ⟨ls, rs, d, hOld, hAll⟩
  rcases hAll (.leaf p l) with ⟨t₀, hGraft₀, -⟩
  rcases hGraft₀.get_leaf hStored.rep with
    ⟨a, hGet, hLevel, hLeftA, hRightA, hBelow, hMark, -⟩
  have hLists := hStored.lists
  rw [hOld] at hLists
  rcases forall₂_middle hLists with
    ⟨us, xs, vs, hYss, hLeft, hOf, hRight⟩
  rcases hOf.above with ⟨r, hList, hAbove⟩
  unfold splitHeavy at hRun
  rw [Mem.load_of_get hGet, ok_bind] at hRun
  rcases bind_eq_ok hRun with ⟨u₁, -, hRun⟩
  rcases bind_eq_ok hRun with ⟨u₂, -, hRun⟩
  rcases bind_eq_ok hRun with ⟨u₃, -, hRun⟩
  rw [hBelow] at hRun
  dsimp only [Below.asList] at hRun
  rw [ok_bind] at hRun
  rcases bind_eq_ok hRun with ⟨⟨m₀, k₀⟩, hSplitRun, -⟩
  have hNonempty := nonempty_of_split hOf.linked hSplitRun
  have hSize := leafSize_eq hGet hBelow hOf.linked
  rcases split_spec hCfg hOf.linked hNonempty hList hAbove
    hGet hBelow with ⟨m₁, parts, chunks, hRun₁, hSplit⟩
  dsimp only at hRun₁
  rw [hRun₁, ok_bind] at hRun
  dsimp only at hRun
  by_cases hTwo : 1 < parts.length
  · rw [if_pos hTwo] at hRun
    rcases hAll (.heavy p parts) with ⟨t', hGraft, hNew⟩
    exact ⟨t', _, splitHeavy_many hStored hGraft hOld hNew
      hYss hLeft hRight hSplit hGet hSize
      hOf.linked.length_le_words ⟨hLeftA, hRightA⟩ hTwo
      hRun⟩
  · rw [if_neg hTwo] at hRun
    rcases hSplit.opened with ⟨first, hFirst, -⟩
    have hLength := hSplit.lists.length_eq
    cases parts with
    | nil => cases hFirst
    | cons part parts =>
        rw [List.length_cons] at hTwo
        obtain rfl : parts = [] :=
          List.length_eq_zero_iff.mp (by omega)
        rw [List.length_singleton] at hLength
        rcases List.length_eq_one_iff.mp hLength.symm with
          ⟨ps, rfl⟩
        rcases part with ⟨n, k⟩
        rcases hAll (.leaf p k) with ⟨t', hGraft, hNew⟩
        exact ⟨t', _, splitHeavy_one hStored hGraft hOld hNew
          hYss hLeft hRight hSplit hGet hSize hMark hRun⟩

/- The split of other leaves before. -/
private theorem Splits.trans
    {cfg : Config} {m m₁ m₂ : Mem} {om om₁ om₂ : Om}
    {t t₁ t₂ : Shape}
    {yss yss₁ yss₂ : List (List (Nat × Label))}
    {p : Nat} {heavy : List Nat}
    (h : Splits cfg m m₁ om om₁ t t₁ yss yss₁ [p])
    (h' : Splits cfg m₁ m₂ om₁ om₂ t₁ t₂ yss₁ yss₂ heavy)
    (hRoot : t₁.ptr = t.ptr)
    (hPlain : ∀ q ∈ heavy, ∃ l, (q, l) ∈ t.plain)
    (hp : p ∉ heavy) :
    Splits cfg m m₂ om om₂ t t₂ yss yss₂ (p :: heavy) := by
  have hNot : ∀ q ∈ heavy, q ∉ [p] := by
    intro q hq hMem
    rw [List.mem_singleton] at hMem
    rw [hMem] at hq
    exact hp hq
  have hSame : ∀ q ∈ heavy,
      extraLeaves cfg m₁ q = extraLeaves cfg m q := by
    intro q hq
    rcases hPlain q hq with ⟨l, hMem⟩
    unfold extraLeaves
    rw [h.sizes (q, l) hMem (hNot q hq)]
  have hEstimates : ∀ q ∈ heavy,
      estimate cfg m₁ q = estimate cfg m q := by
    intro q hq
    rcases hPlain q hq with ⟨l, hMem⟩
    exact h.estimates (q, l) hMem (hNot q hq)
  constructor
  · exact h'.stored
  · rw [h'.order, h.order]
  · intro x hx
    rcases h'.leaves x hx with ⟨hx₁, hHeavy, hSame⟩ | hNew
    · rcases h.leaves x hx₁ with ⟨hx₀, hp, hSame₀⟩ | hNew
      · left
        refine ⟨hx₀, ?_, hSame₀.trans hSame⟩
        rw [List.mem_cons, not_or]
        rw [List.mem_singleton] at hp
        exact ⟨hp, hHeavy⟩
      · exact Or.inr (hNew.of_same hSame)
    · exact Or.inr hNew
  · intro x hx hNot
    rw [List.mem_cons, not_or] at hNot
    apply h'.plain x _ hNot.2
    apply h.plain x hx
    rw [List.mem_singleton]
    exact hNot.1
  · rw [h'.root, hRoot]
  · rw [h'.nodesNext, h.nodesNext]
  · rw [h'.junk, h.junk]
  · intro x hx hNot
    rw [List.mem_cons, not_or] at hNot
    have hNe : x.1 ∉ [p] := by
      rw [List.mem_singleton]
      exact hNot.1
    rw [h'.sizes x (h.plain x hx hNe) hNot.2,
      h.sizes x hx hNe]
  · rw [h'.count, h.count, List.map_congr_left hSame,
      List.map_singleton, List.sum_singleton, List.map_cons,
      List.sum_cons, Nat.add_assoc]
  · have hAny :
        (heavy.any fun q => 0 < extraLeaves cfg m₁ q) =
          heavy.any fun q => 0 < extraLeaves cfg m q := by
      rw [Bool.eq_iff_iff, List.any_eq_true,
        List.any_eq_true]
      apply exists_congr
      intro q
      apply and_congr_right
      intro hq
      rw [hSame q hq]
    rw [h'.marked, h.marked, hAny, List.any_cons,
      List.any_cons, List.any_nil, Bool.or_false,
      Bool.or_assoc]
  · rw [h'.isNode, h.isNode]
  · intro x hx hNotHeavy
    rw [List.mem_cons, not_or] at hNotHeavy
    have hNe : x.1 ∉ [p] := by
      rw [List.mem_singleton]
      exact hNotHeavy.1
    rw [h'.estimates x (h.plain x hx hNe) hNotHeavy.2,
      h.estimates x hx hNe]
  · rw [h'.height, h.height, List.map_congr_left hEstimates]
    rfl
  · intro hLogs hWithin
    exact h'.within hLogs (h.within hLogs hWithin)

/- The lists of all heavy leaves are split. -/
theorem splitAllHeavy_spec
    {cfg : Config} {m m' : Mem} {om om' : Om}
    {heavy : List Nat} {t : Shape}
    {yss : List (List (Nat × Label))}
    (hCfg : cfg.WellFormed)
    (hStored : Stored cfg m om t yss)
    (hPlain : ∀ p ∈ heavy, ∃ l, (p, l) ∈ t.plain)
    (hNodup : heavy.Nodup)
    (hRun : splitAllHeavy cfg m om heavy =
      Except.ok (m', om')) :
    ∃ t' yss', Splits cfg m m' om om' t t' yss yss' heavy := by
  induction heavy generalizing m om t yss with
  | nil =>
      cases hRun
      refine ⟨t, yss, hStored, rfl, ?_, ?_, hStored.root, rfl,
        rfl, fun _ _ _ => rfl, rfl, ?_, rfl,
        fun _ _ _ => rfl, rfl, fun _ h => h⟩
      · intro x hx
        exact Or.inl ⟨hx, by simp, SameList.refl _ _⟩
      · intro x hx _
        exact hx
      · rw [List.any_nil, Bool.or_false]
  | cons p heavy ih =>
      rw [List.nodup_cons] at hNodup
      rw [List.forall_mem_cons] at hPlain
      rcases hPlain with ⟨⟨l, hp⟩, hPlain⟩
      unfold splitAllHeavy at hRun
      rcases bind_eq_ok hRun with ⟨⟨m₁, om₁⟩, hRun₁, hRun₂⟩
      rcases splitHeavy_spec hCfg hStored hp hRun₁ with
        ⟨t₁, yss₁, hSplits⟩
      have hPtr : t₁.ptr = t.ptr := by
        rw [← hSplits.stored.root, hSplits.root]
      have hPlain₁ : ∀ q ∈ heavy, ∃ l, (q, l) ∈ t₁.plain := by
        intro q hq
        rcases hPlain q hq with ⟨k, hk⟩
        refine ⟨k, hSplits.plain _ hk ?_⟩
        rw [List.mem_singleton]
        rintro rfl
        exact hNodup.1 hq
      rcases ih hSplits.stored hPlain₁ hNodup.2 hRun₂ with
        ⟨t₂, yss₂, hSplits₂⟩
      exact ⟨t₂, yss₂, hSplits.trans hSplits₂ hPtr hPlain
        hNodup.1⟩

------------------------------------------------------------
-- The Split of a List
------------------------------------------------------------

/- A leaf whose list fits into a sublist keeps its place. -/
theorem splitHeavy_short
    {cfg : Config} {m : Mem} {om : Om} {p l : Nat}
    {a : TlNode} {t : Shape} {xs : List (Nat × Label)}
    {yss : List (List (Nat × Label))}
    (hCfg : cfg.WellFormed)
    (hStored : Stored cfg m om t yss)
    (hPlain : (p, l) ∈ t.plain)
    (hLinked : Linked m l xs)
    (hNonempty : xs ≠ [])
    (hGet : m.tls.get p = some a)
    (hShort : xs.length ≤ cfg.sublistSize) :
    ∃ m' k, splitHeavy cfg m om p = Except.ok (m', om) ∧
      m'.tls.get p = some { a with below := .list k } ∧
      (∀ q ∈ t.addrs, q ≠ p →
        m'.tls.get q = m.tls.get q) ∧
      (∃ r, m'.lists.get k = some r ∧
        r.above = some p ∧ r.heavy = false) ∧
      Linked m' k (spaced cfg 0 (xs.map Prod.fst)) := by
  rcases Grafts.exists_of_plain hPlain with
    ⟨ls, rs, d, hOld, hAll⟩
  rcases hAll (.leaf p l) with ⟨t₀, hGraft, -⟩
  rcases hGraft.get_leaf hStored.rep with
    ⟨a', hGet', hLevel, hLeft, hRight, hBelow, hMark, hTop⟩
  cases hGet.symm.trans hGet'
  have hLists := hStored.lists
  rw [hOld] at hLists
  rcases forall₂_middle hLists with
    ⟨us, zs, vs, -, -, hOf, -⟩
  rcases hOf.above with ⟨r, hList, hAbove⟩
  have hRoot : a.parent ≠ none ∨ p = om.root := by
    rcases hTop with ⟨-, hp⟩ | hParent
    · right
      rw [hStored.root]
      exact hp
    · exact Or.inl hParent
  rcases split_spec hCfg hLinked hNonempty hList hAbove hGet
    hBelow with ⟨m₁, parts, chunks, hRun, hSplit⟩
  have hCount := hSplit.count
  have hNotTwo : ¬ 1 < parts.length := by
    rw [hCount, one_lt_numSublists_iff hCfg,
      List.length_map]
    omega
  have hLength := hSplit.lists.length_eq
  rcases hSplit.opened with ⟨first, hFirst, -⟩
  cases parts with
  | nil => cases hFirst
  | cons part parts =>
      rw [List.length_cons] at hNotTwo
      obtain rfl : parts = [] :=
        List.length_eq_zero_iff.mp (by omega)
      rw [List.length_singleton] at hLength
      rcases List.length_eq_one_iff.mp hLength.symm with
        ⟨ps, rfl⟩
      rcases part with ⟨n, k⟩
      have hps : ps = xs.map Prod.fst := by
        rw [← hSplit.flatten, List.flatten_cons,
          List.flatten_nil, List.append_nil]
      have hFresh := hSplit.fresh (n, k) (by simp)
      dsimp only at hFresh
      rcases hSplit.relist (o := om) hGet hMark with
        ⟨m', hRelist, hRelisted⟩
      refine ⟨m', k, ?_, hRelisted.leaf, ?_,
        hRelisted.list, ?_⟩
      · unfold splitHeavy
        rw [Mem.load_of_get hGet, ok_bind, check_of hLevel,
          ok_bind, check_of hRoot, ok_bind,
          check_of ⟨hLeft, hRight⟩, ok_bind, hBelow]
        dsimp only [Below.asList]
        rw [ok_bind, hRun, ok_bind]
        dsimp only
        rw [if_neg (by simp)]
        exact hRelist
      · intro q hq hqp
        have hqLt := hStored.rep.lt_next q hq
        rw [hRelisted.otherTls q hqp (by omega),
          hSplit.otherTls q hqLt hqp]
      · rw [← hps]
        exact hRelisted.linked

end OrderMaint

end PRacer
