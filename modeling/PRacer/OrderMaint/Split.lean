import PRacer.OrderMaint.Insertion
import PRacer.OrderMaint.Shape

/-
  Splitting a bottom list.

  The nodes of the list are moved, in their order, to new
  lists with evenly spaced labels, each below a new leaf.

  Main declarations:
    * `spaced`, `splitInner_spec`
    * `SplitInto`, `split_spec`
-/

namespace PRacer

open Foundations

namespace OrderMaint

------------------------------------------------------------
-- Evenly Spaced Labels
------------------------------------------------------------

/- The label of the node at an index of a new list. -/
def labelAt (cfg : Config) (i : Nat) : Label :=
  BitVec.ofNat 64 (i * cfg.nodeInterval.toNat)

/- Nodes with evenly spaced labels, from an index on. -/
def spaced (cfg : Config) (i : Nat) :
    List Nat → List (Nat × Label)
| [] => []
| p :: ps => (p, labelAt cfg i) :: spaced cfg (i + 1) ps

@[simp] theorem map_fst_spaced
    (cfg : Config) (i : Nat) (ps : List Nat) :
    (spaced cfg i ps).map Prod.fst = ps := by
  induction ps generalizing i with
  | nil => rfl
  | cons p ps ih =>
      rw [spaced, List.map_cons, ih]

theorem spaced_append
    (cfg : Config) (i : Nat) (ps qs : List Nat) :
    spaced cfg i (ps ++ qs) =
      spaced cfg i ps ++ spaced cfg (i + ps.length) qs := by
  induction ps generalizing i with
  | nil => rfl
  | cons p ps ih =>
      rw [List.cons_append, spaced, ih, spaced,
        List.cons_append, List.length_cons]
      congr 3
      omega

theorem labelAt_zero (cfg : Config) : labelAt cfg 0 = 0 := by
  unfold labelAt
  rw [Nat.zero_mul]
  rfl

/- The next label is one interval further. -/
theorem labelAt_succ (cfg : Config) (i : Nat) :
    labelAt cfg i + cfg.nodeInterval = labelAt cfg (i + 1) := by
  apply BitVec.eq_of_toNat_eq
  unfold labelAt
  rw [BitVec.toNat_add, BitVec.toNat_ofNat,
    BitVec.toNat_ofNat, Nat.mod_add_mod, Nat.add_mul,
    Nat.one_mul]

/- Within a sublist the labels do not wrap. -/
theorem toNat_labelAt
    {cfg : Config} {i : Nat}
    (hCfg : cfg.WellFormed)
    (hi : i < cfg.sublistSize) :
    (labelAt cfg i).toNat = i * cfg.nodeInterval.toNat := by
  have hLe := hCfg.interval_le
  have hMul : i * cfg.nodeInterval.toNat ≤
      (cfg.sublistSize - 1) * cfg.nodeInterval.toNat :=
    Nat.mul_le_mul_right _ (by omega)
  have hLt := cfg.maxLabel.isLt
  exact toNat_label (by omega)

/- Within a sublist the labels grow. -/
theorem labelAt_lt
    {cfg : Config} {i j : Nat}
    (hCfg : cfg.WellFormed)
    (hij : i < j)
    (hj : j < cfg.sublistSize) :
    labelAt cfg i < labelAt cfg j := by
  have hPos := hCfg.interval_pos (by omega)
  rw [BitVec.lt_def, toNat_labelAt hCfg (by omega),
    toNat_labelAt hCfg hj]
  exact Nat.mul_lt_mul_of_pos_right hij hPos

------------------------------------------------------------
-- One New List
------------------------------------------------------------

/- A list depends on its own records only. -/
theorem Linked.congr
    {m m' : Mem} {list : Nat} {xs : List (Nat × Label)}
    (h : Linked m list xs)
    (hList : m'.lists.get list = m.lists.get list)
    (hNodes : ∀ p ∈ xs.map Prod.fst,
      m'.nodes.get p = m.nodes.get p) :
    Linked m' list xs := by
  refine ⟨?_, h.chain.congr hNodes, h.sorted⟩
  rw [hList]
  exact h.ends

/- The links determine the nodes. -/
theorem Chain.unique
    {nodes : Heap BlNode} {list : Nat} {prev : Option Nat}
    {xs ys : List (Nat × Label)}
    (hx : Chain nodes list prev xs)
    (hy : Chain nodes list prev ys)
    (hFirst : firstNode xs = firstNode ys) :
    xs = ys := by
  induction xs generalizing prev ys with
  | nil =>
      cases ys with
      | nil => rfl
      | cons y ys => cases hFirst
  | cons x xs ih =>
      cases ys with
      | nil => cases hFirst
      | cons y ys =>
          rcases x with ⟨p, lab⟩
          rcases y with ⟨q, lab'⟩
          cases hFirst
          have hRecord := hx.1.symm.trans hy.1
          simp only [linkedNode, Option.some.injEq,
            BlNode.mk.injEq] at hRecord
          rw [hRecord.1, ih hx.2 hy.2 hRecord.2.1]

theorem Linked.unique
    {m : Mem} {list : Nat} {xs ys : List (Nat × Label)}
    (hx : Linked m list xs)
    (hy : Linked m list ys) :
    xs = ys := by
  rcases hx.ends with ⟨l, hGet, hHead, -⟩
  rcases hy.ends with ⟨l', hGet', hHead', -⟩
  rw [hGet] at hGet'
  cases hGet'
  exact hx.chain.unique hy.chain (hHead.symm.trans hHead')

/- What moving nodes to a list leaves alone. -/
structure MoveFrame
    (m m' : Mem) (list : Nat) (ps : List Nat) : Prop where
  nodesNext : m'.nodes.next = m.nodes.next
  otherNodes : ∀ p, p ∉ ps → m'.nodes.get p = m.nodes.get p
  listsNext : m'.lists.next = m.lists.next
  otherLists : ∀ p, p ≠ list →
    m'.lists.get p = m.lists.get p
  thisList : ∀ l, m.lists.get list = some l →
    ∃ head tail, m'.lists.get list =
      some { l with head := head, tail := tail }
  tls : m'.tls = m.tls
  junk : m'.junk = m.junk

theorem MoveFrame.refl (m : Mem) (list : Nat) (ps : List Nat) :
    MoveFrame m m list ps := by
  constructor
  · rfl
  · intro _ _
    rfl
  · rfl
  · intro _ _
    rfl
  · intro l hl
    exact ⟨l.head, l.tail, hl⟩
  · rfl
  · rfl

theorem MoveFrame.trans
    {m m' m'' : Mem} {list : Nat} {ps : List Nat}
    (h : MoveFrame m m' list ps)
    (h' : MoveFrame m' m'' list ps) :
    MoveFrame m m'' list ps := by
  constructor
  · rw [h'.nodesNext, h.nodesNext]
  · intro p hp
    rw [h'.otherNodes p hp, h.otherNodes p hp]
  · rw [h'.listsNext, h.listsNext]
  · intro p hp
    rw [h'.otherLists p hp, h.otherLists p hp]
  · intro l hl
    rcases h.thisList l hl with ⟨head, tail, hGet⟩
    rcases h'.thisList _ hGet with ⟨head', tail', hGet'⟩
    exact ⟨head', tail', hGet'⟩
  · rw [h'.tls, h.tls]
  · rw [h'.junk, h.junk]

theorem MoveFrame.mono
    {m m' : Mem} {list : Nat} {ps qs : List Nat}
    (h : MoveFrame m m' list ps)
    (hSub : ps ⊆ qs) :
    MoveFrame m m' list qs := by
  rcases h with ⟨hNext, hNodes, hLists, hOther, hThis, hTls,
    hJunk⟩
  refine ⟨hNext, ?_, hLists, hOther, hThis, hTls, hJunk⟩
  intro p hp
  exact hNodes p fun hMem => hp (hSub hMem)

theorem moveFrame_mapNode
    (m : Mem) (list : Nat) {p : Nat} {ps : List Nat}
    (hp : p ∈ ps) (f : BlNode → BlNode) :
    MoveFrame m (m.mapNode p f) list ps := by
  refine ⟨rfl, ?_, rfl, fun _ _ => rfl, ?_, rfl, rfl⟩
  · intro q hq
    apply Heap.get_modify_of_ne
    rintro rfl
    exact hq hp
  · intro l hl
    exact ⟨l.head, l.tail, hl⟩

/- The first node of a new list. -/
private theorem insertInternal_first
    {m : Mem} {list p q : Nat} {prev next : Option Nat}
    {lab : Label}
    (hLinked : Linked m list [])
    (hGet : m.nodes.get p = some (linkedNode q prev next lab)) :
    ∃ m', insertInternal m list none p = Except.ok m' ∧
      Linked m' list [(p, 0)] ∧ MoveFrame m m' list [p] := by
  rcases hLinked.ends with ⟨l, hList, -, -⟩
  have hGet₁ := Heap.get_modify_self
    (fun x : BlNode =>
      { x with next := none, prev := none, label := 0 }) hGet
  refine ⟨((m.mapList list fun l =>
      { l with tail := some p, head := some p }).mapNode p
    fun x =>
      { x with next := none, prev := none, label := 0 }).mapNode
        p fun x => { x with list := list }, ?_,
    ⟨⟨_, Heap.get_modify_self _ hList, rfl, rfl⟩,
      ⟨Heap.get_modify_self _ hGet₁, trivial⟩, by simp⟩, ?_⟩
  · unfold insertInternal
    dsimp only
    rw [Mem.setList_of_get _ hList, ok_bind,
      Mem.setNode_of_get (m := m.mapList list _) _ hGet,
      ok_bind]
    exact Mem.setNode_of_get _ hGet₁
  · constructor
    · rfl
    · intro r hr
      rw [List.mem_singleton] at hr
      rw [Mem.nodes_mapNode, Heap.get_modify_of_ne _ hr,
        Mem.nodes_mapNode, Heap.get_modify_of_ne _ hr]
      rfl
    · rfl
    · intro r hr
      exact Heap.get_modify_of_ne _ hr
    · intro l' hl'
      exact ⟨_, _, Heap.get_modify_self _ hl'⟩
    · rfl
    · rfl

/- A node is put at the end of a new list. -/
private theorem insertInternal_last
    {m : Mem} {list p q base : Nat} {prev next : Option Nat}
    {lab L : Label} {ys : List (Nat × Label)}
    (hLinked : Linked m list (ys ++ [(base, lab)]))
    (hGet : m.nodes.get p = some (linkedNode q prev next L))
    (hNot : p ∉ (ys ++ [(base, lab)]).map Prod.fst)
    (hLt : lab < L) :
    ∃ m', insertInternal m list (some base) p =
        Except.ok m' ∧
      Linked m' list (ys ++ [(base, lab), (p, L)]) ∧
      MoveFrame m m' list
        (p :: (ys ++ [(base, lab)]).map Prod.fst) := by
  rcases hLinked.ends with ⟨l, hList, hHead, hTail⟩
  have hBase := hLinked.chain.get_middle
  have hNodup := hLinked.chain.nodup hLinked.sorted
  have hNe : p ≠ base := by
    rintro rfl
    apply hNot
    simp
  rw [lastNode_append_cons] at hTail
  rcases insertInternal_tail hList hBase hGet rfl hTail hLt hNe
    with ⟨nodes', hRun, hLinkedIn⟩
  refine ⟨_, hRun, ⟨?_, ?_, ?_⟩, ?_⟩
  · refine ⟨_, Heap.get_modify_self _ hList, ?_, ?_⟩
    · rw [hHead]
      apply firstNode_append_cons
    · rw [lastNode_append_cons]
      rfl
  · apply hLinked.chain.insert hNodup hLinkedIn.atBase
    · exact hLinkedIn.atNode
    · intro r hr
      cases hr
    · intro r hr hrb _
      apply hLinkedIn.elsewhere r hrb
      · rintro rfl
        exact hNot hr
      · intro hNone
        cases hNone
  · have hSorted := hLinked.sorted
    rw [List.map_append, List.pairwise_append] at hSorted
    rw [List.map_append, List.pairwise_append]
    refine ⟨hSorted.1, by simp [hLt], ?_⟩
    intro a ha b hb
    have hab := hSorted.2.2 a ha lab (by simp)
    simp only [List.map_cons, List.map_nil, List.mem_cons,
      List.not_mem_nil, or_false] at hb
    rcases hb with rfl | rfl
    · exact hab
    · exact BitVec.lt_trans hab hLt
  · constructor
    · exact hLinkedIn.sameNext
    · intro r hr
      rw [List.mem_cons, not_or] at hr
      apply hLinkedIn.elsewhere r _ hr.1
      · intro hNone
        cases hNone
      · rintro rfl
        apply hr.2
        simp
    · rfl
    · intro r hr
      exact Heap.get_modify_of_ne _ hr
    · intro l' hl'
      exact ⟨_, _, Heap.get_modify_self _ hl'⟩
    · rfl
    · rfl

/- The next node gets the next label of a new list. -/
private theorem insertInternal_spaced
    {cfg : Config} {m : Mem} {list p q : Nat}
    {next : Option Nat} {ds : List Nat}
    (hCfg : cfg.WellFormed)
    (hLinked : Linked m list (spaced cfg 0 ds))
    (hGet : m.nodes.get p = some
      (linkedNode q ds.getLast? next (labelAt cfg ds.length)))
    (hNot : p ∉ ds)
    (hRoom : ds.length < cfg.sublistSize) :
    ∃ m', insertInternal m list ds.getLast? p =
        Except.ok m' ∧
      Linked m' list (spaced cfg 0 (ds ++ [p])) ∧
      MoveFrame m m' list (p :: ds) := by
  induction ds using List.reverseRecOn with
  | nil =>
      rcases insertInternal_first hLinked hGet with
        ⟨m', hRun, hLinked', hFrame⟩
      refine ⟨m', hRun, ?_, hFrame⟩
      rw [List.nil_append, spaced, spaced, labelAt_zero]
      exact hLinked'
  | append_singleton es base _ =>
      rw [List.getLast?_concat] at hGet ⊢
      rw [spaced_append, spaced, spaced] at hLinked
      rw [List.length_append, List.length_singleton]
        at hGet hRoom
      have hLt : labelAt cfg (0 + es.length) <
          labelAt cfg (es.length + 1) :=
        labelAt_lt hCfg (by omega) hRoom
      rcases insertInternal_last hLinked hGet
        (by simpa using hNot) hLt with
        ⟨m', hRun, hLinked', hFrame⟩
      refine ⟨m', hRun, ?_, ?_⟩
      · rw [spaced_append, spaced_append, spaced, spaced,
          spaced, spaced, List.append_assoc,
          List.length_append, List.length_singleton,
          Nat.zero_add, Nat.zero_add]
        rw [Nat.zero_add] at hLinked'
        exact hLinked'
      · simpa using hFrame

/- The loop that fills one new list. -/
theorem splitInner_spec
    {cfg : Config} {m : Mem} {list q room : Nat}
    {ds : List Nat} {xs : List (Nat × Label)}
    (hCfg : cfg.WellFormed)
    (hLinked : Linked m list (spaced cfg 0 ds))
    (hChain : Chain m.nodes q ds.getLast? xs)
    (hNodup : (ds ++ xs.map Prod.fst).Nodup)
    (hRoom : ds.length + room ≤ cfg.sublistSize) :
    ∃ m', splitInner cfg list room m (firstNode xs)
          (labelAt cfg ds.length) =
        Except.ok (m', firstNode (xs.drop room)) ∧
      Linked m' list
        (spaced cfg 0 (ds ++ (xs.take room).map Prod.fst)) ∧
      Chain m'.nodes q
        (ds ++ (xs.take room).map Prod.fst).getLast?
        (xs.drop room) ∧
      MoveFrame m m' list
        (ds ++ (xs.take room).map Prod.fst) := by
  induction room generalizing m ds xs with
  | zero =>
      refine ⟨m, ?_, ?_, ?_, MoveFrame.refl _ _ _⟩
      · cases xs <;> rfl
      · simpa using hLinked
      · simpa using hChain
  | succ room ih =>
      cases xs with
      | nil =>
          refine ⟨m, rfl, ?_, trivial, MoveFrame.refl _ _ _⟩
          simpa using hLinked
      | cons x rest =>
          rcases x with ⟨p, lab⟩
          rcases hChain with ⟨hGet, hRest⟩
          simp only [List.map_cons] at hNodup
          have hParts := hNodup
          rw [List.nodup_append', List.nodup_cons,
            List.disjoint_cons_right] at hParts
          rcases hParts with
            ⟨-, ⟨hpRest, -⟩, hpDs, hDisj⟩
          have hGet₁ := Heap.get_modify_self
            (fun n : BlNode =>
              { n with label := labelAt cfg ds.length }) hGet
          have hLinked₁ : Linked (m.mapNode p fun n =>
              { n with label := labelAt cfg ds.length }) list
                (spaced cfg 0 ds) := by
            apply Linked.congr hLinked
            · rfl
            · intro r hr
              rw [map_fst_spaced] at hr
              apply Heap.get_modify_of_ne
              rintro rfl
              exact hpDs hr
          rcases insertInternal_spaced hCfg hLinked₁ hGet₁
            hpDs (by omega) with
            ⟨m₂, hRun₂, hLinked₂, hFrame₂⟩
          have hChain₂ : Chain m₂.nodes q
              (ds ++ [p]).getLast? rest := by
            rw [List.getLast?_concat]
            apply hRest.congr
            intro r hr
            have hrp : r ≠ p := by
              rintro rfl
              exact hpRest hr
            rw [hFrame₂.otherNodes r (by
                rw [List.mem_cons, not_or]
                exact ⟨hrp, fun hrDs => hDisj hrDs hr⟩),
              Mem.nodes_mapNode, Heap.get_modify_of_ne _ hrp]
          rcases ih hLinked₂ hChain₂ (by simpa using hNodup)
            (by
              rw [List.length_append, List.length_singleton]
              omega) with
            ⟨m', hRun, hLinked', hChain', hFrame'⟩
          rw [List.length_append, List.length_singleton]
            at hRun
          rw [List.append_assoc, List.singleton_append]
            at hLinked' hChain' hFrame'
          refine ⟨m', ?_, hLinked', hChain', ?_⟩
          · unfold splitInner
            rw [firstNode_cons]
            dsimp only
            rw [Mem.load_of_get hGet, ok_bind,
              Mem.setNode_of_get _ hGet, ok_bind]
            dsimp only [linkedNode]
            rw [hRun₂, ok_bind, labelAt_succ]
            exact hRun
          · rw [List.take_succ_cons, List.map_cons]
            have hFrame₁ := moveFrame_mapNode m list
              (List.mem_cons_self (a := p) (l := ds)) fun n =>
                { n with label := labelAt cfg ds.length }
            apply ((hFrame₁.trans hFrame₂).mono _).trans
              hFrame'
            intro r hr
            rw [List.mem_cons] at hr
            rw [List.mem_append, List.mem_cons]
            rcases hr with rfl | hr
            · exact Or.inr (Or.inl rfl)
            · exact Or.inl hr

------------------------------------------------------------
-- All New Lists
------------------------------------------------------------

/- A new leaf with its list, and the nodes that moved there. -/
structure PartOf
    (cfg : Config) (m : Mem) (part : Nat × Nat)
    (ps : List Nat) : Prop where
  list : ∃ l, m.lists.get part.2 = some l ∧
    l.above = some part.1 ∧ l.heavy = false
  linked : Linked m part.2 (spaced cfg 0 ps)
  nonempty : ps ≠ []
  length_le : ps.length ≤ cfg.sublistSize

theorem PartOf.congr
    {cfg : Config} {m m' : Mem} {part : Nat × Nat}
    {ps : List Nat}
    (h : PartOf cfg m part ps)
    (hList : m'.lists.get part.2 = m.lists.get part.2)
    (hNodes : ∀ p ∈ ps, m'.nodes.get p = m.nodes.get p) :
    PartOf cfg m' part ps := by
  refine ⟨?_, ?_, h.nonempty, h.length_le⟩
  · rw [hList]
    exact h.list
  · apply h.linked.congr hList
    intro p hp
    rw [map_fst_spaced] at hp
    exact hNodes p hp

/- How a new leaf hangs on the one before, or on the old. -/
def hang (n : Nat) : Option Nat → TlNode → TlNode
| some _, x => { x with right := some n }
| none, x => { x with below := .splitNodes n }

/- The first of the new leaves hangs there, if there is one. -/
def hangFirst :
    List (Nat × Nat) → Option Nat → TlNode → TlNode
| [], _, x => x
| part :: _, prev, x => hang part.1 prev x

theorem linkSplitNode_eq
    (m : Mem) (above n : Nat) (prev : Option Nat) :
    linkSplitNode m above n prev =
      m.setTl (prev.getD above) (hang n prev) := by
  cases prev <;> rfl

/- What one round of the split leads to. -/
structure SplitOne
    (cfg : Config) (m m' : Mem) (above q : Nat)
    (prev : Option Nat) (xs : List (Nat × Label)) :
    Prop where
  part : PartOf cfg m' (m.tls.next, m.lists.next)
    ((xs.take cfg.sublistSize).map Prod.fst)
  rest : ∃ before,
    Chain m'.nodes q before (xs.drop cfg.sublistSize)
  nodesNext : m'.nodes.next = m.nodes.next
  otherNodes : ∀ p, p ∉ (xs.take cfg.sublistSize).map Prod.fst →
    m'.nodes.get p = m.nodes.get p
  listsNext : m'.lists.next = m.lists.next + 1
  otherLists : ∀ l, l < m.lists.next →
    m'.lists.get l = m.lists.get l
  tlsNext : m'.tls.next = m.tls.next + 1
  leaf : ∃ x, m'.tls.get m.tls.next = some x ∧
    x.level = cfg.maxLevel ∧ x.numLeaves = 1 ∧
    x.below = .list m.lists.next ∧ x.left = prev ∧
    x.right = none
  hung : ∀ y, m.tls.get (prev.getD above) = some y →
    m'.tls.get (prev.getD above) =
      some (hang m.tls.next prev y)
  otherTls : ∀ t, t < m.tls.next → t ≠ prev.getD above →
    m'.tls.get t = m.tls.get t
  junk : m'.junk = m.junk

/- The fields that a new leaf is given. -/
private def newLeaf
    (cfg : Config) (prev : Option Nat) (x : TlNode) :
    TlNode :=
  { x with
    level := cfg.maxLevel
    right := none
    left := prev
    numLeaves := 1 }

/- The memory when a round starts to move nodes. -/
private def roundStart
    (cfg : Config) (m : Mem) (above p : Nat)
    (prev : Option Nat) : Mem where
  nodes := m.nodes.modify p fun c => { c with prev := none }
  lists := (m.lists.alloc
    { head := none, tail := none, above := none
      heavy := false }).modify m.lists.next fun l =>
        { l with above := some m.tls.next }
  tls := (((m.tls.alloc (m.junk m.tls.next)).modify m.tls.next
    (newLeaf cfg prev)).modify (prev.getD above)
      (hang m.tls.next prev)).modify m.tls.next fun x =>
        { x with below := .list m.lists.next }
  junk := m.junk

/- A round up to the loop that moves nodes. -/
private theorem splitOuter_start
    (cfg : Config) {m : Mem} {above f k p : Nat}
    {prev : Option Nat} {y : TlNode} {c : BlNode}
    (hHook : m.tls.get (prev.getD above) = some y)
    (hGet : m.nodes.get p = some c) :
    splitOuter cfg above (f + 1) m (some p) prev k = (do
      let (m', rest) ←
        splitInner cfg m.lists.next cfg.sublistSize
          (roundStart cfg m above p prev) (some p) 0
      splitOuter cfg above f m' rest (some m.tls.next)
        (k + 1)) := by
  have hHookLt := Heap.lt_next hHook
  have hNe : m.tls.next ≠ prev.getD above := by omega
  have hNew : tlNodeNew m =
      (m.withTls (m.tls.alloc (m.junk m.tls.next)),
        m.tls.next) := rfl
  have hGet₀ := Heap.get_alloc_self (h := m.tls)
    (m.junk m.tls.next)
  have hGet₁ := Heap.get_modify_self (newLeaf cfg prev) hGet₀
  have hHook₁ : ((m.tls.alloc (m.junk m.tls.next)).modify
      m.tls.next (newLeaf cfg prev)).get (prev.getD above) =
        some y := by
    rw [Heap.get_modify_of_ne _ hNe.symm,
      Heap.get_alloc_of_get _ hHook]
  have hGet₂ := hGet₁
  rw [← Heap.get_modify_of_ne (hang m.tls.next prev) hNe]
    at hGet₂
  have hList := Heap.get_alloc_self (h := m.lists)
    { head := none, tail := none, above := none
      heavy := false }
  have hNode : ∀ m' : Mem, m'.nodes = m.nodes →
      (m'.setNode p fun c => { c with prev := none }) =
        Except.ok
          (m'.mapNode p fun c => { c with prev := none }) := by
    intro m' hSame
    rw [← hSame] at hGet
    exact Mem.setNode_of_get _ hGet
  rw [splitOuter, hNew]
  dsimp only
  have hSet : (m.withTls
      (m.tls.alloc (m.junk m.tls.next))).setTl m.tls.next
        (fun x =>
          { x with
            level := cfg.maxLevel
            right := none
            left := prev
            numLeaves := 1 }) =
      Except.ok (m.withTls
        ((m.tls.alloc (m.junk m.tls.next)).modify m.tls.next
          (newLeaf cfg prev))) :=
    Mem.setTl_withTls _ hGet₀
  rw [hSet, ok_bind, linkSplitNode_eq,
    Mem.setTl_withTls _ hHook₁, ok_bind]
  unfold blNew
  dsimp only
  rw [Mem.setTl_of_get _ hGet₂, ok_bind,
    Mem.setList_of_get _ hList, ok_bind, hNode, ok_bind]
  · rfl
  · rfl

/- The records when a round starts to move nodes. -/
private theorem roundStart_tls
    (cfg : Config) {m : Mem} {above p : Nat}
    {prev : Option Nat} {y : TlNode}
    (hHook : m.tls.get (prev.getD above) = some y) :
    (∃ x, (roundStart cfg m above p prev).tls.get
        m.tls.next = some x ∧
      x.level = cfg.maxLevel ∧ x.numLeaves = 1 ∧
      x.below = .list m.lists.next ∧ x.left = prev ∧
      x.right = none) ∧
    (roundStart cfg m above p prev).tls.get
      (prev.getD above) = some (hang m.tls.next prev y) ∧
    ∀ t, t < m.tls.next → t ≠ prev.getD above →
      (roundStart cfg m above p prev).tls.get t =
        m.tls.get t := by
  have hHookLt := Heap.lt_next hHook
  have hNe : m.tls.next ≠ prev.getD above := by omega
  have hGet₁ := Heap.get_modify_self (newLeaf cfg prev)
    (Heap.get_alloc_self (h := m.tls) (m.junk m.tls.next))
  unfold roundStart
  dsimp only
  refine ⟨?_, ?_, ?_⟩
  · have hGet₂ := hGet₁
    rw [← Heap.get_modify_of_ne (hang m.tls.next prev) hNe]
      at hGet₂
    exact ⟨_, Heap.get_modify_self _ hGet₂, rfl, rfl, rfl,
      rfl, rfl⟩
  · rw [Heap.get_modify_of_ne _ hNe.symm]
    apply Heap.get_modify_self
    rw [Heap.get_modify_of_ne _ hNe.symm,
      Heap.get_alloc_of_get _ hHook]
  · intro t ht htHook
    rw [Heap.get_modify_of_ne _ (by omega),
      Heap.get_modify_of_ne _ htHook,
      Heap.get_modify_of_ne _ (by omega),
      Heap.get_alloc_of_ne _ (by omega)]

/- One round of the split. -/
private theorem splitOuter_round
    {cfg : Config} {m : Mem} {above q f k p : Nat}
    {prev before : Option Nat} {lab : Label}
    {rest : List (Nat × Label)} {y : TlNode}
    (hCfg : cfg.WellFormed)
    (hChain : Chain m.nodes q before ((p, lab) :: rest))
    (hNodup : (((p, lab) :: rest).map Prod.fst).Nodup)
    (hHook : m.tls.get (prev.getD above) = some y) :
    ∃ m',
      splitOuter cfg above (f + 1) m (some p) prev k =
        splitOuter cfg above f m'
          (firstNode
            (((p, lab) :: rest).drop cfg.sublistSize))
          (some m.tls.next) (k + 1) ∧
      SplitOne cfg m m' above q prev ((p, lab) :: rest) := by
  have hStart := splitOuter_start cfg (f := f) (k := k)
    hHook hChain.1
  have hTls := roundStart_tls cfg (p := p) hHook
  generalize hm₁ : roundStart cfg m above p prev = m₁
    at hStart hTls
  have hList : m₁.lists.get m.lists.next = some
      { head := none, tail := none
        above := some m.tls.next, heavy := false } := by
    rw [← hm₁]
    exact Heap.get_modify_self _ (Heap.get_alloc_self _)
  have hOldLists : ∀ l, l < m.lists.next →
      m₁.lists.get l = m.lists.get l := by
    intro l hl
    rw [← hm₁]
    unfold roundStart
    dsimp only
    rw [Heap.get_modify_of_ne _ (by omega),
      Heap.get_alloc_of_ne _ (by omega)]
  have hOldNodes : ∀ r, r ≠ p →
      m₁.nodes.get r = m.nodes.get r := by
    intro r hr
    rw [← hm₁]
    exact Heap.get_modify_of_ne _ hr
  have hLinked : Linked m₁ m.lists.next (spaced cfg 0 []) :=
    ⟨⟨_, hList, rfl, rfl⟩, trivial, List.Pairwise.nil⟩
  have hNodup' := hNodup
  rw [List.map_cons, List.nodup_cons] at hNodup'
  have hChain₁ : Chain m₁.nodes q ([] : List Nat).getLast?
      ((p, lab) :: rest) := by
    constructor
    · rw [← hm₁]
      exact Heap.get_modify_self _ hChain.1
    · apply hChain.2.congr
      intro r hr
      apply hOldNodes
      rintro rfl
      exact hNodup'.1 hr
  have hRoom : ([] : List Nat).length + cfg.sublistSize ≤
      cfg.sublistSize := by
    simp
  rcases splitInner_spec hCfg hLinked hChain₁ hNodup hRoom
    with ⟨m', hRun, hLinked', hChain', hFrame⟩
  rw [List.nil_append] at hLinked' hChain' hFrame
  rw [List.length_nil, labelAt_zero] at hRun
  have hPos := hCfg.sublist_pos
  refine ⟨m', ?_, ?_⟩
  · rw [hStart]
    rw [firstNode_cons] at hRun
    rw [hRun, ok_bind]
  · constructor
    · refine ⟨?_, hLinked', ?_, ?_⟩
      · rcases hFrame.thisList _ hList with
          ⟨head, tail, hGet⟩
        exact ⟨_, hGet, rfl, rfl⟩
      · cases hSize : cfg.sublistSize with
        | zero => omega
        | succ k => simp
      · rw [List.length_map, List.length_take]
        omega
    · exact ⟨_, hChain'⟩
    · rw [hFrame.nodesNext, ← hm₁]
      rfl
    · intro r hr
      rw [hFrame.otherNodes r hr]
      apply hOldNodes
      rintro rfl
      apply hr
      cases hSize : cfg.sublistSize with
      | zero => omega
      | succ k => simp
    · rw [hFrame.listsNext, ← hm₁]
      rfl
    · intro l hl
      rw [hFrame.otherLists l (by omega), hOldLists l hl]
    · rw [hFrame.tls, ← hm₁]
      rfl
    · rw [hFrame.tls]
      exact hTls.1
    · intro z hz
      rw [hHook] at hz
      cases hz
      rw [hFrame.tls]
      exact hTls.2.1
    · rw [hFrame.tls]
      exact hTls.2.2
    · rw [hFrame.junk, ← hm₁]
      rfl

/- The number of lists that a list is split into. -/
def numSublists (cfg : Config) (size : Nat) : Nat :=
  (size + cfg.sublistSize - 1) / cfg.sublistSize

theorem numSublists_zero
    {cfg : Config}
    (hCfg : cfg.WellFormed) :
    numSublists cfg 0 = 0 := by
  have hPos := hCfg.sublist_pos
  unfold numSublists
  apply Nat.div_eq_of_lt
  omega

theorem numSublists_mono
    (cfg : Config) {k n : Nat}
    (hLe : k ≤ n) :
    numSublists cfg k ≤ numSublists cfg n := by
  unfold numSublists
  apply Nat.div_le_div_right
  omega

/- The first list, and the others. -/
theorem numSublists_sub
    {cfg : Config} {size : Nat}
    (hCfg : cfg.WellFormed)
    (hSize : 0 < size) :
    numSublists cfg size =
      numSublists cfg (size - cfg.sublistSize) + 1 := by
  have hPos := hCfg.sublist_pos
  unfold numSublists
  rw [← Nat.add_div_right _ hPos]
  by_cases hLe : cfg.sublistSize ≤ size
  · congr 1
    omega
  · have hOne : (size + cfg.sublistSize - 1) /
        cfg.sublistSize = 1 := by
      apply Nat.div_eq_of_lt_le <;> omega
    have hNone : (size - cfg.sublistSize +
        cfg.sublistSize - 1 + cfg.sublistSize) /
          cfg.sublistSize = 1 := by
      apply Nat.div_eq_of_lt_le <;> omega
    rw [hOne, hNone]

/- A list is split if it has more nodes than a sublist. -/
theorem one_lt_numSublists_iff
    {cfg : Config} {size : Nat}
    (hCfg : cfg.WellFormed) :
    1 < numSublists cfg size ↔ cfg.sublistSize < size := by
  have hPos := hCfg.sublist_pos
  unfold numSublists
  rw [← Nat.succ_le_iff, Nat.le_div_iff_mul_le hPos]
  omega

/- What the split of a chain of nodes leads to. -/
structure SplitInto
    (cfg : Config) (m m' : Mem) (above : Nat)
    (prev : Option Nat) (ps : List Nat)
    (parts : List (Nat × Nat)) (chunks : List (List Nat)) :
    Prop where
  flatten : chunks.flatten = ps
  lists : List.Forall₂ (PartOf cfg m') parts chunks
  chain : SplitChain cfg m'.tls prev parts
  fresh : ∀ x ∈ parts, m.tls.next ≤ x.1 ∧ m.lists.next ≤ x.2
  nodupTls : (parts.map Prod.fst).Nodup
  nodupLists : (parts.map Prod.snd).Nodup
  nodesNext : m'.nodes.next = m.nodes.next
  otherNodes : ∀ p, p ∉ ps → m'.nodes.get p = m.nodes.get p
  listsNext : m.lists.next ≤ m'.lists.next
  otherLists : ∀ l, l < m.lists.next →
    m'.lists.get l = m.lists.get l
  tlsNext : m.tls.next ≤ m'.tls.next
  hung : ∀ y, m.tls.get (prev.getD above) = some y →
    m'.tls.get (prev.getD above) =
      some (hangFirst parts prev y)
  otherTls : ∀ t, t < m.tls.next → t ≠ prev.getD above →
    m'.tls.get t = m.tls.get t
  junk : m'.junk = m.junk
  count : parts.length = numSublists cfg ps.length
  full : ∀ c ∈ chunks.dropLast, c.length = cfg.sublistSize

/- Nothing is left to be moved. -/
private theorem SplitInto.nil
    {cfg : Config} (m : Mem) (above : Nat)
    (prev : Option Nat)
    (hCfg : cfg.WellFormed) :
    SplitInto cfg m m above prev [] [] [] := by
  constructor
  · rfl
  · exact List.Forall₂.nil
  · trivial
  · intro x hx
    cases hx
  · exact List.nodup_nil
  · exact List.nodup_nil
  · rfl
  · intro _ _
    rfl
  · exact Nat.le_refl _
  · intro _ _
    rfl
  · exact Nat.le_refl _
  · intro y hy
    exact hy
  · intro _ _ _
    rfl
  · rfl
  · rw [List.length_nil, List.length_nil,
      numSublists_zero hCfg]
  · intro c hc
    cases hc

/- One round, and then the others. -/
private theorem SplitInto.cons
    {cfg : Config} {m m₁ m' : Mem} {above q : Nat}
    {prev : Option Nat} {xs : List (Nat × Label)}
    {y : TlNode}
    {parts : List (Nat × Nat)} {chunks : List (List Nat)}
    (hCfg : cfg.WellFormed)
    (hNonempty : xs ≠ [])
    (hOne : SplitOne cfg m m₁ above q prev xs)
    (hRest : SplitInto cfg m₁ m' above (some m.tls.next)
      ((xs.drop cfg.sublistSize).map Prod.fst) parts chunks)
    (hNodup : (xs.map Prod.fst).Nodup)
    (hHook : m.tls.get (prev.getD above) = some y) :
    SplitInto cfg m m' above prev (xs.map Prod.fst)
      ((m.tls.next, m.lists.next) :: parts)
      ((xs.take cfg.sublistSize).map Prod.fst :: chunks) := by
  have hTls := hOne.tlsNext
  have hLists := hOne.listsNext
  have hHookLt := Heap.lt_next hHook
  have hSplit : (xs.take cfg.sublistSize).map Prod.fst ++
      (xs.drop cfg.sublistSize).map Prod.fst =
        xs.map Prod.fst := by
    rw [← List.map_append, List.take_append_drop]
  rw [← hSplit, List.nodup_append'] at hNodup
  constructor
  · rw [List.flatten_cons, hRest.flatten, hSplit]
  · apply List.Forall₂.cons _ hRest.lists
    apply hOne.part.congr
    · exact hRest.otherLists _ (by dsimp only; omega)
    · intro p hp
      apply hRest.otherNodes
      intro hMem
      exact hNodup.2.2 hp hMem
  · refine ⟨?_, hRest.chain⟩
    rcases hOne.leaf with
      ⟨x, hGet, hLevel, hCount, hBelow, hLeft, hRight⟩
    have hHung := hRest.hung x hGet
    refine ⟨_, hHung, ?_⟩
    cases parts with
    | nil => exact ⟨hLevel, hCount, hBelow, hLeft, hRight⟩
    | cons part parts =>
        exact ⟨hLevel, hCount, hBelow, hLeft, rfl⟩
  · intro x hx
    rw [List.mem_cons] at hx
    rcases hx with rfl | hx
    · exact ⟨Nat.le_refl _, Nat.le_refl _⟩
    · have := hRest.fresh x hx
      omega
  · rw [List.map_cons, List.nodup_cons]
    refine ⟨?_, hRest.nodupTls⟩
    intro hMem
    rw [List.mem_map] at hMem
    rcases hMem with ⟨x, hx, hEq⟩
    have := (hRest.fresh x hx).1
    dsimp only at hEq
    omega
  · rw [List.map_cons, List.nodup_cons]
    refine ⟨?_, hRest.nodupLists⟩
    intro hMem
    rw [List.mem_map] at hMem
    rcases hMem with ⟨x, hx, hEq⟩
    have := (hRest.fresh x hx).2
    dsimp only at hEq
    omega
  · rw [hRest.nodesNext, hOne.nodesNext]
  · intro p hp
    rw [← hSplit, List.mem_append, not_or] at hp
    rw [hRest.otherNodes p hp.2, hOne.otherNodes p hp.1]
  · have := hRest.listsNext
    omega
  · intro l hl
    rw [hRest.otherLists l (by omega), hOne.otherLists l hl]
  · have := hRest.tlsNext
    omega
  · intro z hz
    dsimp only [hangFirst]
    rw [← hOne.hung z hz]
    apply hRest.otherTls _ (by omega)
    rw [Option.getD_some]
    omega
  · intro t ht htHook
    rw [hRest.otherTls t (by omega) (by
      rw [Option.getD_some]
      omega), hOne.otherTls t ht htHook]
  · rw [hRest.junk, hOne.junk]
  · have hPos := List.length_pos_iff.mpr hNonempty
    rw [List.length_cons, hRest.count, List.length_map,
      List.length_map, List.length_drop,
      ← numSublists_sub hCfg hPos]
  · -- With nodes left over, the first list is full.
    cases chunks with
    | nil =>
        intro c hc
        cases hc
    | cons c' chunks =>
        rw [List.dropLast_cons_cons, List.forall_mem_cons]
        refine ⟨?_, hRest.full⟩
        have hOf := hRest.lists
        rw [List.forall₂_cons_right_iff] at hOf
        rcases hOf with ⟨part, parts', hPart, -, -⟩
        have hFlat := congrArg List.length hRest.flatten
        have hPos' := List.length_pos_iff.mpr hPart.nonempty
        rw [List.flatten_cons, List.length_append,
          List.length_map, List.length_drop] at hFlat
        rw [List.length_map, List.length_take]
        omega

/- The loop over the new lists. -/
theorem splitOuter_spec
    {cfg : Config} {m : Mem} {above q f k : Nat}
    {prev before : Option Nat} {xs : List (Nat × Label)}
    {y : TlNode}
    (hCfg : cfg.WellFormed)
    (hChain : Chain m.nodes q before xs)
    (hNodup : (xs.map Prod.fst).Nodup)
    (hHook : m.tls.get (prev.getD above) = some y)
    (hFuel : xs.length ≤ f) :
    ∃ m' parts chunks,
      splitOuter cfg above f m (firstNode xs) prev k =
        Except.ok (m', k + parts.length) ∧
      SplitInto cfg m m' above prev (xs.map Prod.fst) parts
        chunks := by
  have hPos := hCfg.sublist_pos
  induction f generalizing m prev before xs y k with
  | zero =>
      obtain rfl : xs = [] := List.length_eq_zero_iff.mp
        (by omega)
      refine ⟨m, [], [], ?_, SplitInto.nil m above prev hCfg⟩
      unfold splitOuter
      rfl
  | succ f ih =>
      cases xs with
      | nil =>
          refine ⟨m, [], [], ?_,
            SplitInto.nil m above prev hCfg⟩
          unfold splitOuter
          rfl
      | cons x rest =>
          rcases x with ⟨p, lab⟩
          rcases splitOuter_round (f := f) (k := k) hCfg hChain
            hNodup hHook with ⟨m₁, hRun, hOne⟩
          rcases hOne.rest with ⟨before', hChain'⟩
          rcases hOne.leaf with ⟨x, hGet, -⟩
          have hNodup' := hNodup.sublist
            (((p, lab) :: rest).drop_sublist
              cfg.sublistSize |>.map Prod.fst)
          have hLength :
              (((p, lab) :: rest).drop
                cfg.sublistSize).length ≤ f := by
            rw [List.length_cons] at hFuel
            rw [List.length_drop, List.length_cons]
            omega
          have hHook' : m₁.tls.get
              ((some m.tls.next).getD above) = some x := hGet
          rcases ih (k := k + 1) hChain' hNodup' hHook'
            hLength with
            ⟨m', parts, chunks, hRun', hSplit⟩
          refine ⟨m', _, _, ?_,
            SplitInto.cons hCfg (List.cons_ne_nil _ _) hOne
              hSplit hNodup hHook⟩
          rw [firstNode_cons, hRun, hRun', List.length_cons]
          congr 2
          omega

/- A relation between members is weakened. -/
theorem forall₂_imp_of_mem
    {α β : Type*} {R S : α → β → Prop}
    {l₁ : List α} {l₂ : List β}
    (h : List.Forall₂ R l₁ l₂)
    (hImp : ∀ a ∈ l₁, ∀ b ∈ l₂, R a b → S a b) :
    List.Forall₂ S l₁ l₂ := by
  rw [List.forall₂_iff_zip]
  refine ⟨h.length_eq, ?_⟩
  intro a b hab
  have hMem := List.of_mem_zip hab
  exact hImp a hMem.1 b hMem.2 (List.forall₂_zip h hab)

------------------------------------------------------------
-- Splitting
------------------------------------------------------------

/- What the split of a list leads to. -/
structure SplitList
    (cfg : Config) (m m' : Mem) (list above : Nat)
    (a : TlNode) (ps : List Nat)
    (parts : List (Nat × Nat)) (chunks : List (List Nat)) :
    Prop where
  flatten : chunks.flatten = ps
  lists : List.Forall₂ (PartOf cfg m') parts chunks
  chain : SplitChain cfg m'.tls none parts
  fresh : ∀ x ∈ parts, m.tls.next ≤ x.1 ∧ m.lists.next ≤ x.2
  nodupTls : (parts.map Prod.fst).Nodup
  nodupLists : (parts.map Prod.snd).Nodup
  nodesNext : m'.nodes.next = m.nodes.next
  otherNodes : ∀ p, p ∉ ps → m'.nodes.get p = m.nodes.get p
  listsNext : m.lists.next ≤ m'.lists.next
  otherLists : ∀ l, l < m.lists.next → l ≠ list →
    m'.lists.get l = m.lists.get l
  freed : m'.lists.get list = none
  tlsNext : m.tls.next ≤ m'.tls.next
  opened : ∃ first, parts.head?.map Prod.fst = some first ∧
    m'.tls.get above =
      some { a with below := .splitNodes first }
  otherTls : ∀ t, t < m.tls.next → t ≠ above →
    m'.tls.get t = m.tls.get t
  junk : m'.junk = m.junk
  count : parts.length = numSublists cfg ps.length
  full : ∀ c ∈ chunks.dropLast, c.length = cfg.sublistSize

/- A list that is not empty is split into new lists. -/
theorem split_spec
    {cfg : Config} {m : Mem} {list above : Nat} {l : BList}
    {a : TlNode} {xs : List (Nat × Label)}
    (hCfg : cfg.WellFormed)
    (hLinked : Linked m list xs)
    (hNonempty : xs ≠ [])
    (hList : m.lists.get list = some l)
    (hAbove : l.above = some above)
    (hGet : m.tls.get above = some a)
    (hBelow : a.below = .list list) :
    ∃ m' parts chunks,
      split cfg m list = Except.ok (m', parts.length) ∧
      SplitList cfg m m' list above a (xs.map Prod.fst) parts
        chunks := by
  rcases hLinked.ends with ⟨l', hList', hHead, -⟩
  rw [hList] at hList'
  cases hList'
  have hNodup := hLinked.chain.nodup hLinked.sorted
  have hFuel : xs.length ≤ m.nodes.next + 1 := by
    have := Heap.length_le_next hNodup (h := m.nodes) (by
      intro p hp
      rw [List.mem_map] at hp
      rcases hp with ⟨x, hx, rfl⟩
      rcases hLinked.chain.exists_get hx with ⟨_, _, h⟩
      exact ⟨_, h⟩)
    rw [List.length_map] at this
    omega
  have hHook : m.tls.get ((none : Option Nat).getD above) =
      some a := hGet
  rcases splitOuter_spec (k := 0) hCfg hLinked.chain hNodup
    hHook hFuel with ⟨m₁, parts, chunks, hRun, hSplit⟩
  have hLt := Heap.lt_next hList
  have hListsNext := hSplit.listsNext
  have hList₁ : m₁.lists.get list = some l := by
    rw [hSplit.otherLists list hLt]
    exact hList
  have hHeadNe : l.head ≠ none := by
    rw [hHead]
    cases xs with
    | nil => exact absurd rfl hNonempty
    | cons x xs => simp
  obtain ⟨m', hm'⟩ : ∃ m' : Mem, m' =
      { m₁.mapList list fun l =>
          { l with head := none, tail := none } with
        lists := (m₁.lists.modify list fun l =>
          { l with head := none, tail := none }).free list } :=
    ⟨_, rfl⟩
  have hOther : ∀ q, q ≠ list →
      m'.lists.get q = m₁.lists.get q := by
    intro q hq
    rw [hm']
    dsimp only
    rw [Heap.get_free, if_neg hq,
      Heap.get_modify_of_ne _ hq]
  have hParts : parts ≠ [] := by
    rintro rfl
    have hEmpty := hSplit.lists
    rw [List.forall₂_nil_left_iff] at hEmpty
    have hFlat := hSplit.flatten
    rw [hEmpty, List.flatten_nil] at hFlat
    apply hNonempty
    exact List.map_eq_nil_iff.mp hFlat.symm
  refine ⟨m', parts, chunks, ?_, ?_⟩
  · unfold split
    rw [Mem.load_of_get hList, ok_bind, hAbove, deref_some,
      ok_bind, Mem.load_of_get hGet, ok_bind,
      check_of hBelow, ok_bind, check_of hHeadNe, ok_bind,
      hHead, hRun, ok_bind]
    dsimp only
    rw [Mem.setList_of_get _ hList₁, ok_bind, hm',
      Nat.zero_add]
    rfl
  · constructor
    · exact hSplit.flatten
    · apply forall₂_imp_of_mem hSplit.lists
      intro part hPart ps _ hOf
      have hNe : part.2 ≠ list := by
        have := (hSplit.fresh part hPart).2
        omega
      apply hOf.congr (hOther _ hNe)
      intro p _
      rw [hm']
      rfl
    · rw [hm']
      exact hSplit.chain
    · exact hSplit.fresh
    · exact hSplit.nodupTls
    · exact hSplit.nodupLists
    · rw [hm']
      exact hSplit.nodesNext
    · intro p hp
      rw [hm']
      exact hSplit.otherNodes p hp
    · rw [hm']
      exact hListsNext
    · intro q hq hqList
      rw [hOther q hqList, hSplit.otherLists q hq]
    · rw [hm']
      dsimp only
      rw [Heap.get_free, if_pos rfl]
    · rw [hm']
      exact hSplit.tlsNext
    · cases parts with
      | nil => exact absurd rfl hParts
      | cons part parts =>
          refine ⟨part.1, rfl, ?_⟩
          rw [hm']
          exact hSplit.hung a hHook
    · intro t ht htAbove
      rw [hm']
      exact hSplit.otherTls t ht htAbove
    · rw [hm']
      exact hSplit.junk
    · exact hSplit.count
    · exact hSplit.full

end OrderMaint

end PRacer
