import PRacer.OrderMaint.BottomList
import PRacer.Foundations.TransitionSystem

/-
  Insertion into bottom lists.

  `Linked` says which nodes a list consists of, with their
  labels.  Insertion finds a label exactly if there is room
  for one, and changes nothing else.

  Main declarations:
    * `averageLabel_toNat`
    * `Chain`, `Linked`
    * `blInsert_of_room`, `blInsert_of_no_room`
    * `blInserts`, `reachable_of_blInserts`
    * `bottomList_insertion`
-/

namespace PRacer

open Foundations

namespace OrderMaint

------------------------------------------------------------
-- Averages
------------------------------------------------------------

/- Both labels are odd. -/
private theorem and_one_iff (x y : Label) :
    x &&& y &&& 1 = 1 ↔ x.toNat % 2 = 1 ∧ y.toNat % 2 = 1 := by
  have hOdd : ∀ k : Nat, k % 2 = 1 ↔ k.testBit 0 = true := by
    intro k
    rw [Nat.testBit_zero, decide_eq_true_iff]
  have hAnd : (x &&& y &&& 1).toNat =
      (x.toNat &&& y.toNat) % 2 := by
    rw [BitVec.toNat_and, BitVec.toNat_and]
    exact Nat.and_one_is_mod _
  rw [← BitVec.toNat_inj, hAnd]
  rw [show (1 : Label).toNat = 1 from rfl]
  rw [hOdd, hOdd, hOdd, Nat.testBit_and, Bool.and_eq_true]

/- The average is exact, rounded down. -/
theorem averageLabel_toNat (x y : Label) :
    (averageLabel x y).toNat = (x.toNat + y.toNat) / 2 := by
  have hx := x.isLt
  have hy := y.isLt
  unfold averageLabel
  dsimp only
  split
  case isTrue hOdd =>
    rw [and_one_iff] at hOdd
    bv_omega
  case isFalse hOdd =>
    rw [and_one_iff] at hOdd
    bv_omega

------------------------------------------------------------
-- Linked Lists
------------------------------------------------------------

/- The record of a node of a list that no insertion uses. -/
def linkedNode
    (self : Nat) (prev next : Option Nat) (lab : Label) :
    BlNode where
  label := lab
  next := next
  prev := prev
  list := self
  inUse := 42
  activeInsert := 0
  lastInsertId := -1

/- The first node of a list of labelled nodes. -/
def firstNode (xs : List (Nat × Label)) : Option Nat :=
  xs.head?.map Prod.fst

/- The last node of a list of labelled nodes, or another. -/
def lastNode
    (prev : Option Nat) : List (Nat × Label) → Option Nat
| [] => prev
| (p, _) :: rest => lastNode (some p) rest

/- Nodes with their labels, linked both ways. -/
def Chain (nodes : Heap BlNode) (self : Nat) :
    Option Nat → List (Nat × Label) → Prop
| _, [] => True
| prev, (p, lab) :: rest =>
    nodes.get p =
        some (linkedNode self prev (firstNode rest) lab) ∧
      Chain nodes self (some p) rest

/- A list consists of nodes with strictly growing labels. -/
structure Linked
    (m : Mem) (list : Nat) (xs : List (Nat × Label)) :
    Prop where
  ends : ∃ l, m.lists.get list = some l ∧
    l.head = firstNode xs ∧ l.tail = lastNode none xs
  chain : Chain m.nodes list none xs
  sorted : (xs.map Prod.snd).Pairwise (· < ·)

@[simp] theorem firstNode_nil : firstNode [] = none := rfl

@[simp] theorem firstNode_cons
    (x : Nat × Label) (xs : List (Nat × Label)) :
    firstNode (x :: xs) = some x.1 := rfl

@[simp] theorem firstNode_append_cons
    (xs ys zs : List (Nat × Label)) (x : Nat × Label) :
    firstNode (xs ++ x :: ys) = firstNode (xs ++ x :: zs) := by
  cases xs <;> rfl

theorem lastNode_append_cons
    (prev : Option Nat)
    (xs ys : List (Nat × Label)) (p : Nat) (lab : Label) :
    lastNode prev (xs ++ (p, lab) :: ys) =
      lastNode (some p) ys := by
  induction xs generalizing prev with
  | nil => rfl
  | cons x xs ih => exact ih (some x.1)

/- The last node is one of the list. -/
theorem lastNode_mem
    {prev : Option Nat} {xs : List (Nat × Label)} {p : Nat}
    (hLast : lastNode prev xs = some p)
    (hPrev : prev ≠ some p) :
    p ∈ xs.map Prod.fst := by
  induction xs generalizing prev with
  | nil => exact absurd hLast hPrev
  | cons x xs ih =>
      rw [List.map_cons, List.mem_cons]
      by_cases hx : p = x.1
      · exact Or.inl hx
      · right
        apply ih hLast
        intro h
        exact hx (Option.some.inj h).symm

namespace Chain

variable {nodes nodes' : Heap BlNode} {self : Nat}

/- A chain depends on its own nodes only. -/
theorem congr
    {prev : Option Nat} {xs : List (Nat × Label)}
    (h : Chain nodes self prev xs)
    (hSame : ∀ p ∈ xs.map Prod.fst,
      nodes'.get p = nodes.get p) :
    Chain nodes' self prev xs := by
  induction xs generalizing prev with
  | nil => trivial
  | cons x xs ih =>
      rcases h with ⟨hHead, hRest⟩
      constructor
      · rw [hSame x.1 (by simp)]
        exact hHead
      · apply ih hRest
        intro p hp
        exact hSame p (by simp only [List.map_cons,
          List.mem_cons, hp, or_true])

/- The part of a chain from a node on. -/
theorem suffix
    {prev : Option Nat} {xs ys : List (Nat × Label)}
    (h : Chain nodes self prev (xs ++ ys)) :
    Chain nodes self (lastNode prev xs) ys := by
  induction xs generalizing prev with
  | nil => exact h
  | cons x xs ih => exact ih h.2

/- The record of a node of a chain. -/
theorem get_middle
    {prev : Option Nat} {xs ys : List (Nat × Label)}
    {p : Nat} {lab : Label}
    (h : Chain nodes self prev (xs ++ (p, lab) :: ys)) :
    nodes.get p = some
      (linkedNode self (lastNode prev xs) (firstNode ys)
        lab) :=
  h.suffix.1

theorem exists_get
    {prev : Option Nat} {xs : List (Nat × Label)}
    {x : Nat × Label}
    (h : Chain nodes self prev xs)
    (hx : x ∈ xs) :
    ∃ before after, nodes.get x.1 =
      some (linkedNode self before after x.2) := by
  rcases List.append_of_mem hx with ⟨ys, zs, rfl⟩
  exact ⟨_, _, h.get_middle⟩

/- Nodes with distinct labels are distinct. -/
theorem nodup
    {prev : Option Nat} {xs : List (Nat × Label)}
    (h : Chain nodes self prev xs)
    (hSorted : (xs.map Prod.snd).Pairwise (· < ·)) :
    (xs.map Prod.fst).Nodup := by
  rw [List.pairwise_map] at hSorted
  unfold List.Nodup
  rw [List.pairwise_map]
  apply hSorted.imp_of_mem
  intro x y hx hy hLt hEq
  rcases h.exists_get hx with ⟨b, a, hGetX⟩
  rcases h.exists_get hy with ⟨b', a', hGetY⟩
  rw [hEq, hGetY] at hGetX
  have hLabel := congrArg BlNode.label
    (Option.some.inj hGetX)
  simp only [linkedNode] at hLabel
  rw [hLabel] at hLt
  exact BitVec.lt_irrefl _ hLt

/-
  Linking a node in: `base` points forward to it, the node
  after `base` points back to it, the others stay.
-/
theorem insert
    {prev : Option Nat} {xs ys : List (Nat × Label)}
    {base n : Nat} {lab new : Label}
    (h : Chain nodes self prev (xs ++ (base, lab) :: ys))
    (hNodup :
      ((xs ++ (base, lab) :: ys).map Prod.fst).Nodup)
    (hBase : nodes'.get base = some
      (linkedNode self (lastNode prev xs) (some n) lab))
    (hNew : nodes'.get n = some
      (linkedNode self (some base) (firstNode ys) new))
    (hAfter : ∀ q, firstNode ys = some q →
      nodes'.get q = (nodes.get q).map
        fun y => { y with prev := some n })
    (hSame : ∀ p ∈ (xs ++ (base, lab) :: ys).map Prod.fst,
      p ≠ base → firstNode ys ≠ some p →
        nodes'.get p = nodes.get p) :
    Chain nodes' self prev
      (xs ++ (base, lab) :: (n, new) :: ys) := by
  induction xs generalizing prev with
  | nil =>
      simp only [List.nil_append] at h hNodup hSame ⊢
      refine ⟨hBase, hNew, ?_⟩
      cases ys with
      | nil => trivial
      | cons y ys =>
          rcases h with ⟨-, hAfterGet, hRest⟩
          constructor
          · rw [hAfter y.1 rfl, hAfterGet]
            rfl
          · apply hRest.congr
            intro p hp
            simp only [List.map_cons, List.nodup_cons,
              List.mem_cons, not_or] at hNodup
            apply hSame p
            · simp only [List.map_cons, List.mem_cons, hp,
                or_true]
            · rintro rfl
              exact hNodup.1.2 hp
            · intro hEq
              cases hEq
              exact hNodup.2.1 hp
  | cons x xs ih =>
      rcases h with ⟨hGet, hRest⟩
      simp only [List.cons_append, List.map_cons,
        List.nodup_cons] at hNodup
      have hNe : x.1 ≠ base := by
        intro hEq
        apply hNodup.1
        simp [hEq]
      constructor
      · rw [hSame x.1 (by simp) hNe]
        · rw [hGet]
          congr 2
          apply firstNode_append_cons
        · intro hEq
          apply hNodup.1
          cases ys with
          | nil => cases hEq
          | cons y ys =>
              simp [Option.some.inj hEq]
      · apply ih hRest hNodup.2 hBase
        intro p hp
        apply hSame p
        simp only [List.cons_append, List.map_cons,
          List.mem_cons, hp, or_true]

end Chain

------------------------------------------------------------
-- New Labels
------------------------------------------------------------

/- The label of `getNewLabel` between two nodes. -/
theorem getNewLabel_middle
    {cfg : Config} {m : Mem} {base q : Nat} {b y : BlNode}
    (hBase : m.nodes.get base = some b)
    (hNext : b.next = some q)
    (hq : m.nodes.get q = some y)
    (hLt : b.label < y.label) :
    getNewLabel cfg m base = Except.ok
      (if averageLabel b.label y.label = b.label then 0
        else averageLabel b.label y.label) := by
  have hAvg := averageLabel_toNat b.label y.label
  generalize hLab : averageLabel b.label y.label = lab at hAvg
  unfold getNewLabel
  simp only [Mem.load_of_get hBase, ok_bind, hNext,
    Mem.load_of_get hq, check_of hLt, hLab, pure,
    Except.pure, reduceCtorEq, if_false]
  by_cases hSame : lab = b.label
  · rw [if_pos hSame, if_pos hSame.symm]
    rfl
  · rw [if_neg hSame, if_neg (Ne.symm hSame)]
    rw [check_of (by bv_omega)]
    rfl

/- The label of `getNewLabel` after the last node. -/
theorem getNewLabel_tail
    {cfg : Config} {m : Mem} {base : Nat} {b : BlNode}
    (hBase : m.nodes.get base = some b)
    (hNext : b.next = none) :
    getNewLabel cfg m base = (do
      let lab := averageLabel b.label cfg.maxLabel + 1
      let lab := if b.label = lab then 0 else lab
      check (lab = 0 ∨ b.label < lab)
      return lab) := by
  unfold getNewLabel
  simp only [Mem.load_of_get hBase, ok_bind, hNext, pure,
    Except.pure, if_true]

------------------------------------------------------------
-- Linking a Node In
------------------------------------------------------------

/- The effect of linking `n` in after `base`. -/
structure LinkedIn
    (nodes nodes' : Heap BlNode)
    (list base n : Nat) (b x : BlNode) : Prop where
  sameNext : nodes'.next = nodes.next
  atBase : nodes'.get base = some { b with next := some n }
  atNode : nodes'.get n = some
    { x with next := b.next, prev := some base, list := list }
  atNext : ∀ q, b.next = some q →
    nodes'.get q = (nodes.get q).map
      fun y => { y with prev := some n }
  elsewhere : ∀ p, p ≠ base → p ≠ n → b.next ≠ some p →
    nodes'.get p = nodes.get p

/- Linking in between two nodes. -/
theorem insertInternal_middle
    {m : Mem} {self base n q : Nat} {l : BList}
    {b x y : BlNode}
    (hList : m.lists.get self = some l)
    (hBase : m.nodes.get base = some b)
    (hNode : m.nodes.get n = some x)
    (hq : m.nodes.get q = some y)
    (hNext : b.next = some q)
    (hTail : l.tail ≠ some base)
    (hLt : b.label < x.label)
    (hnb : n ≠ base) (hqb : q ≠ base) (hqn : q ≠ n) :
    ∃ nodes', insertInternal m self (some base) n =
        Except.ok { m with nodes := nodes' } ∧
      LinkedIn m.nodes nodes' self base n b x := by
  refine ⟨((((m.nodes.modify n fun x =>
    { x with next := some q }).modify q fun y =>
    { y with prev := some n }).modify base fun b =>
    { b with next := some n }).modify n fun x =>
    { x with prev := some base }).modify n fun x =>
    { x with list := self }, ?_, ?_⟩
  · unfold insertInternal
    simp [Mem.load, Mem.setNode, hList, hBase,
      hNode, hq, hNext, check_of hLt, Ne.symm hTail,
      Heap.get_modify, hnb, hqn, hnb.symm, hqb.symm,
      hqn.symm]
    rfl
  · constructor
    · rfl
    · simp [Heap.get_modify, hBase, hnb.symm, hqb.symm]
    · simp [Heap.get_modify, hNode, hnb, hqn.symm, hNext]
    · intro q' hq'
      obtain rfl : q = q' := by
        simpa [hNext] using hq'
      simp [Heap.get_modify, hq, hqn, hqb]
    · intro p hpb hpn hpq
      have hpq' : p ≠ q := by
        rintro rfl
        exact hpq hNext
      simp [Heap.get_modify, hpb, hpn, hpq']

/- Linking in after the last node. -/
theorem insertInternal_tail
    {m : Mem} {self base n : Nat} {l : BList}
    {b x : BlNode}
    (hList : m.lists.get self = some l)
    (hBase : m.nodes.get base = some b)
    (hNode : m.nodes.get n = some x)
    (hNext : b.next = none)
    (hTail : l.tail = some base)
    (hLt : b.label < x.label)
    (hnb : n ≠ base) :
    ∃ nodes', insertInternal m self (some base) n =
        Except.ok { m with
          nodes := nodes'
          lists := m.lists.modify self fun l =>
            { l with tail := some n } } ∧
      LinkedIn m.nodes nodes' self base n b x := by
  refine ⟨(((m.nodes.modify n fun x =>
    { x with next := none }).modify base fun b =>
    { b with next := some n }).modify n fun x =>
    { x with prev := some base }).modify n fun x =>
    { x with list := self }, ?_, ?_⟩
  · unfold insertInternal
    simp [Mem.load, Mem.setNode, Mem.setList,
      hList, hBase, hNode, check_of hLt, hTail,
      Heap.get_modify, hnb, hnb.symm]
    rfl
  · constructor
    · rfl
    · simp [Heap.get_modify, hBase, hnb.symm]
    · simp [Heap.get_modify, hNode, hnb, hNext]
    · intro q hq
      rw [hNext] at hq
      cases hq
    · intro p hpb hpn _
      simp [Heap.get_modify, hpb, hpn]

------------------------------------------------------------
-- Insertion
------------------------------------------------------------

/- What an insertion into a list leaves alone. -/
structure InsertFrame
    (m m' : Mem) (list : Nat) (xs : List (Nat × Label)) :
    Prop where
  nodesNext : m'.nodes.next = m.nodes.next + 1
  otherNodes : ∀ p, p ≠ m.nodes.next →
    p ∉ xs.map Prod.fst → m'.nodes.get p = m.nodes.get p
  listsNext : m'.lists.next = m.lists.next
  otherLists : ∀ p, p ≠ list →
    m'.lists.get p = m.lists.get p
  thisList : ∀ l, m.lists.get list = some l →
    ∃ tail, m'.lists.get list = some { l with tail := tail }
  tls : m'.tls = m.tls
  junk : m'.junk = m.junk

/- The memory while `base` has an active insertion. -/
private def activated (m : Mem) (base : Nat) : Mem :=
  m.mapNode base fun b =>
    { b with activeInsert := b.activeInsert + 1 }

/- An insertion up to the choice of its label. -/
private theorem blInsert_eq
    {cfg : Config} {m : Mem} {self base : Nat} {b : BlNode}
    (hBase : m.nodes.get base = some b)
    (hQuiet : b.activeInsert = 0 ∧ b.lastInsertId = -1) :
    blInsert cfg m self base = (do
      let m := activated m base
      let lab ← getNewLabel cfg m base
      let (m, n) ←
        if 0 < lab then do
          let (m, n) := nodeNew m
          let m ← m.setNode n fun x => { x with label := lab }
          let m ← insertInternal m self (some base) n
          pure (m, some n)
        else pure (m, none)
      let m ← m.setNode base fun b =>
        { b with activeInsert := b.activeInsert - 1 }
      let b ← Mem.load m.nodes base
      check (b.activeInsert = 0)
      let m ← m.setNode base fun b =>
        { b with lastInsertId := -1 }
      return (m, n)) := by
  have hActive : (m.mapNode base fun b =>
      { b with activeInsert := b.activeInsert + 1 }).nodes.get
        base = some
          { b with activeInsert := b.activeInsert + 1 } :=
    Heap.get_modify_self _ hBase
  unfold blInsert
  simp only [Mem.load_of_get hBase, ok_bind,
    check_of hQuiet, Mem.setNode_of_get _ hBase,
    Mem.load_of_get hActive]
  rw [check_of (by simp [hQuiet.1]), ok_bind]
  rfl

/- Without a label an insertion changes nothing. -/
private theorem blInsert_of_zero
    {cfg : Config} {m : Mem} {self base : Nat} {b : BlNode}
    (hBase : m.nodes.get base = some b)
    (hQuiet : b.activeInsert = 0 ∧ b.lastInsertId = -1)
    (hLabel : getNewLabel cfg (activated m base) base =
      Except.ok 0) :
    blInsert cfg m self base = Except.ok (m, none) := by
  have hActive : (activated m base).nodes.get base = some
      { b with activeInsert := b.activeInsert + 1 } :=
    Heap.get_modify_self _ hBase
  have hDone : ((activated m base).mapNode base fun b =>
      { b with activeInsert := b.activeInsert - 1 }).nodes.get
        base = some
          { b with
            activeInsert := b.activeInsert + 1 - 1 } :=
    Heap.get_modify_self _ hActive
  rw [blInsert_eq hBase hQuiet]
  simp only [hLabel, ok_bind, BitVec.lt_irrefl, if_false,
    pure, Except.pure, Mem.setNode_of_get _ hActive,
    Mem.load_of_get hDone, Mem.setNode_of_get _ hDone]
  rw [check_of (by simp [hQuiet.1]), ok_bind]
  unfold activated Mem.mapNode
  simp only [Heap.modify_modify]
  rw [Heap.modify_eq_self hBase]
  rcases b with ⟨lab, next, prev, list, use, active, last⟩
  obtain ⟨rfl, rfl⟩ := hQuiet
  rfl

/- Linking a node in after `base`, wherever `base` is. -/
private theorem insertInternal_linked
    {m : Mem} {self base n : Nat} {l : BList} {b x : BlNode}
    {ys : List (Nat × Label)}
    (hList : m.lists.get self = some l)
    (hTail : l.tail = lastNode (some base) ys)
    (hBase : m.nodes.get base = some b)
    (hNode : m.nodes.get n = some x)
    (hNext : b.next = firstNode ys)
    (hLt : b.label < x.label)
    (hLive : ∀ y ∈ ys, ∃ r, m.nodes.get y.1 = some r)
    (hnb : n ≠ base)
    (hys : ∀ y ∈ ys, y.1 ≠ base ∧ y.1 ≠ n) :
    ∃ nodes' lists',
      insertInternal m self (some base) n =
          Except.ok { m with
            nodes := nodes', lists := lists' } ∧
        LinkedIn m.nodes nodes' self base n b x ∧
        lists'.next = m.lists.next ∧
        (∀ p, p ≠ self →
          lists'.get p = m.lists.get p) ∧
        lists'.get self =
          some { l with tail := lastNode (some n) ys } := by
  cases ys with
  | nil =>
      rcases insertInternal_tail hList hBase hNode hNext
        hTail hLt hnb with ⟨nodes', hRun, hLinked⟩
      refine ⟨nodes', _, hRun, hLinked, rfl, ?_, ?_⟩
      · intro p hp
        exact Heap.get_modify_of_ne _ hp
      · exact Heap.get_modify_self _ hList
  | cons y ys =>
      rcases hLive y (by simp) with ⟨r, hy⟩
      have hNe := hys y (by simp)
      have hNotTail : l.tail ≠ some base := by
        rw [hTail]
        intro hLast
        have hMem : base ∈ ys.map Prod.fst := by
          have hLast' : lastNode (some y.1) ys = some base :=
            hLast
          apply lastNode_mem hLast'
          simp [hNe.1]
        rw [List.mem_map] at hMem
        rcases hMem with ⟨z, hz, rfl⟩
        exact (hys z (by simp [hz])).1 rfl
      rcases insertInternal_middle hList hBase hNode hy hNext
        hNotTail hLt hnb hNe.1 hNe.2 with
        ⟨nodes', hRun, hLinked⟩
      refine ⟨nodes', m.lists, hRun, hLinked, rfl, ?_, ?_⟩
      · intro p _
        rfl
      · rw [hList]
        congr 1
        rcases l with ⟨head, tail, above, heavy⟩
        have hSame : tail = lastNode (some n) (y :: ys) :=
          hTail
        subst hSame
        rfl

/- A label between its neighbours keeps labels sorted. -/
private theorem sorted_insert
    {xs ys : List Label} {lab new : Label}
    (h : (xs ++ lab :: ys).Pairwise (· < ·))
    (hLt : lab < new)
    (hAfter : ∀ y ∈ ys, new < y) :
    (xs ++ lab :: new :: ys).Pairwise (· < ·) := by
  rw [List.pairwise_append, List.pairwise_cons] at h ⊢
  rcases h with ⟨hxs, ⟨hlab, hys⟩, hCross⟩
  refine ⟨hxs, ⟨?_, ?_⟩, ?_⟩
  · intro y hy
    rcases List.mem_cons.mp hy with rfl | hy
    · exact hLt
    · exact hlab y hy
  · rw [List.pairwise_cons]
    exact ⟨hAfter, hys⟩
  · intro x hx y hy
    rcases List.mem_cons.mp hy with rfl | hy
    · exact hCross x hx y (by simp)
    · rcases List.mem_cons.mp hy with rfl | hy
      · exact BitVec.lt_trans (hCross x hx lab (by simp)) hLt
      · exact hCross x hx y (by simp [hy])

/- With a label for it, an insertion links a node in. -/
private theorem blInsert_of_label
    {cfg : Config} {m : Mem} {self base : Nat}
    {xs ys : List (Nat × Label)} {lab new : Label}
    (h : Linked m self (xs ++ (base, lab) :: ys))
    (hLabel : getNewLabel cfg (activated m base) base =
      Except.ok new)
    (hLt : lab < new)
    (hAfter : ∀ y ∈ ys, new < y.2) :
    ∃ m', blInsert cfg m self base =
        Except.ok (m', some m.nodes.next) ∧
      Linked m' self
        (xs ++ (base, lab) :: (m.nodes.next, new) :: ys) ∧
      InsertFrame m m' self (xs ++ (base, lab) :: ys) := by
  have hNodup := h.chain.nodup h.sorted
  have hBase := h.chain.get_middle
  have hBaseLt := Heap.lt_next hBase
  rcases h.ends with ⟨l, hList, hHead, hTail⟩
  rw [lastNode_append_cons] at hTail
  generalize hn : m.nodes.next = n at hBaseLt
  -- The memory when the node is linked in.
  generalize hm : Mem.mapNode
    (nodeNew (activated m base)).1 n
    (fun x => { x with label := new }) = m₁
  have hNodes : m₁.nodes =
      (((m.nodes.modify base fun b =>
        { b with activeInsert := b.activeInsert + 1 }).alloc
          freshNode).modify n
            fun x => { x with label := new }) := by
    rw [← hm]
    rfl
  have hLists : m₁.lists = m.lists := by
    rw [← hm]
    rfl
  have hOld : ∀ p r, m.nodes.get p = some r → p ≠ n := by
    intro p r hGet
    have := Heap.lt_next hGet
    omega
  have hGetOld : ∀ p, p ≠ base → p ≠ n →
      m₁.nodes.get p = m.nodes.get p := by
    intro p hpb hpn
    rw [hNodes, Heap.get_modify_of_ne _ hpn,
      Heap.get_alloc_of_ne _ (by simp [hn, hpn]),
      Heap.get_modify_of_ne _ hpb]
  have hBase₁ : m₁.nodes.get base = some
      { linkedNode self (lastNode none xs) (firstNode ys)
        lab with activeInsert := 1 } := by
    rw [hNodes,
      Heap.get_modify_of_ne _ (hOld base _ hBase),
      Heap.get_alloc_of_get _
        (Heap.get_modify_self _ hBase)]
    rfl
  have hNode₁ : m₁.nodes.get n =
      some { freshNode with label := new } := by
    rw [hNodes]
    apply Heap.get_modify_self
    rw [← hn]
    exact Heap.get_alloc_self _
  have hys : ∀ y ∈ ys, y.1 ≠ base ∧ y.1 ≠ n := by
    intro y hy
    constructor
    · rintro rfl
      rw [List.map_append, List.nodup_append] at hNodup
      have := (List.nodup_cons.mp hNodup.2.1).1
      exact this (List.mem_map.mpr ⟨y, hy, rfl⟩)
    · rcases h.chain.exists_get (List.mem_append_right xs
        (List.mem_cons_of_mem _ hy)) with ⟨_, _, hGet⟩
      exact hOld _ _ hGet
  rcases insertInternal_linked
    (hLists ▸ hList) hTail hBase₁ hNode₁ rfl hLt
    (by
      intro y hy
      rcases h.chain.exists_get (List.mem_append_right xs
        (List.mem_cons_of_mem _ hy)) with ⟨b, a, hGet⟩
      rw [hGetOld y.1 (hys y hy).1 (hys y hy).2]
      exact ⟨_, hGet⟩)
    (by omega) hys with
    ⟨nodes', lists', hRun, hLinked, hListsNext, hOther,
      hThis⟩
  have hSet : (nodeNew (activated m base)).1.setNode
      (nodeNew (activated m base)).2
      (fun x => { x with label := new }) =
        Except.ok m₁ := by
    have hSecond : (nodeNew (activated m base)).2 = n := hn
    rw [hSecond, ← hm]
    apply Mem.setNode_of_get
    rw [← hn]
    exact Heap.get_alloc_self _
  rw [blInsert_eq hBase ⟨rfl, rfl⟩]
  simp only [hLabel, ok_bind]
  rw [if_pos (by bv_omega)]
  simp only [hSet, ok_bind]
  have hSecond : (nodeNew (activated m base)).2 = n := hn
  rw [hSecond, hRun]
  simp only [ok_bind, pure, Except.pure]
  generalize hm₂ : Mem.mk nodes' lists' m₁.tls m₁.junk = m₂
  have hBase₂ : m₂.nodes.get base = some
      { linkedNode self (lastNode none xs) (some n) lab with
        activeInsert := 1 } := by
    rw [← hm₂]
    exact hLinked.atBase
  have hBase₃ : (m₂.mapNode base fun b =>
      { b with activeInsert := b.activeInsert - 1 }).nodes.get
        base = some
          (linkedNode self (lastNode none xs) (some n)
            lab) :=
    Heap.get_modify_self _ hBase₂
  rw [Mem.setNode_of_get _ hBase₂, ok_bind,
    Mem.load_of_get hBase₃, ok_bind, check_of (by rfl),
    ok_bind, Mem.setNode_of_get _ hBase₃]
  generalize hm₃ : Mem.mapNode
    (m₂.mapNode base fun b =>
      { b with activeInsert := b.activeInsert - 1 }) base
    (fun b => { b with lastInsertId := -1 }) = m₃
  have hAtBase : m₃.nodes.get base = some
      (linkedNode self (lastNode none xs) (some n) lab) := by
    rw [← hm₃]
    exact Heap.get_modify_self _ hBase₃
  have hAtOther : ∀ p, p ≠ base →
      m₃.nodes.get p = nodes'.get p := by
    intro p hp
    rw [← hm₃, Mem.nodes_mapNode, Heap.get_modify_of_ne _ hp,
      Mem.nodes_mapNode, Heap.get_modify_of_ne _ hp, ← hm₂]
  have hLists₃ : m₃.lists = lists' := by
    rw [← hm₃, ← hm₂]
    rfl
  refine ⟨m₃, rfl, ⟨⟨{ l with tail := lastNode (some n) ys },
    ?_, ?_, ?_⟩, ?_, ?_⟩, ?_⟩
  · rw [hLists₃]
    exact hThis
  · dsimp only
    rw [hHead]
    apply firstNode_append_cons
  · rw [lastNode_append_cons]
    rfl
  · apply h.chain.insert hNodup hAtBase
    · rw [hAtOther n (by omega), hLinked.atNode]
      rfl
    · intro q hq
      have hqne : q ≠ base ∧ q ≠ n := by
        cases ys with
        | nil => cases hq
        | cons y ys =>
            cases hq
            exact hys y (by simp)
      rw [hAtOther q hqne.1, hLinked.atNext q hq,
        hGetOld q hqne.1 hqne.2]
    · intro p hp hpb hFirst
      rw [List.mem_map] at hp
      rcases hp with ⟨z, hz, rfl⟩
      rcases h.chain.exists_get hz with ⟨_, _, hGet⟩
      have hzn := hOld _ _ hGet
      rw [hAtOther _ hpb, hLinked.elsewhere _ hpb hzn hFirst,
        hGetOld _ hpb hzn]
  · have hSorted := h.sorted
    simp only [List.map_append, List.map_cons]
      at hSorted ⊢
    apply sorted_insert hSorted hLt
    intro y hy
    rw [List.mem_map] at hy
    rcases hy with ⟨z, hz, rfl⟩
    exact hAfter z hz
  · constructor
    · rw [← hm₃, Mem.nodes_mapNode, Heap.next_modify,
        Mem.nodes_mapNode, Heap.next_modify, ← hm₂]
      dsimp only
      rw [hLinked.sameNext, hNodes]
      rfl
    · intro p hpn hp
      have hpb : p ≠ base := by
        rintro rfl
        apply hp
        simp
      rw [hAtOther p hpb,
        hLinked.elsewhere p hpb (by omega) ?_,
        hGetOld p hpb (by omega)]
      intro hFirst
      apply hp
      cases ys with
      | nil => cases hFirst
      | cons y ys =>
          cases hFirst
          simp
    · rw [hLists₃, hListsNext, hLists]
    · intro p hp
      rw [hLists₃, hOther p hp, hLists]
    · intro l' hl'
      rw [hList] at hl'
      cases hl'
      rw [hLists₃]
      exact ⟨_, hThis⟩
    · rw [← hm₃, ← hm₂, ← hm]
      rfl
    · rw [← hm₃, ← hm₂, ← hm]
      rfl

------------------------------------------------------------
-- Room for a Label
------------------------------------------------------------

/-
  There is a label for a node after one with label `lab`
  that the nodes `ys` follow.
-/
def Room (cfg : Config) (lab : Label) :
    List (Nat × Label) → Prop
| [] => lab ≠ cfg.maxLabel
| y :: _ => ∃ new, lab < new ∧ new < y.2

/- The label after `lab`, computed without wrapping. -/
def exactLabel (cfg : Config) (lab : Label) :
    List (Nat × Label) → Nat
| [] => lab.toNat / 2 + cfg.maxLabel.toNat / 2 +
    (if lab.toNat % 2 = 1 ∧ cfg.maxLabel.toNat % 2 = 1
      then 1 else 0) + 1
| y :: _ => lab.toNat / 2 + y.2.toNat / 2 +
    (if lab.toNat % 2 = 1 ∧ y.2.toNat % 2 = 1
      then 1 else 0)

/- What an insertion with a label for the node does. -/
structure Inserted
    (cfg : Config) (m m' : Mem) (list base : Nat)
    (xs : List (Nat × Label)) (lab new : Label)
    (ys : List (Nat × Label)) : Prop where
  linked : Linked m' list
    (xs ++ (base, lab) :: (m.nodes.next, new) :: ys)
  frame : InsertFrame m m' list (xs ++ (base, lab) :: ys)
  above : lab < new
  below : ∀ y ∈ ys, new < y.2

/- The labels after `base` are above the one after it. -/
private theorem lt_of_sorted
    {xs ys : List (Nat × Label)} {base : Nat} {lab : Label}
    {y : Nat × Label}
    (h : ((xs ++ (base, lab) :: y :: ys).map
      Prod.snd).Pairwise (· < ·)) :
    lab < y.2 ∧ ∀ z ∈ ys, y.2 < z.2 := by
  simp only [List.map_append, List.map_cons,
    List.pairwise_append, List.pairwise_cons] at h
  constructor
  · exact h.2.1.1 y.2 (by simp)
  · intro z hz
    exact h.2.1.2.1 z.2 (List.mem_map_of_mem hz)

/- The record of `base` while the insertion is active. -/
private theorem Linked.get_activated
    {m : Mem} {self base : Nat}
    {xs ys : List (Nat × Label)} {lab : Label}
    (h : Linked m self (xs ++ (base, lab) :: ys)) :
    (activated m base).nodes.get base = some
      { linkedNode self (lastNode none xs) (firstNode ys)
        lab with activeInsert := 1 } :=
  Heap.get_modify_self _ h.chain.get_middle

/- The label that an insertion before `y` computes. -/
private theorem getNewLabel_before
    (cfg : Config) {m : Mem} {self base : Nat}
    {xs ys : List (Nat × Label)} {lab : Label}
    {y : Nat × Label}
    (h : Linked m self (xs ++ (base, lab) :: y :: ys)) :
    getNewLabel cfg (activated m base) base = Except.ok
      (if averageLabel lab y.2 = lab then 0
        else averageLabel lab y.2) := by
  have hBase := h.get_activated
  have hAfter : m.nodes.get y.1 = some
      (linkedNode self (some base) (firstNode ys) y.2) :=
    h.chain.suffix.2.1
  have hNe : y.1 ≠ base := by
    intro hEq
    rw [hEq, h.chain.get_middle] at hAfter
    have hLabel := congrArg BlNode.label
      (Option.some.inj hAfter)
    have hLt := (lt_of_sorted h.sorted).1
    simp only [linkedNode] at hLabel
    rw [hLabel] at hLt
    exact BitVec.lt_irrefl _ hLt
  have hGet : (activated m base).nodes.get y.1 = some
      (linkedNode self (some base) (firstNode ys) y.2) := by
    rw [← hAfter]
    exact Heap.get_modify_of_ne _ hNe
  exact getNewLabel_middle hBase rfl hGet
    (lt_of_sorted h.sorted).1

/- The label that an insertion at the end computes. -/
private theorem getNewLabel_last
    (cfg : Config) {m : Mem} {self base : Nat}
    {xs : List (Nat × Label)} {lab : Label}
    (h : Linked m self (xs ++ [(base, lab)])) :
    getNewLabel cfg (activated m base) base = (do
      let new := averageLabel lab cfg.maxLabel + 1
      let new := if lab = new then 0 else new
      check (new = 0 ∨ lab < new)
      return new) :=
  getNewLabel_tail h.get_activated rfl

/- Insertion before another node. -/
private theorem blInsert_before
    (cfg : Config) {m : Mem} {self base : Nat}
    {xs ys : List (Nat × Label)} {lab : Label}
    {y : Nat × Label}
    (h : Linked m self (xs ++ (base, lab) :: y :: ys)) :
    if averageLabel lab y.2 = lab then
      blInsert cfg m self base = Except.ok (m, none)
    else
      ∃ m', blInsert cfg m self base =
          Except.ok (m', some m.nodes.next) ∧
        Inserted cfg m m' self base xs lab
          (averageLabel lab y.2) (y :: ys) := by
  have hLabel := getNewLabel_before cfg h
  have hAvg := averageLabel_toNat lab y.2
  rcases lt_of_sorted h.sorted with ⟨hLt, hRest⟩
  split
  case isTrue hSame =>
    rw [if_pos hSame] at hLabel
    exact blInsert_of_zero h.chain.get_middle ⟨rfl, rfl⟩
      hLabel
  case isFalse hNew =>
    rw [if_neg hNew] at hLabel
    have hAbove : lab < averageLabel lab y.2 := by
      bv_omega
    have hBelow : ∀ z ∈ y :: ys,
        averageLabel lab y.2 < z.2 := by
      intro z hz
      have hy : averageLabel lab y.2 < y.2 := by
        bv_omega
      rcases List.mem_cons.mp hz with rfl | hz
      · exact hy
      · exact BitVec.lt_trans hy (hRest z hz)
    rcases blInsert_of_label h hLabel hAbove hBelow with
      ⟨m', hRun, hLinked, hFrame⟩
    exact ⟨m', hRun, hLinked, hFrame, hAbove, hBelow⟩

/- Insertion at the end, if the average is a new label. -/
private theorem blInsert_last
    {cfg : Config} {m : Mem} {self base : Nat}
    {xs : List (Nat × Label)} {lab new : Label}
    (h : Linked m self (xs ++ [(base, lab)]))
    (hNew : averageLabel lab cfg.maxLabel + 1 = new)
    (hLt : lab < new) :
    ∃ m', blInsert cfg m self base =
        Except.ok (m', some m.nodes.next) ∧
      Inserted cfg m m' self base xs lab new [] := by
  have hLabel := getNewLabel_last cfg h
  rw [hNew] at hLabel
  dsimp only at hLabel
  rw [if_neg (by bv_omega), check_of (Or.inr hLt)] at hLabel
  rcases blInsert_of_label h hLabel hLt (by simp) with
    ⟨m', hRun, hLinked, hFrame⟩
  exact ⟨m', hRun, hLinked, hFrame, hLt, by simp⟩

/- Insertion at the end, if the average is no new label. -/
private theorem blInsert_last_none
    {cfg : Config} {m : Mem} {self base : Nat}
    {xs : List (Nat × Label)} {lab new : Label}
    (h : Linked m self (xs ++ [(base, lab)]))
    (hNew : averageLabel lab cfg.maxLabel + 1 = new)
    (hOld : new = 0 ∨ lab = new) :
    blInsert cfg m self base = Except.ok (m, none) := by
  have hLabel := getNewLabel_last cfg h
  have hZero : (if lab = new then 0 else new) = 0 := by
    rcases hOld with hOld | hOld
    · simp [hOld]
    · simp [hOld]
  rw [hNew] at hLabel
  dsimp only at hLabel
  rw [hZero, check_of (Or.inl rfl)] at hLabel
  exact blInsert_of_zero h.chain.get_middle ⟨rfl, rfl⟩ hLabel

/- Insertion at the end, if the average is too small. -/
private theorem blInsert_last_fault
    {cfg : Config} {m : Mem} {self base : Nat}
    {xs : List (Nat × Label)} {lab new : Label}
    (h : Linked m self (xs ++ [(base, lab)]))
    (hNew : averageLabel lab cfg.maxLabel + 1 = new)
    (hZero : new ≠ 0)
    (hLt : new < lab) :
    blInsert cfg m self base =
      Except.error Fault.assertion := by
  have hLabel := getNewLabel_last cfg h
  rw [hNew] at hLabel
  dsimp only at hLabel
  rw [if_neg (by bv_omega)] at hLabel
  have hCheck : check (new = 0 ∨ lab < new) =
      Except.error Fault.assertion := by
    unfold check
    rw [if_neg (by bv_omega)]
  rw [hCheck, error_bind] at hLabel
  rw [blInsert_eq h.chain.get_middle ⟨rfl, rfl⟩]
  dsimp only
  rw [hLabel, error_bind]

/- The outcomes of an insertion, in every configuration. -/
theorem blInsert_cases
    (cfg : Config) {m : Mem} {self base : Nat}
    {xs ys : List (Nat × Label)} {lab : Label}
    (h : Linked m self (xs ++ (base, lab) :: ys)) :
    blInsert cfg m self base = Except.ok (m, none) ∨
      blInsert cfg m self base =
        Except.error Fault.assertion ∨
      ∃ m' new, blInsert cfg m self base =
          Except.ok (m', some m.nodes.next) ∧
        Inserted cfg m m' self base xs lab new ys := by
  cases ys with
  | nil =>
      generalize hNew : averageLabel lab cfg.maxLabel + 1 = new
      by_cases hOld : new = 0 ∨ lab = new
      · exact Or.inl (blInsert_last_none h hNew hOld)
      · right
        rw [not_or] at hOld
        by_cases hLt : lab < new
        · right
          rcases blInsert_last h hNew hLt with
            ⟨m', hRun, hInserted⟩
          exact ⟨m', new, hRun, hInserted⟩
        · left
          apply blInsert_last_fault h hNew hOld.1
          bv_omega
  | cons y ys =>
      have hBefore := blInsert_before cfg h
      split at hBefore
      · exact Or.inl hBefore
      · rcases hBefore with ⟨m', hRun, hInserted⟩
        exact Or.inr (Or.inr ⟨m', _, hRun, hInserted⟩)

------------------------------------------------------------
-- The Default Label Width
------------------------------------------------------------

section Default

variable {machine : Machine} {m : Mem}
variable {self base : Nat}
variable {xs ys : List (Nat × Label)} {lab : Label}

theorem maxLabel_toNat (k : Machine) :
    (Config.default k).maxLabel.toNat = 2 ^ 64 - 1 := rfl

/- With room for a label, a node is linked in. -/
theorem blInsert_of_room
    (h : Linked m self (xs ++ (base, lab) :: ys))
    (hRoom : Room (Config.default machine) lab ys) :
    ∃ m' new,
      blInsert (Config.default machine) m self base =
          Except.ok (m', some m.nodes.next) ∧
        Inserted (Config.default machine) m m' self base
          xs lab new ys ∧
        new.toNat =
          exactLabel (Config.default machine) lab ys := by
  have hMax := maxLabel_toNat machine
  cases ys with
  | nil =>
      have hAvg := averageLabel_toNat lab
        (Config.default machine).maxLabel
      have hNe : lab.toNat ≠ 2 ^ 64 - 1 := by
        intro hEq
        apply hRoom
        apply BitVec.eq_of_toNat_eq
        rw [hEq, hMax]
      generalize hNew : averageLabel lab
        (Config.default machine).maxLabel + 1 = new
      have hNat : new.toNat =
          (lab.toNat + (2 ^ 64 - 1)) / 2 + 1 := by
        rw [← hMax, ← hAvg, ← hNew]
        bv_omega
      have hLt : lab < new := by
        bv_omega
      rcases blInsert_last h hNew hLt with
        ⟨m', hRun, hInserted⟩
      refine ⟨m', new, hRun, hInserted, ?_⟩
      simp only [exactLabel, hMax, hNat]
      split <;> omega
  | cons y ys =>
      rcases hRoom with ⟨x, hLow, hHigh⟩
      have hAvg := averageLabel_toNat lab y.2
      have hBefore := blInsert_before
        (Config.default machine) h
      rw [if_neg (by bv_omega)] at hBefore
      rcases hBefore with ⟨m', hRun, hInserted⟩
      refine ⟨m', _, hRun, hInserted, ?_⟩
      simp only [exactLabel, hAvg]
      split <;> omega

/- Without room for a label, nothing changes. -/
theorem blInsert_of_no_room
    (h : Linked m self (xs ++ (base, lab) :: ys))
    (hNoRoom : ¬ Room (Config.default machine) lab ys) :
    blInsert (Config.default machine) m self base =
      Except.ok (m, none) := by
  have hMax := maxLabel_toNat machine
  cases ys with
  | nil =>
      have hAvg := averageLabel_toNat lab
        (Config.default machine).maxLabel
      have hEq : lab = (Config.default machine).maxLabel := by
        by_contra hNe
        exact hNoRoom hNe
      apply blInsert_last_none h rfl
      left
      rw [← hEq] at hMax hAvg ⊢
      bv_omega
  | cons y ys =>
      have hAvg := averageLabel_toNat lab y.2
      have hBefore := blInsert_before
        (Config.default machine) h
      rw [if_pos] at hBefore
      · exact hBefore
      · by_contra hNe
        have hLt := (lt_of_sorted h.sorted).1
        apply hNoRoom
        refine ⟨averageLabel lab y.2, ?_, ?_⟩
        · bv_omega
        · bv_omega

end Default

------------------------------------------------------------
-- Verification
------------------------------------------------------------

/- The loop of `bl_verify` reaches the last node. -/
private theorem blVerifyFrom_of_chain
    {m : Mem} {self fuel : Nat} {prev : Option Nat}
    {p : Nat} {lab : Label} {xs : List (Nat × Label)}
    (h : Chain m.nodes self prev ((p, lab) :: xs))
    (hSorted :
      (((p, lab) :: xs).map Prod.snd).Pairwise (· < ·))
    (hFuel : xs.length < fuel) :
    ∃ last before final,
      blVerifyFrom m self fuel p = Except.ok last ∧
        lastNode prev ((p, lab) :: xs) = some last ∧
        m.nodes.get last =
          some (linkedNode self before none final) := by
  induction xs generalizing prev p lab fuel with
  | nil =>
      cases fuel with
      | zero => omega
      | succ fuel =>
          refine ⟨p, prev, lab, ?_, rfl, h.1⟩
          unfold blVerifyFrom
          rw [Mem.load_of_get h.1]
          rfl
  | cons y xs ih =>
      cases fuel with
      | zero => omega
      | succ fuel =>
          rw [List.map_cons, List.pairwise_cons] at hSorted
          have hLt : lab < y.2 := hSorted.1 y.2 (by simp)
          have hNe : y.1 ≠ p := by
            intro hEq
            have hGet := h.2.1
            rw [hEq, h.1] at hGet
            have hLabel := congrArg BlNode.label
              (Option.some.inj hGet)
            simp only [linkedNode] at hLabel
            rw [hLabel] at hLt
            exact BitVec.lt_irrefl _ hLt
          rw [List.length_cons] at hFuel
          rcases @ih fuel _ _ _ h.2 hSorted.2 (by omega) with
            ⟨last, before, final, hRun, hLast, hGet⟩
          refine ⟨last, before, final, ?_, hLast, hGet⟩
          unfold blVerifyFrom
          simp only [Mem.load_of_get h.1, ok_bind]
          simp [linkedNode, BlNode.Quiet, check, hNe, hLt,
            Mem.load_of_get h.2.1, hRun]

/- A linked list passes `bl_verify`. -/
theorem Linked.verify
    {m : Mem} {self p : Nat} {lab : Label}
    {xs : List (Nat × Label)}
    (h : Linked m self ((p, lab) :: xs)) :
    blVerify m self = Except.ok () := by
  rcases h.ends with ⟨l, hList, hHead, hTail⟩
  have hLength : xs.length < m.nodes.next := by
    have := Heap.length_le_next (h.chain.nodup h.sorted) (by
      intro q hq
      rw [List.mem_map] at hq
      rcases hq with ⟨z, hz, rfl⟩
      rcases h.chain.exists_get hz with ⟨_, _, hGet⟩
      exact ⟨_, hGet⟩)
    simp only [List.map_cons, List.length_cons,
      List.length_map] at this
    omega
  rcases blVerifyFrom_of_chain h.chain h.sorted hLength with
    ⟨last, before, final, hRun, hLast, hGet⟩
  unfold blVerify
  simp only [Mem.load_of_get hList, ok_bind, hHead,
    firstNode_cons, Mem.load_of_get h.chain.1, hRun,
    Mem.load_of_get hGet]
  simp [linkedNode, BlNode.Quiet, check, hTail, hLast]

------------------------------------------------------------
-- Sizes
------------------------------------------------------------

/- The nodes of a list are allocated, once each. -/
theorem Linked.length_le
    {m : Mem} {self : Nat} {xs : List (Nat × Label)}
    (h : Linked m self xs) :
    xs.length ≤ m.nodes.next := by
  have hNodup := h.chain.nodup h.sorted
  have hLe := Heap.length_le_next hNodup (h := m.nodes) (by
    intro p hp
    rw [List.mem_map] at hp
    rcases hp with ⟨x, hx, rfl⟩
    rcases h.chain.exists_get hx with ⟨_, _, hGet⟩
    exact ⟨_, hGet⟩)
  rw [List.length_map] at hLe
  exact hLe

/- The labels of a list are distinct words. -/
theorem Linked.length_le_words
    {m : Mem} {self : Nat} {xs : List (Nat × Label)}
    (h : Linked m self xs) :
    xs.length ≤ 2 ^ 64 := by
  have hSorted := h.sorted
  have hNodup : (xs.map fun x => x.2.toFin).Nodup := by
    unfold List.Nodup
    rw [List.pairwise_map] at hSorted ⊢
    apply hSorted.imp
    intro x y hLt hEq
    have hSame : x.2 = y.2 := BitVec.eq_of_toFin_eq hEq
    rw [hSame] at hLt
    exact BitVec.lt_irrefl _ hLt
  have hLe := hNodup.length_le_card
  rw [List.length_map, Fintype.card_fin] at hLe
  exact hLe

private theorem blSizeFrom_of_chain
    {m : Mem} {self fuel count : Nat} {prev : Option Nat}
    {xs : List (Nat × Label)}
    (h : Chain m.nodes self prev xs)
    (hFuel : xs.length ≤ fuel) :
    blSizeFrom m fuel (firstNode xs) count =
      Except.ok (count + xs.length) := by
  induction xs generalizing fuel count prev with
  | nil =>
      cases fuel <;> rfl
  | cons x xs ih =>
      rw [List.length_cons] at hFuel
      cases fuel with
      | zero => omega
      | succ fuel =>
          rw [firstNode_cons, blSizeFrom,
            Mem.load_of_get h.1, ok_bind]
          dsimp only [linkedNode]
          rw [ih h.2 (by omega), List.length_cons]
          congr 1
          omega

/- The size of a linked list is counted. -/
theorem Linked.blSize_eq
    {m : Mem} {self : Nat} {xs : List (Nat × Label)}
    (h : Linked m self xs) :
    blSize m self = Except.ok xs.length := by
  have hLe := h.length_le
  rcases h.ends with ⟨l, hGet, hHead, -⟩
  unfold blSize
  rw [Mem.load_of_get hGet, ok_bind, hHead,
    blSizeFrom_of_chain h.chain (by omega), Nat.zero_add]

------------------------------------------------------------
-- Runs of Insertions
------------------------------------------------------------

/- The first node of an empty list. -/
theorem linked_of_blInsertInitial
    {m m' : Mem} {self n : Nat} {l : BList}
    (hList : m.lists.get self = some l)
    (hRun : blInsertInitial m self = Except.ok (m', n)) :
    n = m.nodes.next ∧ Linked m' self [(n, 0)] := by
  unfold blInsertInitial at hRun
  rw [Mem.load_of_get hList, ok_bind] at hRun
  rcases bind_eq_ok hRun with ⟨-, -, hRun⟩
  simp [nodeNew, insertInternal, Mem.setList, Mem.setNode,
    hList, Heap.get_modify, pure, Except.pure] at hRun
  rcases hRun with ⟨rfl, rfl⟩
  refine ⟨rfl, ⟨_, Heap.get_modify_self _ hList, rfl, rfl⟩,
    ⟨?_, trivial⟩, by simp⟩
  simp [Heap.get_modify, linkedNode, freshNode]

/- The nodes that the links lead to from the head. -/
inductive InList (m : Mem) (self : Nat) : Nat → Prop
| head {l : BList} {p : Nat} :
    m.lists.get self = some l → l.head = some p →
      InList m self p
| next {n : BlNode} {p q : Nat} :
    InList m self p → m.nodes.get p = some n →
      n.next = some q → InList m self q

/-
  A list starts empty, gets its first node, and then gets
  nodes after any of its nodes.
-/
def bottomListSystem (cfg : Config) (self : Nat) :
    TransitionSystem Mem Nat where
  init m :=
    ∃ m₀ n above,
      m₀.lists.get self = some
          { head := none, tail := none
            above := above, heavy := false } ∧
        blInsertInitial m₀ self = Except.ok (m, n)
  step m base m' :=
    InList m self base ∧
      ∃ n, blInsert cfg m self base = Except.ok (m', n)

/- The links lead to the nodes of the list. -/
theorem Linked.mem_of_inList
    {m : Mem} {self p : Nat} {xs : List (Nat × Label)}
    (h : Linked m self xs)
    (hIn : InList m self p) :
    ∃ lab ys zs, xs = ys ++ (p, lab) :: zs := by
  induction hIn with
  | head hList hHead =>
      rcases h.ends with ⟨l, hList', hHead', -⟩
      rw [hList] at hList'
      cases hList'
      rw [hHead] at hHead'
      cases xs with
      | nil => cases hHead'
      | cons x xs =>
          cases hHead'
          exact ⟨x.2, [], xs, rfl⟩
  | @next n r q _ hGet hNext ih =>
      rcases ih with ⟨lab, ys, zs, rfl⟩
      rw [h.chain.get_middle] at hGet
      cases hGet
      cases zs with
      | nil => cases hNext
      | cons z zs =>
          cases hNext
          exact ⟨z.2, ys ++ [(r, lab)], zs, by simp⟩

/- Every list that insertions build is linked. -/
theorem linked_of_reachable
    {cfg : Config} {m : Mem} {self : Nat}
    (hReach : (bottomListSystem cfg self).Reachable m) :
    ∃ x xs, Linked m self (x :: xs) := by
  apply hReach.invariant
    (P := fun m => ∃ x xs, Linked m self (x :: xs))
  · rintro m ⟨m₀, n, above, hList, hRun⟩
    have hLinked := linked_of_blInsertInitial hList hRun
    exact ⟨_, _, hLinked.2⟩
  · rintro m base m' ⟨x, xs, hLinked⟩ ⟨hIn, n, hRun⟩
    rcases hLinked.mem_of_inList hIn with
      ⟨lab, ys, zs, hSplit⟩
    rw [hSplit] at hLinked
    rcases blInsert_cases cfg hLinked with
      hNone | hFault | ⟨m₁, new, hOk, hInserted⟩
    · rw [hRun] at hNone
      cases hNone
      rw [← hSplit] at hLinked
      exact ⟨x, xs, hLinked⟩
    · rw [hRun] at hFault
      cases hFault
    · rw [hRun] at hOk
      cases hOk
      have hNew := hInserted.linked
      cases ys with
      | nil => exact ⟨_, _, hNew⟩
      | cons y ys => exact ⟨_, _, hNew⟩

/- The links lead to all nodes of the list. -/
theorem Linked.inList
    {m : Mem} {self p : Nat} {lab : Label}
    {xs ys : List (Nat × Label)}
    (h : Linked m self (xs ++ (p, lab) :: ys)) :
    InList m self p := by
  induction xs using List.reverseRecOn generalizing p lab ys with
  | nil =>
      rcases h.ends with ⟨l, hList, hHead, -⟩
      exact InList.head hList hHead
  | append_singleton xs x ih =>
      rw [List.append_assoc] at h
      exact (ih h).next h.chain.get_middle rfl

/- An insertion loses no node, and adds what it returns. -/
theorem inList_of_blInsert
    {cfg : Config} {m m' : Mem} {self base p : Nat}
    {r : Option Nat} {xs : List (Nat × Label)}
    (h : Linked m self xs)
    (hBase : InList m self base)
    (hRun : blInsert cfg m self base = Except.ok (m', r))
    (hIn : InList m self p ∨ r = some p) :
    InList m' self p := by
  rcases h.mem_of_inList hBase with ⟨lab, ys, zs, rfl⟩
  rcases blInsert_cases cfg h with
    hNone | hFault | ⟨m₁, new, hOk, hInserted⟩
  · rw [hRun] at hNone
    cases hNone
    rcases hIn with hIn | hNew
    · exact hIn
    · cases hNew
  · rw [hRun] at hFault
    cases hFault
  · rw [hRun] at hOk
    cases hOk
    have hLinked := hInserted.linked
    rcases hIn with hIn | hNew
    · rcases h.mem_of_inList hIn with ⟨lab', us, vs, hSplit⟩
      have hp : (p, lab') ∈
          ys ++ (base, lab) :: (m.nodes.next, new) :: zs := by
        have hOld : (p, lab') ∈ ys ++ (base, lab) :: zs := by
          simp [hSplit]
        simp only [List.mem_append, List.mem_cons]
          at hOld ⊢
        tauto
      rcases List.mem_iff_append.mp hp with ⟨as, bs, hEq⟩
      rw [hEq] at hLinked
      exact hLinked.inList
    · cases hNew
      rw [List.append_cons] at hLinked
      exact hLinked.inList

/- Insertions in turn, with the nodes that there are. -/
def blInserts (cfg : Config) (self : Nat) :
    Mem → List Nat → List Nat → Run (Mem × List Nat)
| m, nodes, [] => return (m, nodes)
| m, nodes, base :: bases => do
    check (base ∈ nodes)
    let (m, r) ← blInsert cfg m self base
    blInserts cfg self m (r.toList ++ nodes) bases

/- Computed insertions are runs. -/
theorem reachable_of_blInserts
    {cfg : Config} {self : Nat} {m m' : Mem}
    {nodes nodes' bases : List Nat}
    (hReach : (bottomListSystem cfg self).Reachable m)
    (hNodes : ∀ p ∈ nodes, InList m self p)
    (hRun : blInserts cfg self m nodes bases =
      Except.ok (m', nodes')) :
    (bottomListSystem cfg self).Reachable m' ∧
      ∀ p ∈ nodes', InList m' self p := by
  induction bases generalizing m nodes with
  | nil =>
      cases hRun
      exact ⟨hReach, hNodes⟩
  | cons base bases ih =>
      rcases bind_eq_ok hRun with ⟨u, hCheck, hRun⟩
      rcases bind_eq_ok hRun with ⟨⟨m₁, r⟩, hInsert, hRun⟩
      have hBase := hNodes base (of_check hCheck)
      rcases linked_of_reachable hReach with ⟨x, xs, hLinked⟩
      apply ih (hReach.step ⟨hBase, r, hInsert⟩) _ hRun
      intro p hp
      rw [List.mem_append, Option.mem_toList] at hp
      apply inList_of_blInsert hLinked hBase hInsert
      rcases hp with hNew | hOld
      · exact Or.inr hNew
      · exact Or.inl (hNodes p hOld)

/-
  Every list that insertions build passes `bl_verify`.  An
  insertion after a node fails exactly without room for a
  label, and then changes nothing; otherwise it links a node
  in right after its base, with the label between its
  neighbours' that is computed without wrapping.
-/
theorem bottomList_insertion
    {machine : Machine} {m : Mem} {self base : Nat}
    (hReach : (bottomListSystem (Config.default machine)
      self).Reachable m)
    (hIn : InList m self base) :
    blVerify m self = Except.ok () ∧
      ∃ xs lab ys,
        Linked m self (xs ++ (base, lab) :: ys) ∧
        (¬ Room (Config.default machine) lab ys →
          blInsert (Config.default machine) m self base =
            Except.ok (m, none)) ∧
        (Room (Config.default machine) lab ys →
          ∃ m' new,
            blInsert (Config.default machine) m self base =
                Except.ok (m', some m.nodes.next) ∧
              Inserted (Config.default machine) m m' self
                base xs lab new ys ∧
              new ≤ (Config.default machine).maxLabel ∧
              new.toNat = exactLabel
                (Config.default machine) lab ys) := by
  rcases linked_of_reachable hReach with ⟨x, rest, hLinked⟩
  refine ⟨hLinked.verify, ?_⟩
  rcases hLinked.mem_of_inList hIn with ⟨lab, xs, ys, hSplit⟩
  rw [hSplit] at hLinked
  refine ⟨xs, lab, ys, hLinked, ?_, ?_⟩
  · exact blInsert_of_no_room hLinked
  · intro hRoom
    rcases blInsert_of_room hLinked hRoom with
      ⟨m', new, hRun, hInserted, hExact⟩
    refine ⟨m', new, hRun, hInserted, ?_, hExact⟩
    have hMax := maxLabel_toNat machine
    have hLt := new.isLt
    bv_omega

/- The first node of a new list, and 64 more right after it. -/
def manyAfterFirst : Run (Mem × List Nat) := do
  let (m, n) ← blInsertInitial (blNew noMemory).1 0
  blInserts (Config.default Machine.exact) 0 m [n]
    (List.replicate 64 0)

/-
  The first node of this list has its successor at the
  label 1, so there is no room after it.  There is room after
  the last node.
-/
theorem bottomList_insertion_full :
    ∃ m m',
      (bottomListSystem (Config.default Machine.exact)
          0).Reachable m ∧
        InList m 0 0 ∧ InList m 0 1 ∧
        blVerify m 0 = Except.ok () ∧
        (∃ xs lab ys, Linked m 0 (xs ++ (0, lab) :: ys) ∧
          ¬ Room (Config.default Machine.exact) lab ys) ∧
        blInsert (Config.default Machine.exact) m 0 0 =
          Except.ok (m, none) ∧
        blInsert (Config.default Machine.exact) m 0 1 =
          Except.ok (m', some 65) ∧
        ∃ xs lab new ys,
          Inserted (Config.default Machine.exact) m m' 0 1 xs
            lab new ys := by
  have hTest : manyAfterFirst.toOption.any (fun x =>
      0 ∈ x.2 ∧ 1 ∈ x.2 ∧
        (blInsert (Config.default Machine.exact) x.1 0
          0).toOption.any (fun y => y.2 = none) ∧
        (blInsert (Config.default Machine.exact) x.1 0
          1).toOption.any fun y => y.2 = some 65) = true := by
    decide +kernel
  rcases exists_of_test hTest with ⟨⟨m, nodes⟩, hRun, hState⟩
  rw [decide_eq_true_iff] at hState
  rcases hState with ⟨hFirst, hLast, hFull, hOpen⟩
  rcases exists_of_test hFull with ⟨⟨m₁, r⟩, hFull, hNone⟩
  rcases exists_of_test hOpen with ⟨⟨m', r'⟩, hOpen, hSome⟩
  rw [decide_eq_true_iff] at hNone hSome
  dsimp only at hNone hSome
  rw [hNone] at hFull
  rw [hSome] at hOpen
  rcases bind_eq_ok hRun with ⟨⟨m₀, n⟩, hInitial, hRun⟩
  have hInit : (bottomListSystem
      (Config.default Machine.exact) 0).Reachable m₀ :=
    TransitionSystem.Reachable.of_init
      ⟨_, n, none, rfl, hInitial⟩
  have hNode : ∀ p ∈ [n], InList m₀ 0 p := by
    intro p hp
    rw [List.mem_singleton] at hp
    rw [hp]
    have hLinked := (linked_of_blInsertInitial rfl hInitial).2
    rcases hLinked.ends with ⟨l, hList, hHead, -⟩
    exact InList.head hList hHead
  rcases reachable_of_blInserts hInit hNode hRun with
    ⟨hReach, hNodes⟩
  rcases bottomList_insertion hReach (hNodes 0 hFirst) with
    ⟨hVerify, xs, lab, ys, hLinked, hNoRoom, hRoom⟩
  have hNot : ¬ Room (Config.default Machine.exact) lab
      ys := by
    intro hHas
    rcases hRoom hHas with ⟨m₂, new, hOk, -⟩
    rw [hFull] at hOk
    cases hOk
  rcases bottomList_insertion hReach (hNodes 1 hLast) with
    ⟨-, us, lab', vs, hLinked', hNoRoom', hRoom'⟩
  have hHas : Room (Config.default Machine.exact) lab'
      vs := by
    by_contra hNone
    rw [hOpen] at hNoRoom'
    cases hNoRoom' hNone
  rcases hRoom' hHas with ⟨m₂, new, hOk, hInserted, -⟩
  rw [hOpen] at hOk
  rw [← (Prod.mk.inj (Except.ok.inj hOk)).1] at hInserted
  exact ⟨m, m', hReach, hNodes 0 hFirst, hNodes 1 hLast,
    hVerify, ⟨xs, lab, ys, hLinked, hNot⟩, hNoRoom hNot,
    hOpen, us, lab', new, vs, hInserted⟩

end OrderMaint

end PRacer
