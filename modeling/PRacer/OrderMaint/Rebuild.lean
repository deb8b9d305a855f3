import PRacer.OrderMaint.Gather

/-
  Rebuilding a subtree.

  A balanced subtree is built over the array of leaves, if
  they fit into its range; otherwise an assertion fails.

  Main declarations:
    * `AtHand`, `Built`, `BuiltHalves`
    * `rebuildRecursive_spec`, `rebuildRecursive_crowded`
    * `rebuild_spec`, `rebuild_crowded`
-/

namespace PRacer

open Foundations

namespace OrderMaint

------------------------------------------------------------
-- Building a Balanced Subtree
------------------------------------------------------------

/- What building a subtree over leaves leads to. -/
structure Built
    (tls tls' : Heap TlNode) (ls : List (Nat × Nat))
    (t : Shape) : Prop where
  leaves : t.leaves = ls
  unmarked : t.marked = false
  nodup : t.addrs.Nodup
  addrs : ∀ q ∈ t.addrs, q ∈ ls.map Prod.fst ∨ tls.next ≤ q
  next : tls.next ≤ tls'.next
  frame : ∀ q, q < tls.next → q ∉ ls.map Prod.fst →
    tls'.get q = tls.get q
  shallow : ∀ k, ls.length ≤ 2 ^ k → t.depth ≤ k

/- The leaves that are at hand for a subtree. -/
structure AtHand
    (tls : Heap TlNode) (a : LeafArray) (index : Nat)
    (ls : List (Nat × Nat)) : Prop where
  live : ∀ x ∈ ls, ∃ y, tls.get x.1 = some y ∧
    y.below = .list x.2
  nodup : (ls.map Prod.fst).Nodup
  read : ∀ i x, ls[i]? = some x →
    a.read (index + i) = Except.ok x.1

theorem AtHand.lt_next
    {tls : Heap TlNode} {a : LeafArray} {index : Nat}
    {ls : List (Nat × Nat)}
    (h : AtHand tls a index ls) :
    ∀ q ∈ ls.map Prod.fst, q < tls.next := by
  intro q hq
  rw [List.mem_map] at hq
  rcases hq with ⟨x, hx, rfl⟩
  rcases h.live x hx with ⟨y, hGet, -⟩
  exact Heap.lt_next hGet

/- The leaves of the left half. -/
theorem AtHand.left
    {tls tls' : Heap TlNode} {a : LeafArray} {index : Nat}
    {ls rs : List (Nat × Nat)}
    (h : AtHand tls a index (ls ++ rs))
    (hSame : ∀ q ∈ ls.map Prod.fst,
      tls'.get q = tls.get q) :
    AtHand tls' a index ls := by
  constructor
  · intro x hx
    rw [hSame x.1 (List.mem_map_of_mem hx)]
    exact h.live x (List.mem_append_left _ hx)
  · have := h.nodup
    rw [List.map_append, List.nodup_append'] at this
    exact this.1
  · intro i x hx
    apply h.read i x
    rw [List.getElem?_append_left]
    · exact hx
    · rw [List.getElem?_eq_some_iff] at hx
      exact hx.1

/- The leaves of the right half. -/
theorem AtHand.right
    {tls tls' : Heap TlNode} {a : LeafArray} {index : Nat}
    {ls rs : List (Nat × Nat)}
    (h : AtHand tls a index (ls ++ rs))
    (hSame : ∀ q ∈ rs.map Prod.fst,
      tls'.get q = tls.get q) :
    AtHand tls' a (index + ls.length) rs := by
  constructor
  · intro x hx
    rw [hSame x.1 (List.mem_map_of_mem hx)]
    exact h.live x (List.mem_append_right _ hx)
  · have := h.nodup
    rw [List.map_append, List.nodup_append'] at this
    exact this.2.1
  · intro i x hx
    rw [Nat.add_assoc]
    apply h.read (ls.length + i) x
    rw [List.getElem?_append_right (by omega)]
    simpa using hx

/- The leaves stay at hand while their records stay. -/
theorem AtHand.congr
    {tls tls' : Heap TlNode} {a : LeafArray} {index : Nat}
    {ls : List (Nat × Nat)}
    (h : AtHand tls a index ls)
    (hSame : ∀ q ∈ ls.map Prod.fst,
      tls'.get q = tls.get q) :
    AtHand tls' a index ls := by
  constructor
  · intro x hx
    rw [hSame x.1 (List.mem_map_of_mem hx)]
    exact h.live x hx
  · exact h.nodup
  · exact h.read

/- What building two subtrees below a node leads to. -/
structure BuiltHalves
    (tls tls' : Heap TlNode) (n : Nat)
    (fs rs : List (Nat × Nat)) (left right : Shape) :
    Prop where
  leavesL : left.leaves = fs
  leavesR : right.leaves = rs
  unmarkedL : left.marked = false
  unmarkedR : right.marked = false
  nodup : (n :: (left.addrs ++ right.addrs)).Nodup
  addrs : ∀ q ∈ left.addrs ++ right.addrs,
    q ∈ (fs ++ rs).map Prod.fst ∨ tls.next ≤ q
  next : tls.next ≤ tls'.next
  frame : ∀ q, q < tls.next →
    q ∉ (fs ++ rs).map Prod.fst → tls'.get q = tls.get q
  shallowL : ∀ k, fs.length ≤ 2 ^ k → left.depth ≤ k
  shallowR : ∀ k, rs.length ≤ 2 ^ k → right.depth ≤ k

/- Two subtrees that were built one after the other. -/
theorem Built.halves
    {tls tls₂ tls₃ : Heap TlNode} {n : Nat}
    {fs rs : List (Nat × Nat)} {left right : Shape}
    (hLeft : Built tls tls₂ fs left)
    (hRight : Built tls₂ tls₃ rs right)
    (hNew : ∀ q ∈ left.addrs, q < tls₂.next)
    (hOld : ∀ q ∈ (fs ++ rs).map Prod.fst, q < tls.next)
    (hNodup : ((fs ++ rs).map Prod.fst).Nodup)
    (hn : n < tls.next)
    (hNot : n ∉ (fs ++ rs).map Prod.fst) :
    BuiltHalves tls tls₃ n fs rs left right := by
  have hLe := hLeft.next
  have hLe' := hRight.next
  have hAddrs : ∀ q ∈ left.addrs ++ right.addrs,
      q ∈ (fs ++ rs).map Prod.fst ∨ tls.next ≤ q := by
    intro q hq
    rw [List.map_append, List.mem_append]
    rw [List.mem_append] at hq
    rcases hq with hq | hq
    · rcases hLeft.addrs q hq with h | h
      · exact Or.inl (Or.inl h)
      · exact Or.inr h
    · rcases hRight.addrs q hq with h | h
      · exact Or.inl (Or.inr h)
      · exact Or.inr (by omega)
  rw [List.map_append] at hOld
  refine ⟨hLeft.leaves, hRight.leaves, hLeft.unmarked,
    hRight.unmarked, ?_, hAddrs, by omega, ?_,
    hLeft.shallow, hRight.shallow⟩
  · rw [List.nodup_cons]
    constructor
    · intro hMem
      rcases hAddrs n hMem with h | h
      · exact hNot h
      · omega
    · rw [List.nodup_append']
      refine ⟨hLeft.nodup, hRight.nodup, ?_⟩
      intro q hqL hqR
      have hqNew := hNew q hqL
      rw [List.map_append, List.nodup_append'] at hNodup
      rcases hRight.addrs q hqR with hR | hR
      · rcases hLeft.addrs q hqL with hL | hL
        · exact hNodup.2.2 hL hR
        · have := hOld q (List.mem_append_right _ hR)
          omega
      · omega
  · intro q hq hqNot
    rw [List.map_append, List.mem_append, not_or] at hqNot
    rw [hRight.frame q (by omega) hqNot.2,
      hLeft.frame q hq hqNot.1]

/- What a call of `rebuild_recursive` has to lead to. -/
def Rebuilt (cfg : Config) (m : Mem) (a : LeafArray)
    (f : Nat) (tls : Heap TlNode)
    (index parent lo level : Nat) (ls : List (Nat × Nat)) :
    Prop :=
  ∃ tls' t,
    rebuildRecursive cfg f (m.withTls tls) parent a
        index (index + ls.length) (BitVec.ofNat 64 lo)
        (BitVec.ofNat 64
          (lo + 2 ^ (cfg.maxLevel - level) - 1)) =
      Except.ok (m.withTls tls', t.ptr) ∧
    Rep cfg tls' (some parent) lo level false t ∧
    Built tls tls' ls t

/- A change to one of the new nodes. -/
theorem Built.modify
    {tls tls' : Heap TlNode} {ls : List (Nat × Nat)}
    {t : Shape} {p : Nat}
    (h : Built tls tls' ls t)
    (hp : tls.next ≤ p) (f : TlNode → TlNode) :
    Built tls (tls'.modify p f) ls t := by
  rcases h with
    ⟨hLeaves, hMarked, hNodup, hAddrs, hNext, hFrame,
      hShallow⟩
  refine ⟨hLeaves, hMarked, hNodup, hAddrs, hNext, ?_,
    hShallow⟩
  intro q hq hNot
  rw [Heap.get_modify_of_ne _ (by omega)]
  exact hFrame q hq hNot

/- The ends of a range as labels. -/
private theorem range_le
    {cfg : Config} {lo level : Nat}
    (hCfg : cfg.WellFormed)
    (hRange : InRange cfg lo level) :
    BitVec.ofNat 64 lo ≤
      BitVec.ofNat 64 (lo + 2 ^ (cfg.maxLevel - level) - 1) := by
  have hWord := hRange.lt_word hCfg
  have hPow : 0 < 2 ^ (cfg.maxLevel - level) :=
    Nat.pow_pos (by omega)
  rw [BitVec.le_def, toNat_label (by omega),
    toNat_label (by omega)]
  omega

/- A range with one leaf. -/
private theorem rebuildRecursive_leaf
    {cfg : Config} {m : Mem} {tls : Heap TlNode}
    {a : LeafArray} {f index parent lo level : Nat}
    {x : Nat × Nat}
    (hCfg : cfg.WellFormed)
    (hRange : InRange cfg lo level)
    (hHand : AtHand tls a index [x]) :
    Rebuilt cfg m a (f + 1) tls index parent lo level [x] := by
  rcases x with ⟨p, l⟩
  rcases hHand.live (p, l) (by simp) with ⟨y, hGet, hBelow⟩
  have hRead : a.read index = Except.ok p :=
    hHand.read 0 (p, l) rfl
  have hSub : index + [(p, l)].length - index = 1 :=
    Nat.add_sub_cancel_left index 1
  have hGet₁ := Heap.get_modify_self
    (fun x : TlNode =>
      { x with parent := some parent
               needsRebalance := false }) hGet
  refine ⟨(tls.modify p fun x =>
      { x with parent := some parent
               needsRebalance := false }).modify p fun x =>
      { x with
        label := BitVec.ofNat 64 lo
        level := cfg.maxLevel
        left := none
        right := none
        numLeaves := 1 }, .leaf p l, ?_, ?_, ?_⟩
  · unfold rebuildRecursive leafOrNew
    dsimp only
    rw [hSub, if_pos rfl, hRead]
    simp only [ok_bind, pure, Except.pure]
    rw [Mem.setTl_withTls _ hGet, ok_bind,
      check_of (range_le hCfg hRange), ok_bind,
      if_pos trivial, Mem.setTl_withTls _ hGet₁, ok_bind]
    rfl
  · have hGet₂ := Heap.get_modify_self
      (fun x : TlNode =>
        { x with
          label := BitVec.ofNat 64 lo
          level := cfg.maxLevel
          left := none
          right := none
          numLeaves := 1 }) hGet₁
    unfold Rep
    rw [hGet₂]
    simp [hBelow]
  · constructor
    · rfl
    · rfl
    · exact List.nodup_singleton p
    · intro q hq
      exact Or.inl hq
    · exact Nat.le_refl _
    · intro q _ hNot
      have hNe : q ≠ p := by
        simpa using hNot
      rw [Heap.get_modify_of_ne _ hNe,
        Heap.get_modify_of_ne _ hNe]
    · intro k _
      exact Nat.zero_le k

/- The two halves of a subtree, below its new root. -/
private def rebuildHalves (cfg : Config) (fuel : Nat)
    (m : Mem) (n : Nat) (array : LeafArray)
    (lindex rindex : Nat) (llab rlab : Label) :
    Run (Mem × Nat) := do
  let size := rindex - lindex
  let mindex := lindex + (size - size / 2)
  let mlab := middle llab rlab
  let (m, left) ←
    rebuildRecursive cfg fuel m n array lindex mindex
      llab mlab
  let (m, right) ←
    rebuildRecursive cfg fuel m n array mindex rindex
      (mlab + 1) rlab
  let m ← m.setTl n fun x =>
    { x with
      left := some left
      right := some right
      label := rlab
      numLeaves := size }
  check (rlab % 2 = 1)
  return (m, n)

/- The heap after a new root of a subtree was set up. -/
structure Opened
    (tls tls' : Heap TlNode) (parent level : Nat)
    (x : TlNode) : Prop where
  next : tls'.next = tls.next + 1
  get : tls'.get tls.next = some x
  levelEq : x.level = level
  parentEq : x.parent = some parent
  unmarked : x.needsRebalance = false
  frame : ∀ q, q < tls.next → tls'.get q = tls.get q

/- More than one leaf gets a new root. -/
private theorem rebuildRecursive_opened
    (cfg : Config) (m : Mem) {tls : Heap TlNode}
    {parent : Nat} {px : TlNode}
    (hParent : tls.get parent = some px) :
    ∃ tls' x, Opened tls tls' parent (px.level + 1) x ∧
      ∀ f a lindex rindex llab rlab,
        rindex - lindex ≠ 1 → llab ≤ rlab →
          rebuildRecursive cfg (f + 1) (m.withTls tls) parent
              a lindex rindex llab rlab =
            rebuildHalves cfg f (m.withTls tls') tls.next a
              lindex rindex llab rlab := by
  have hGet₀ := Heap.get_modify_self
    (fun x : TlNode =>
      { x with parent := some parent
               needsRebalance := false })
    (Heap.get_alloc_self (h := tls) (m.junk tls.next))
  have hGet₁ := Heap.get_modify_self
    (fun x : TlNode => { x with level := px.level + 1 }) hGet₀
  have hParent₀ := Heap.lt_next hParent
  refine ⟨_, _, ⟨rfl, hGet₁, rfl, rfl, rfl, ?_⟩, ?_⟩
  · intro q hq
    rw [Heap.get_modify_of_ne _ (by omega),
      Heap.get_modify_of_ne _ (by omega),
      Heap.get_alloc_of_ne _ (by omega)]
  · intro f a lindex rindex llab rlab hSize hLe
    have hSame : ((tls.alloc (m.junk tls.next)).modify
        tls.next fun x =>
          { x with parent := some parent
                   needsRebalance := false }).get parent =
            some px := by
      rw [Heap.get_modify_of_ne _ (by omega),
        Heap.get_alloc_of_ne _ (by omega)]
      exact hParent
    have hNew : tlNodeNew (m.withTls tls) =
        (m.withTls (tls.alloc (m.junk tls.next)),
          tls.next) := rfl
    unfold rebuildRecursive leafOrNew
    dsimp only
    rw [if_neg hSize, hNew]
    simp only [pure, Except.pure, ok_bind]
    rw [Mem.setTl_withTls _ (Heap.get_alloc_self _), ok_bind,
      check_of hLe, ok_bind, if_neg hSize, Mem.tls_withTls,
      Mem.load_of_get hSame, ok_bind,
      Mem.setTl_withTls _ hGet₀, ok_bind]
    rfl

/- Two subtrees of half the range, below a node. -/
private theorem rebuilt_halves
    {cfg : Config} {m : Mem} {tls : Heap TlNode}
    {a : LeafArray} {f index n lo level : Nat}
    {x : TlNode} {fs rs : List (Nat × Nat)}
    (hLt : level < cfg.maxLevel)
    (hGet : tls.get n = some x)
    (hHand : AtHand tls a index (fs ++ rs))
    (hNot : n ∉ (fs ++ rs).map Prod.fst)
    (hLeft : Rebuilt cfg m a f tls index n lo (level + 1) fs)
    (hRight : ∀ tls₂, AtHand tls₂ a (index + fs.length) rs →
      tls₂.get n = some x →
        Rebuilt cfg m a f tls₂ (index + fs.length) n
          (lo + 2 ^ (cfg.maxLevel - level - 1)) (level + 1)
          rs) :
    ∃ tls₂ tls₃ left right,
      rebuildRecursive cfg f (m.withTls tls) n a
          index (index + fs.length) (BitVec.ofNat 64 lo)
          (BitVec.ofNat 64
            (lo + 2 ^ (cfg.maxLevel - level - 1) - 1)) =
        Except.ok (m.withTls tls₂, left.ptr) ∧
      rebuildRecursive cfg f (m.withTls tls₂) n a
          (index + fs.length) (index + (fs ++ rs).length)
          (BitVec.ofNat 64
            (lo + 2 ^ (cfg.maxLevel - level - 1)))
          (BitVec.ofNat 64
            (lo + 2 ^ (cfg.maxLevel - level) - 1)) =
        Except.ok (m.withTls tls₃, right.ptr) ∧
      Rep cfg tls₃ (some n) lo (level + 1) false left ∧
      Rep cfg tls₃ (some n)
        (lo + 2 ^ (cfg.maxLevel - level - 1)) (level + 1)
        false right ∧
      BuiltHalves tls tls₃ n fs rs left right := by
  have hOld := hHand.lt_next
  have hNodup := hHand.nodup
  have hn := Heap.lt_next hGet
  have hSub : cfg.maxLevel - (level + 1) =
      cfg.maxLevel - level - 1 := by
    omega
  have hTwo := InRange.two_mul hLt
  have hEnd : lo + 2 ^ (cfg.maxLevel - level - 1) +
      2 ^ (cfg.maxLevel - (level + 1)) - 1 =
        lo + 2 ^ (cfg.maxLevel - level) - 1 := by
    rw [hSub]
    omega
  have hEndR : index + fs.length + rs.length =
      index + (fs ++ rs).length := by
    rw [List.length_append]
    omega
  have hSplit := hNot
  rw [List.map_append, List.mem_append, not_or] at hSplit
  rcases hLeft with ⟨tls₂, left, hRunL, hRepL, hBuiltL⟩
  have hGet₂ : tls₂.get n = some x := by
    rw [hBuiltL.frame n hn hSplit.1]
    exact hGet
  have hHandR : AtHand tls₂ a (index + fs.length) rs := by
    apply hHand.right
    intro q hq
    apply hBuiltL.frame q (hOld q (by simp [hq]))
    intro hqL
    rw [List.map_append, List.nodup_append'] at hNodup
    exact hNodup.2.2 hqL hq
  rcases hRight tls₂ hHandR hGet₂ with
    ⟨tls₃, right, hRunR, hRepR, hBuiltR⟩
  have hBuilt := hBuiltL.halves hBuiltR hRepL.lt_next hOld
    hNodup hn hNot
  rw [hSub] at hRunL
  rw [hEnd, hEndR] at hRunR
  refine ⟨tls₂, tls₃, left, right, hRunL, hRunR, ?_, hRepR,
    hBuilt⟩
  apply hRepL.congr
  intro q hq
  apply hBuiltR.frame q (hRepL.lt_next q hq)
  intro hqR
  have hDisj := hBuilt.nodup
  rw [List.nodup_cons, List.nodup_append'] at hDisj
  apply hDisj.2.2.2 hq
  rw [List.mem_map] at hqR
  rcases hqR with ⟨y, hy, rfl⟩
  rw [← hBuiltR.leaves] at hy
  exact right.leaves_subset_addrs y hy

/- The two subtrees, with the record of the node above. -/
theorem BuiltHalves.rep
    {cfg : Config} {tls tls' : Heap TlNode} {n lo level : Nat}
    {parent : Option Nat} {fs rs : List (Nat × Nat)}
    {left right : Shape} {x : TlNode} {f : TlNode → TlNode}
    (h : BuiltHalves tls tls' n fs rs left right)
    (hLt : level < cfg.maxLevel)
    (hLeft : Rep cfg tls' (some n) lo (level + 1) false left)
    (hRight : Rep cfg tls' (some n)
      (lo + 2 ^ (cfg.maxLevel - level - 1)) (level + 1)
      false right)
    (hGet : tls'.get n = some x)
    (hRecord : f x =
      { label := BitVec.ofNat 64
          (lo + 2 ^ (cfg.maxLevel - level) - 1)
        level := level
        numLeaves := left.count + right.count
        parent := parent
        left := some left.ptr
        right := some right.ptr
        below := x.below
        needsRebalance := false }) :
    Rep cfg (tls'.modify n f) parent lo level false
      (.node n left right) := by
  have hNodup := h.nodup
  rw [List.nodup_cons, List.mem_append, not_or] at hNodup
  rcases hNodup with ⟨⟨hnL, hnR⟩, -⟩
  unfold Rep
  rw [Heap.get_modify_self _ hGet, h.unmarkedL, h.unmarkedR]
  refine ⟨hLt, ⟨x.below, by rw [hRecord]⟩, ?_, ?_⟩
  · apply hLeft.congr
    intro q hq
    apply Heap.get_modify_of_ne
    rintro rfl
    exact hnL hq
  · apply hRight.congr
    intro q hq
    apply Heap.get_modify_of_ne
    rintro rfl
    exact hnR hq

/- Two halves have a level less than the whole. -/
theorem BuiltHalves.shallow
    {tls tls' : Heap TlNode} {n p : Nat}
    {fs rs : List (Nat × Nat)} {left right : Shape}
    (h : BuiltHalves tls tls' n fs rs left right)
    (hMiddle : fs.length = (fs ++ rs).length -
      (fs ++ rs).length / 2)
    (hTwo : 2 ≤ (fs ++ rs).length) :
    ∀ k, (fs ++ rs).length ≤ 2 ^ k →
      (Shape.node p left right).depth ≤ k := by
  intro k hk
  rw [List.length_append] at hMiddle hTwo hk
  cases k with
  | zero => omega
  | succ k =>
      rw [Nat.pow_succ] at hk
      have := h.shallowL k (by omega)
      have := h.shallowR k (by omega)
      rw [Shape.depth]
      omega

/- More than one leaf, below a new root. -/
private theorem rebuilt_node
    {cfg : Config} {m : Mem} {tls tls₁ : Heap TlNode}
    {a : LeafArray} {f index parent lo level : Nat}
    {x : TlNode} {fs rs : List (Nat × Nat)}
    (hCfg : cfg.WellFormed)
    (hRange : InRange cfg lo level)
    (hLt : level < cfg.maxLevel)
    (hOpened : Opened tls tls₁ parent level x)
    (hHand : AtHand tls a index (fs ++ rs))
    (hMiddle : fs.length = (fs ++ rs).length -
      (fs ++ rs).length / 2)
    (hTwo : 2 ≤ (fs ++ rs).length)
    (hEq : rebuildRecursive cfg (f + 1) (m.withTls tls)
        parent a index (index + (fs ++ rs).length)
        (BitVec.ofNat 64 lo)
        (BitVec.ofNat 64
          (lo + 2 ^ (cfg.maxLevel - level) - 1)) =
      rebuildHalves cfg f (m.withTls tls₁) tls.next a
        index (index + (fs ++ rs).length)
        (BitVec.ofNat 64 lo)
        (BitVec.ofNat 64
          (lo + 2 ^ (cfg.maxLevel - level) - 1)))
    (hLeft : Rebuilt cfg m a f tls₁ index tls.next lo
      (level + 1) fs)
    (hRight : ∀ tls₂, AtHand tls₂ a (index + fs.length) rs →
      tls₂.get tls.next = some x →
        Rebuilt cfg m a f tls₂ (index + fs.length) tls.next
          (lo + 2 ^ (cfg.maxLevel - level - 1)) (level + 1)
          rs) :
    Rebuilt cfg m a (f + 1) tls index parent lo level
      (fs ++ rs) := by
  have hOld := hHand.lt_next
  have hNext := hOpened.next
  have hNot : tls.next ∉ (fs ++ rs).map Prod.fst := by
    intro hMem
    have := hOld _ hMem
    omega
  have hHand₁ : AtHand tls₁ a index (fs ++ rs) :=
    hHand.congr fun q hq => hOpened.frame q (hOld q hq)
  rcases rebuilt_halves hLt hOpened.get hHand₁ hNot hLeft
    hRight with
    ⟨tls₂, tls₃, left, right, hRunL, hRunR, hRepL, hRepR,
      hBuilt⟩
  have hGet₃ : tls₃.get tls.next = some x := by
    rw [hBuilt.frame _ (by omega) hNot]
    exact hOpened.get
  have hPow := InRange.two_mul hLt
  have hHalf : 0 < 2 ^ (cfg.maxLevel - level - 1) :=
    Nat.pow_pos (by omega)
  have hWord := hRange.lt_word hCfg
  rw [hPow] at hWord
  have hMid := middle_range hHalf hWord
  have hMidSucc := middle_range_succ hHalf hWord
  rw [← hPow] at hMid hMidSucc
  have hSize : index + (fs ++ rs).length - index =
      (fs ++ rs).length := by
    omega
  have hCount : (fs ++ rs).length =
      left.count + right.count := by
    rw [Shape.count, Shape.count, hBuilt.leavesL,
      hBuilt.leavesR, List.length_append]
  refine ⟨_, .node tls.next left right, ?_,
    hBuilt.rep hLt hRepL hRepR hGet₃ (f := fun x =>
      { x with
        left := some left.ptr
        right := some right.ptr
        label := BitVec.ofNat 64
          (lo + 2 ^ (cfg.maxLevel - level) - 1)
        numLeaves := (fs ++ rs).length }) ?_, ?_⟩
  · rw [hEq]
    unfold rebuildHalves
    dsimp only
    rw [hSize, ← hMiddle, hMid, hRunL, ok_bind]
    dsimp only
    rw [← hMid, hMidSucc, hRunR, ok_bind]
    dsimp only
    rw [Mem.setTl_withTls _ hGet₃, ok_bind,
      check_of (odd_right hCfg hRange hLt), ok_bind]
    rfl
  · rw [hOpened.levelEq, hOpened.parentEq, hOpened.unmarked,
      hCount]
  · apply Built.modify _ (Nat.le_refl _)
    have hAddrs := hBuilt.addrs
    have hNext₃ := hBuilt.next
    constructor
    · rw [Shape.leaves, hBuilt.leavesL, hBuilt.leavesR]
    · rw [Shape.marked, hBuilt.unmarkedL, hBuilt.unmarkedR]
      rfl
    · exact hBuilt.nodup
    · intro q hq
      rw [Shape.addrs, List.mem_cons] at hq
      rcases hq with rfl | hq
      · exact Or.inr (Nat.le_refl _)
      · rcases hAddrs q hq with h | h
        · exact Or.inl h
        · exact Or.inr (by omega)
    · omega
    · intro q hq hqNot
      rw [hBuilt.frame q (by omega) hqNot,
        hOpened.frame q hq]
    · exact hBuilt.shallow hMiddle hTwo

/- The leaves of the left and of the right half. -/
private theorem exists_halves (ls : List (Nat × Nat)) :
    ∃ fs rs, ls = fs ++ rs ∧
      fs.length = ls.length - ls.length / 2 := by
  refine ⟨ls.take (ls.length - ls.length / 2),
    ls.drop (ls.length - ls.length / 2), by simp, ?_⟩
  rw [List.length_take]
  omega

/-
  Leaves that fit into a range become the leaves of a subtree
  with this range.
-/
theorem rebuildRecursive_spec
    {cfg : Config} {m : Mem} {tls : Heap TlNode}
    {a : LeafArray} {f index parent lo level : Nat}
    {px : TlNode} {ls : List (Nat × Nat)}
    (hCfg : cfg.WellFormed)
    (hRange : InRange cfg lo level)
    (hParent : tls.get parent = some px)
    (hLevel : px.level + 1 = level)
    (hHand : AtHand tls a index ls)
    (hPos : 0 < ls.length)
    (hFit : ls.length ≤ 2 ^ (cfg.maxLevel - level))
    (hFuel : ls.length ≤ f) :
    Rebuilt cfg m a f tls index parent lo level ls := by
  induction f generalizing tls index parent lo level px ls with
  | zero => omega
  | succ f ih =>
      by_cases hOne : ls.length = 1
      · rw [List.length_eq_one_iff] at hOne
        rcases hOne with ⟨x, rfl⟩
        exact rebuildRecursive_leaf hCfg hRange hHand
      · have hLt : level < cfg.maxLevel := by
          by_contra hNot
          have hZero : cfg.maxLevel - level = 0 := by omega
          rw [hZero] at hFit
          omega
        have hTwo := InRange.two_mul hLt
        have hSub : cfg.maxLevel - (level + 1) =
            cfg.maxLevel - level - 1 := by
          omega
        rcases rebuildRecursive_opened cfg m hParent with
          ⟨tls₁, x, hOpened, hEq⟩
        rw [hLevel] at hOpened
        have hEq' := hEq f a index (index + ls.length) _ _
          (by omega) (range_le hCfg hRange)
        -- The leaves of the two halves.
        rcases exists_halves ls with ⟨fs, rs, rfl, hMiddle⟩
        have hLen := @List.length_append _ fs rs
        have hOld := hHand.lt_next
        have hHandL : AtHand tls₁ a index fs :=
          hHand.left fun q hq =>
            hOpened.frame q (hOld q (by simp [hq]))
        apply rebuilt_node hCfg hRange hLt hOpened hHand
          hMiddle (by omega) hEq'
        · apply ih (hRange.left hLt) hOpened.get
            (by rw [hOpened.levelEq]) hHandL
          · omega
          · rw [hSub]
            omega
          · omega
        · intro tls₂ hHandR hGet₂
          apply ih (hRange.right hLt) hGet₂
            (by rw [hOpened.levelEq]) hHandR
          · omega
          · rw [hSub]
            omega
          · omega

------------------------------------------------------------
-- Too Many Leaves
------------------------------------------------------------

/- A call that returns was given a range. -/
private theorem rebuildRecursive_le
    {cfg : Config} {m : Mem} {a : LeafArray}
    {f parent lindex rindex : Nat} {llab rlab : Label}
    {r : Mem × Nat}
    (hRun : rebuildRecursive cfg f m parent a lindex rindex
      llab rlab = Except.ok r) :
    llab ≤ rlab := by
  cases f with
  | zero => cases hRun
  | succ f =>
      unfold rebuildRecursive at hRun
      rcases bind_eq_ok hRun with ⟨⟨m₁, n⟩, -, hRun⟩
      rcases bind_eq_ok hRun with ⟨m₂, -, hRun⟩
      rcases bind_eq_ok hRun with ⟨u, hCheck, -⟩
      exact of_check hCheck

/- A call that returns with more than one leaf. -/
private theorem rebuildRecursive_halves
    {cfg : Config} {m : Mem} {a : LeafArray}
    {f parent lindex rindex : Nat} {llab rlab : Label}
    {r : Mem × Nat}
    (hRun : rebuildRecursive cfg (f + 1) m parent a lindex
      rindex llab rlab = Except.ok r)
    (hSize : rindex - lindex ≠ 1) :
    ∃ m₁ m₂ n left s,
      rebuildRecursive cfg f m₁ n a lindex
          (lindex + (rindex - lindex - (rindex - lindex) / 2))
          llab (middle llab rlab) =
        Except.ok (m₂, left) ∧
      rebuildRecursive cfg f m₂ n a
          (lindex + (rindex - lindex - (rindex - lindex) / 2))
          rindex (middle llab rlab + 1) rlab =
        Except.ok s := by
  unfold rebuildRecursive at hRun
  rcases bind_eq_ok hRun with ⟨⟨m₁, n⟩, -, hRun⟩
  rcases bind_eq_ok hRun with ⟨m₂, -, hRun⟩
  rcases bind_eq_ok hRun with ⟨-, -, hRun⟩
  rw [if_neg hSize] at hRun
  rcases bind_eq_ok hRun with ⟨px, -, hRun⟩
  rcases bind_eq_ok hRun with ⟨m₃, -, hRun⟩
  rcases bind_eq_ok hRun with ⟨⟨m₄, left⟩, hLeft, hRun⟩
  rcases bind_eq_ok hRun with ⟨s, hRight, -⟩
  exact ⟨m₃, m₄, n, left, s, hLeft, hRight⟩

/-
  Leaves that do not fit into a range run into an assertion,
  or the range ends with the last label.
-/
theorem rebuildRecursive_crowded
    {cfg : Config} {m : Mem} {a : LeafArray}
    {f parent lindex rindex lo k : Nat} {r : Mem × Nat}
    (hCrowded : 2 ^ k < rindex - lindex)
    (hLe : lo + 2 ^ k < 2 ^ 64) :
    rebuildRecursive cfg f m parent a lindex rindex
        (BitVec.ofNat 64 lo)
        (BitVec.ofNat 64 (lo + 2 ^ k - 1)) ≠
      Except.ok r := by
  intro hRun
  induction f generalizing m parent lindex rindex lo k r with
  | zero => cases hRun
  | succ f ih =>
      have hPow : 0 < 2 ^ k := Nat.pow_pos (by omega)
      rcases rebuildRecursive_halves hRun (by omega) with
        ⟨m₁, m₂, n, left, s, hLeft, hRight⟩
      cases k with
      | zero =>
          -- The right half of a single label is empty.
          have hLabels := rebuildRecursive_le hRight
          have hMid := @middle_eq lo 0 (by omega)
          rw [Nat.zero_div] at hMid
          simp only [Nat.pow_zero, Nat.add_sub_cancel,
            Nat.add_zero] at hLabels hMid hLe
          rw [hMid, BitVec.le_def, BitVec.toNat_add,
            toNat_label (by omega)] at hLabels
          have hOne : (1 : Label).toNat = 1 := rfl
          rw [hOne] at hLabels
          omega
      | succ k =>
          rw [Nat.pow_succ] at hCrowded hLe hLeft
          have hHalf : 0 < 2 ^ k := Nat.pow_pos (by omega)
          rw [Nat.mul_comm, middle_range hHalf (by omega)]
            at hLeft
          apply ih _ _ hLeft
          · omega
          · omega

------------------------------------------------------------
-- Opening a Node
------------------------------------------------------------

/- The parent of a node and the half that the node takes. -/
structure Above
    (cfg : Config) (tls : Heap TlNode) (n lo level q : Nat)
    (y : TlNode) (plo : Nat) : Prop where
  get : tls.get q = some y
  level : y.level + 1 = level
  range : InRange cfg plo y.level
  label : y.label =
    BitVec.ofNat 64 (plo + 2 ^ (cfg.maxLevel - y.level) - 1)
  root : y.parent = none → plo = 0
  child : y.parent ≠ none → 0 < y.level
  side : (y.right = some n ∧
      lo = plo + 2 ^ (cfg.maxLevel - y.level - 1)) ∨
    (y.right ≠ some n ∧ lo = plo)

/- The place of a node: the root, or a half of its parent. -/
def Placed (cfg : Config) (tls : Heap TlNode)
    (n lo level : Nat) : Option Nat → Prop
| none => lo = 0 ∧ level = 0
| some q => ∃ y plo, Above cfg tls n lo level q y plo

/- The record of a node before its subtrees are built. -/
structure Ready
    (cfg : Config) (parent : Option Nat)
    (lo level count : Nat) (y : TlNode) : Prop where
  label : y.label =
    BitVec.ofNat 64 (lo + 2 ^ (cfg.maxLevel - level) - 1)
  level : y.level = level
  numLeaves : y.numLeaves = count
  parent : y.parent = parent
  unmarked : y.needsRebalance = false

/- The left half ends with the middle of the parent. -/
private theorem Above.leftEnd
    {cfg : Config} {tls : Heap TlNode}
    {n lo level q plo : Nat} {y : TlNode}
    (hCfg : cfg.WellFormed)
    (h : Above cfg tls n lo level q y plo)
    (hLt : level ≤ cfg.maxLevel) :
    (rangeRight y - rangeLeft cfg y) / 2 + rangeLeft cfg y =
      BitVec.ofNat 64
        (plo + 2 ^ (cfg.maxLevel - level) - 1) := by
  have hLevel := h.level
  have hWord := h.range.lt_word hCfg
  have hTwo : 2 ^ (cfg.maxLevel - y.level) =
      2 * 2 ^ (cfg.maxLevel - y.level - 1) :=
    InRange.two_mul (by omega)
  have hSub : cfg.maxLevel - level =
      cfg.maxLevel - y.level - 1 := by
    omega
  have hHalf : 0 < 2 ^ (cfg.maxLevel - y.level - 1) :=
    Nat.pow_pos (by omega)
  have hNat : (2 : Label).toNat = 2 := rfl
  rw [rangeLeft_eq hCfg h.range rfl h.label h.root h.child]
  unfold rangeRight
  rw [h.label, hSub]
  apply BitVec.eq_of_toNat_eq
  simp only [BitVec.toNat_add, BitVec.toNat_udiv,
    BitVec.toNat_sub, BitVec.toNat_ofNat, hNat]
  omega

/- A leaf that is opened gets its level and label. -/
private theorem openLeaf_spec
    {cfg : Config} {m : Mem} {tls : Heap TlNode}
    {n lo level count : Nat} {parent : Option Nat}
    {x : TlNode}
    (hCfg : cfg.WellFormed)
    (hLt : level ≤ cfg.maxLevel)
    (hGet : tls.get n = some x)
    (hParent : x.parent = parent)
    (hCount : x.numLeaves = count)
    (hMark : x.needsRebalance = false)
    (hNot : parent ≠ some n)
    (hPlaced : Placed cfg tls n lo level parent) :
    ∃ tls' y, openLeaf cfg (m.withTls tls) n =
        Except.ok (m.withTls tls') ∧
      tls'.get n = some y ∧
      Ready cfg parent lo level count y ∧
      tls'.next = tls.next ∧
      ∀ p, p ≠ n → tls'.get p = tls.get p := by
  have hGet₁ := Heap.get_modify_self
    (fun x : TlNode => { x with below := .null }) hGet
  unfold openLeaf
  rw [Mem.setTl_withTls _ hGet, ok_bind, Mem.tls_withTls,
    Mem.load_of_get hGet₁, ok_bind]
  dsimp only
  rw [hParent]
  cases parent with
  | none =>
      rcases hPlaced with ⟨rfl, rfl⟩
      refine ⟨_, _, Mem.setTl_withTls _ hGet₁,
        Heap.get_modify_self _ hGet₁,
        ⟨?_, rfl, hCount, hParent, hMark⟩, rfl, ?_⟩
      · apply BitVec.eq_of_toNat_eq
        have hPos : 0 < 2 ^ cfg.maxLevel :=
          Nat.pow_pos (by omega)
        have hWord := (inRange_root cfg).lt_word hCfg
        rw [Nat.sub_zero, Nat.zero_add] at hWord ⊢
        rw [toNat_label (by omega)]
        exact hCfg.maxLabel
      · intro p hp
        rw [Heap.get_modify_of_ne _ hp,
          Heap.get_modify_of_ne _ hp]
  | some q =>
      rcases hPlaced with ⟨y, plo, hAbove⟩
      have hqn : q ≠ n := by
        rintro rfl
        exact hNot rfl
      have hGetQ : (tls.modify n fun x : TlNode =>
          { x with below := .null }).get q = some y := by
        rw [Heap.get_modify_of_ne _ hqn]
        exact hAbove.get
      have hLevel := hAbove.level
      have hSub : cfg.maxLevel - level =
          cfg.maxLevel - y.level - 1 := by
        omega
      have hTwo : 2 ^ (cfg.maxLevel - y.level) =
          2 * 2 ^ (cfg.maxLevel - y.level - 1) :=
        InRange.two_mul (by omega)
      dsimp only
      rw [Mem.load_of_get hGetQ, ok_bind]
      rcases hAbove.side with ⟨hRight, hLo⟩ | ⟨hRight, hLo⟩
      · have hGet₂ := Heap.get_modify_self
          (fun x : TlNode => { x with label := y.label }) hGet₁
        rw [if_pos hRight, Mem.setTl_withTls _ hGet₁, ok_bind]
        refine ⟨_, _, Mem.setTl_withTls _ hGet₂,
          Heap.get_modify_self _ hGet₂,
          ⟨?_, hLevel, hCount, hParent, hMark⟩, rfl, ?_⟩
        · rw [hAbove.label, hLo, hSub]
          congr 1
          omega
        · intro p hp
          rw [Heap.get_modify_of_ne _ hp,
            Heap.get_modify_of_ne _ hp,
            Heap.get_modify_of_ne _ hp]
      · have hLabel := hAbove.leftEnd hCfg hLt
        rw [← hLo] at hLabel
        have hGet₂ := Heap.get_modify_self
          (fun x : TlNode =>
            { x with
              label := (rangeRight y - rangeLeft cfg y) / 2 +
                rangeLeft cfg y }) hGet₁
        rw [if_neg hRight, Mem.setTl_withTls _ hGet₁, ok_bind]
        refine ⟨_, _, Mem.setTl_withTls _ hGet₂,
          Heap.get_modify_self _ hGet₂,
          ⟨hLabel, hLevel, hCount, hParent, hMark⟩, rfl, ?_⟩
        intro p hp
        rw [Heap.get_modify_of_ne _ hp,
          Heap.get_modify_of_ne _ hp,
          Heap.get_modify_of_ne _ hp]

------------------------------------------------------------
-- Rebuilding
------------------------------------------------------------

/- The rest of a rebuild, once the array is filled. -/
private def rebuildBelow (cfg : Config) (m : Mem) (n : Nat)
    (array : LeafArray) (arraySize : Nat) : Run Mem := do
  let x ← Mem.load m.tls n
  let llab := rangeLeft cfg x
  let rlab := x.label
  check (rlab % 2 = 1)
  let mindex := arraySize - arraySize / 2
  let mlab := middle llab rlab
  let (m, left) ←
    rebuildRecursive cfg arraySize m n array 0 mindex llab mlab
  let (m, right) ←
    rebuildRecursive cfg arraySize m n array mindex arraySize
      (mlab + 1) rlab
  m.setTl n fun x =>
    { x with left := some left, right := some right }

/- The heap when a subtree was taken apart for a rebuild. -/
structure Cleared
    (cfg : Config) (tls tls' : Heap TlNode)
    (parent : Option Nat) (lo level : Nat) (t : Shape)
    (a : LeafArray) (y : TlNode) : Prop where
  get : tls'.get t.ptr = some y
  ready : Ready cfg parent lo level t.count y
  hand : AtHand tls' a 0 t.leaves
  next : tls'.next = tls.next
  frame : ∀ p, p ∉ t.addrs → tls'.get p = tls.get p

/- The leaves that the array was filled with are at hand. -/
private theorem Filled.atHand
    {tls : Heap TlNode} {a b : LeafArray}
    {ls : List (Nat × Nat)}
    (h : Filled a b 0 (ls.map Prod.fst))
    (hSize : ls.length ≤ a.size)
    (hLive : ∀ x ∈ ls, ∃ y, tls.get x.1 = some y ∧
      y.below = .list x.2)
    (hNodup : (ls.map Prod.fst).Nodup) :
    AtHand tls b 0 ls := by
  refine ⟨hLive, hNodup, ?_⟩
  intro i x hx
  apply h.read
  · rw [List.getElem?_map, hx]
    rfl
  · rw [List.length_map]
    omega

/- The place of a node depends on the record above it. -/
theorem Placed.congr
    {cfg : Config} {tls tls' : Heap TlNode}
    {n lo level : Nat} {parent : Option Nat}
    (h : Placed cfg tls n lo level parent)
    (hSame : ∀ q, parent = some q →
      tls'.get q = tls.get q) :
    Placed cfg tls' n lo level parent := by
  cases parent with
  | none => exact h
  | some q =>
      rcases h with ⟨y, plo, hAbove⟩
      refine ⟨y, plo, ?_, hAbove.level, hAbove.range,
        hAbove.label, hAbove.root, hAbove.child, hAbove.side⟩
      rw [hSame q rfl]
      exact hAbove.get

/- The root of a shape with more leaves is not one of them. -/
private theorem ptr_not_mem_leaves
    {t : Shape}
    (hNodup : t.addrs.Nodup)
    (hTwo : 2 ≤ t.count) :
    t.ptr ∉ t.leaves.map Prod.fst := by
  cases t with
  | leaf p l => simp at hTwo
  | heavy p parts =>
      rw [Shape.addrs, List.nodup_cons] at hNodup
      exact hNodup.1
  | node p left right =>
      rw [Shape.addrs, List.nodup_cons, List.mem_append,
        not_or] at hNodup
      intro hMem
      rw [List.mem_map] at hMem
      rcases hMem with ⟨x, hx, hEq⟩
      rw [Shape.leaves, List.mem_append] at hx
      dsimp only [Shape.ptr] at hEq
      subst hEq
      rcases hx with hx | hx
      · exact hNodup.1.1 (left.leaves_subset_addrs x hx)
      · exact hNodup.1.2 (right.leaves_subset_addrs x hx)

/- The root is opened if it is a leaf. -/
private theorem openIfLeaf_spec
    {cfg : Config} {m : Mem} {tls tls₁ : Heap TlNode}
    {parent : Option Nat} {lo level : Nat} {t : Shape}
    {x : TlNode}
    (hCfg : cfg.WellFormed)
    (hLt : level ≤ cfg.maxLevel)
    (hRep : Rep cfg tls parent lo level false t)
    (hTwo : 2 ≤ t.count)
    (hGet : tls.get t.ptr = some x)
    (hGet₁ : tls₁.get t.ptr =
      some { x with left := none, right := none })
    (hNot : parent ≠ some t.ptr)
    (hPlaced : Placed cfg tls₁ t.ptr lo level parent) :
    ∃ tls' y,
      (if x.left = none ∧ x.right = none then
          openLeaf cfg (m.withTls tls₁) t.ptr
        else pure (m.withTls tls₁)) =
        Except.ok (m.withTls tls') ∧
      tls'.get t.ptr = some y ∧
      Ready cfg parent lo level t.count y ∧
      tls'.next = tls₁.next ∧
      ∀ p, p ≠ t.ptr → tls'.get p = tls₁.get p := by
  cases t with
  | leaf p l => simp at hTwo
  | heavy p parts =>
      rcases hRep with ⟨-, ⟨first, -, hRecord⟩, -⟩
      have hx := hGet.symm.trans hRecord
      cases hx
      rw [if_pos ⟨rfl, rfl⟩]
      exact openLeaf_spec hCfg hLt hGet₁ rfl rfl rfl hNot
        hPlaced
  | node p left right =>
      rcases hRep with ⟨-, ⟨below, hRecord⟩, -, -⟩
      have hx := hGet.symm.trans hRecord
      cases hx
      rw [if_neg (by simp)]
      exact ⟨tls₁, _, rfl, hGet₁,
        ⟨rfl, rfl, (Shape.count_node p left right).symm, rfl,
          rfl⟩, rfl, fun _ _ => rfl⟩

/- A rebuild gathers the leaves and then builds subtrees. -/
private theorem rebuild_cleared
    {cfg : Config} {m : Mem} {tls : Heap TlNode}
    {parent : Option Nat} {lo level : Nat} {t : Shape}
    (hCfg : cfg.WellFormed)
    (hLt : level ≤ cfg.maxLevel)
    (hRep : Rep cfg tls parent lo level false t)
    (hNodup : t.addrs.Nodup)
    (hTwo : 2 ≤ t.count)
    (hParent : ∀ q, parent = some q → q ∉ t.addrs)
    (hPlaced : Placed cfg tls t.ptr lo level parent) :
    ∃ tls' a y,
      rebuild cfg (m.withTls tls) t.ptr =
        rebuildBelow cfg (m.withTls tls') t.ptr a t.count ∧
      Cleared cfg tls tls' parent lo level t a y := by
  have hFuel : t.depth < tls.next + 1 := by
    have hLe := Heap.length_le_next hNodup hRep.exists_get
    have := t.depth_lt_length_addrs
    omega
  have hSize : 0 + t.count ≤
      (LeafArray.new t.count).size := by
    simp [LeafArray.new]
  rcases buildArrayOfLeaves_spec (m := m) hRep hNodup
    (fun _ => rfl) hSize hFuel with
    ⟨tls₁, a, hRun, hFilled, hApart⟩
  rcases hApart.root rfl with ⟨x, hGet, hGet₁⟩
  have hCount : x.numLeaves = t.count := by
    rcases hRep.get_ptr with ⟨x', hGet', -, hCount, -⟩
    rw [hGet] at hGet'
    cases hGet'
    exact hCount
  have hNot : parent ≠ some t.ptr := by
    intro hEq
    exact hParent _ hEq t.ptr_mem_addrs
  have hPlaced₁ := hPlaced.congr fun q hq =>
    hApart.frame q (hParent q hq)
  rcases openIfLeaf_spec (m := m) hCfg hLt hRep hTwo hGet
    hGet₁ hNot hPlaced₁ with
    ⟨tls₂, y, hOpen, hGet₂, hReady, hNext₂, hFrame₂⟩
  have hGet₃ := Heap.get_modify_self
    (fun x : TlNode =>
      { x with left := none, right := none }) hGet₂
  have hNew : ∀ q ∈ t.leaves.map Prod.fst, q ≠ t.ptr := by
    rintro q hq rfl
    exact ptr_not_mem_leaves hNodup hTwo hq
  rw [Nat.zero_add] at hRun
  refine ⟨_, a, _, ?_, hGet₃,
    ⟨hReady.label, hReady.level, hReady.numLeaves,
      hReady.parent, hReady.unmarked⟩, ?_, ?_, ?_⟩
  · unfold rebuild
    rw [Mem.tls_withTls, Mem.load_of_get hGet, ok_bind]
    dsimp only
    rw [hCount, hRun, ok_bind]
    dsimp only
    by_cases hLeaf : x.left = none ∧ x.right = none
    · rw [if_pos hLeaf] at hOpen ⊢
      rw [hOpen, ok_bind, Mem.setTl_withTls _ hGet₂, ok_bind]
      rfl
    · rw [if_neg hLeaf] at hOpen ⊢
      rw [hOpen, ok_bind, Mem.setTl_withTls _ hGet₂, ok_bind]
      rfl
  · have hHand : AtHand tls₁ a 0 t.leaves :=
      hFilled.atHand (Nat.le_refl _) hApart.leaves
        (hNodup.sublist t.leaves_sublist_addrs)
    apply hHand.congr
    intro q hq
    rw [Heap.get_modify_of_ne _ (hNew q hq),
      hFrame₂ q (hNew q hq)]
  · rw [Heap.next_modify, hNext₂, hApart.next]
  · intro q hq
    have hNe : q ≠ t.ptr := by
      rintro rfl
      exact hq t.ptr_mem_addrs
    rw [Heap.get_modify_of_ne _ hNe, hFrame₂ q hNe,
      hApart.frame q hq]

/- What a rebuild leads to. -/
structure Rebuild
    (cfg : Config) (tls tls' : Heap TlNode)
    (parent : Option Nat) (lo level : Nat) (t t' : Shape) :
    Prop where
  rep : Rep cfg tls' parent lo level false t'
  ptr : t'.ptr = t.ptr
  leaves : t'.leaves = t.leaves
  unmarked : t'.marked = false
  nodup : t'.addrs.Nodup
  addrs : ∀ q ∈ t'.addrs, q ∈ t.addrs ∨ tls.next ≤ q
  next : tls.next ≤ tls'.next
  frame : ∀ q, q < tls.next → q ∉ t.addrs →
    tls'.get q = tls.get q
  shallow : ∀ k, t.Within k → t'.depth ≤ k

/- The left end of the range of a node. -/
private theorem Ready.rangeLeft
    {cfg : Config} {tls : Heap TlNode}
    {parent : Option Nat} {n lo level count : Nat}
    {y : TlNode}
    (hCfg : cfg.WellFormed)
    (h : Ready cfg parent lo level count y)
    (hRange : InRange cfg lo level)
    (hPlaced : Placed cfg tls n lo level parent) :
    OrderMaint.rangeLeft cfg y = BitVec.ofNat 64 lo := by
  apply rangeLeft_eq hCfg hRange h.level h.label
  · intro hNone
    rw [h.parent] at hNone
    subst hNone
    exact hPlaced.1
  · intro hSome
    rw [h.parent] at hSome
    cases parent with
    | none => exact absurd rfl hSome
    | some q =>
        rcases hPlaced with ⟨z, plo, hAbove⟩
        have := hAbove.level
        omega

/-
  A subtree whose leaves fit into its range is rebuilt with
  the same leaves.
-/
theorem rebuild_spec
    {cfg : Config} {m : Mem} {tls : Heap TlNode}
    {parent : Option Nat} {lo level : Nat} {t : Shape}
    (hCfg : cfg.WellFormed)
    (hRange : InRange cfg lo level)
    (hLt : level < cfg.maxLevel)
    (hRep : Rep cfg tls parent lo level false t)
    (hNodup : t.addrs.Nodup)
    (hTwo : 2 ≤ t.count)
    (hParent : ∀ q, parent = some q → q ∉ t.addrs)
    (hPlaced : Placed cfg tls t.ptr lo level parent)
    (hFit : t.count ≤ 2 ^ (cfg.maxLevel - level)) :
    ∃ tls' t', rebuild cfg (m.withTls tls) t.ptr =
        Except.ok (m.withTls tls') ∧
      Rebuild cfg tls tls' parent lo level t t' := by
  rcases rebuild_cleared (m := m) hCfg (by omega) hRep hNodup
    hTwo hParent hPlaced with
    ⟨tls₁, a, y, hRun, hGet, hReady, hHand, hNext, hFrame⟩
  have hLeft := hReady.rangeLeft hCfg hRange hPlaced
  have hOdd := odd_right hCfg hRange hLt
  rw [← hReady.label] at hOdd
  have hNot := ptr_not_mem_leaves hNodup hTwo
  rcases exists_halves t.leaves with ⟨fs, rs, hSplit, hMiddle⟩
  have hCount : t.count = fs.length + rs.length := by
    rw [Shape.count, hSplit, List.length_append]
  rw [← Shape.count] at hMiddle
  rw [hSplit] at hHand hNot
  have hPow := InRange.two_mul hLt
  have hSub : cfg.maxLevel - (level + 1) =
      cfg.maxLevel - level - 1 := by
    omega
  have hHandL : AtHand tls₁ a 0 fs :=
    hHand.left fun _ _ => rfl
  have hBuiltL : Rebuilt cfg m a t.count tls₁ 0 t.ptr lo
      (level + 1) fs := by
    apply rebuildRecursive_spec hCfg (hRange.left hLt) hGet
      (by rw [hReady.level]) hHandL
    · omega
    · rw [hSub]
      omega
    · omega
  rcases rebuilt_halves hLt hGet hHand hNot hBuiltL (by
      intro tls₂ hHandR hGet₂
      apply rebuildRecursive_spec hCfg (hRange.right hLt)
        hGet₂ (by rw [hReady.level]) hHandR
      · omega
      · rw [hSub]
        omega
      · omega) with
    ⟨tls₂, tls₃, left, right, hRunL, hRunR, hRepL, hRepR,
      hBuilt⟩
  have hn := Heap.lt_next hGet
  have hGet₃ : tls₃.get t.ptr = some y := by
    rw [hBuilt.frame _ hn hNot]
    exact hGet
  have hHalf : 0 < 2 ^ (cfg.maxLevel - level - 1) :=
    Nat.pow_pos (by omega)
  have hWord := hRange.lt_word hCfg
  rw [hPow] at hWord
  have hMid := middle_range hHalf hWord
  have hMidSucc := middle_range_succ hHalf hWord
  rw [← hPow, ← hReady.label] at hMid hMidSucc
  have hLeaves : left.leaves ++ right.leaves = t.leaves := by
    rw [hBuilt.leavesL, hBuilt.leavesR, hSplit]
  refine ⟨tls₃.modify t.ptr fun x =>
      { x with left := some left.ptr
               right := some right.ptr },
    .node t.ptr left right, ?_, ?_⟩
  · rw [hRun]
    unfold rebuildBelow
    rw [Nat.zero_add, hMiddle] at hRunL hRunR
    rw [Nat.zero_add, ← hSplit, ← Shape.count] at hRunR
    rw [Mem.tls_withTls, Mem.load_of_get hGet, ok_bind]
    dsimp only
    rw [check_of hOdd, ok_bind, hLeft, hMid, hRunL, ok_bind]
    dsimp only
    rw [← hMid, hMidSucc, hReady.label, hRunR, ok_bind]
    exact Mem.setTl_withTls _ hGet₃
  · constructor
    · apply hBuilt.rep hLt hRepL hRepR hGet₃
      rw [hReady.label, hReady.level, hReady.numLeaves,
        hReady.parent, hReady.unmarked, hCount, Shape.count,
        Shape.count, hBuilt.leavesL, hBuilt.leavesR]
    · rfl
    · exact hLeaves
    · rw [Shape.marked, hBuilt.unmarkedL, hBuilt.unmarkedR]
      rfl
    · exact hBuilt.nodup
    · intro q hq
      rw [Shape.addrs, List.mem_cons] at hq
      rcases hq with rfl | hq
      · exact Or.inl t.ptr_mem_addrs
      · rcases hBuilt.addrs q hq with hq | hq
        · rw [← hSplit, List.mem_map] at hq
          rcases hq with ⟨x, hx, rfl⟩
          exact Or.inl (t.leaves_subset_addrs x hx)
        · exact Or.inr (by omega)
    · rw [Heap.next_modify]
      have := hBuilt.next
      omega
    · intro q hq hqNot
      have hNe : q ≠ t.ptr := by
        rintro rfl
        exact hqNot t.ptr_mem_addrs
      rw [Heap.get_modify_of_ne _ hNe,
        hBuilt.frame q (by omega), hFrame q hqNot]
      intro hMem
      apply hqNot
      rw [← hSplit, List.mem_map] at hMem
      rcases hMem with ⟨x, hx, rfl⟩
      exact t.leaves_subset_addrs x hx
    · intro k hk
      apply hBuilt.shallow
      · rw [← hSplit]
        exact hMiddle
      · rw [← hSplit]
        exact hTwo
      · rw [← hSplit]
        exact hk.count_le

/- A subtree whose leaves do not fit is not rebuilt. -/
theorem rebuild_crowded
    {cfg : Config} {m m' : Mem} {tls : Heap TlNode}
    {parent : Option Nat} {lo level : Nat} {t : Shape}
    (hCfg : cfg.WellFormed)
    (hRange : InRange cfg lo level)
    (hLt : level < cfg.maxLevel)
    (hRep : Rep cfg tls parent lo level false t)
    (hNodup : t.addrs.Nodup)
    (hTwo : 2 ≤ t.count)
    (hParent : ∀ q, parent = some q → q ∉ t.addrs)
    (hPlaced : Placed cfg tls t.ptr lo level parent)
    (hCrowded : 2 ^ (cfg.maxLevel - level) < t.count) :
    rebuild cfg (m.withTls tls) t.ptr ≠ Except.ok m' := by
  intro hOk
  rcases rebuild_cleared (m := m) hCfg (by omega) hRep hNodup
    hTwo hParent hPlaced with
    ⟨tls₁, a, y, hRun, hGet, hReady, hHand, hNext, hFrame⟩
  have hLeft := hReady.rangeLeft hCfg hRange hPlaced
  have hPow := InRange.two_mul hLt
  have hHalf : 0 < 2 ^ (cfg.maxLevel - level - 1) :=
    Nat.pow_pos (by omega)
  have hWord := hRange.lt_word hCfg
  rw [hPow] at hWord hCrowded
  have hMid := middle_range hHalf hWord
  rw [← hPow, ← hReady.label] at hMid
  rw [hRun] at hOk
  unfold rebuildBelow at hOk
  rw [Mem.tls_withTls, Mem.load_of_get hGet, ok_bind] at hOk
  rcases bind_eq_ok hOk with ⟨u, -, hOk⟩
  rcases bind_eq_ok hOk with ⟨r, hRunL, -⟩
  rw [hLeft, hMid] at hRunL
  apply rebuildRecursive_crowded _ _ hRunL
  · omega
  · omega

end OrderMaint

end PRacer
