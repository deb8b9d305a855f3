import Mathlib.Algebra.Order.Field.Basic
import Mathlib.Tactic.Linarith
import PRacer.OrderMaint.Rebuild

/-
  Rebalancing the tree.

  On the way down from the root, a marked node that is not
  too heavy has fewer leaves than its range has labels.  So a
  rebuild always has room, unless the root is full.

  Main declarations:
    * `tooHeavy_of_full`
    * `HeavyDeep`, `Roomy`
    * `rebalance_spec`
-/

namespace PRacer

open Foundations

namespace OrderMaint

------------------------------------------------------------
-- Density and Threshold
------------------------------------------------------------

/- A quotient of a number and one that is not smaller. -/
private theorem quotient_le_one
    (cfg : Config) {x y : Nat}
    (hPos : 0 < y)
    (hLe : x ≤ y) :
    quotient cfg x y ≤ 1 := by
  have hx : cfg.machine.rnd x ≤ cfg.machine.rnd y := by
    apply cfg.machine.rnd_mono
    exact_mod_cast hLe
  have hy : 1 ≤ cfg.machine.rnd y := by
    rw [← cfg.machine.rnd_one]
    apply cfg.machine.rnd_mono
    exact_mod_cast hPos
  unfold quotient
  rw [← cfg.machine.rnd_one]
  apply cfg.machine.rnd_mono
  rw [div_le_one (by linarith)]
  exact hx

/- A quotient of a number and one that is not larger. -/
private theorem one_le_quotient
    (cfg : Config) {x y : Nat}
    (hPos : 0 < y)
    (hLe : y ≤ x) :
    1 ≤ quotient cfg x y := by
  have hx : cfg.machine.rnd y ≤ cfg.machine.rnd x := by
    apply cfg.machine.rnd_mono
    exact_mod_cast hLe
  have hy : 1 ≤ cfg.machine.rnd y := by
    rw [← cfg.machine.rnd_one]
    apply cfg.machine.rnd_mono
    exact_mod_cast hPos
  unfold quotient
  rw [← cfg.machine.rnd_one]
  apply cfg.machine.rnd_mono
  rw [one_le_div (by linarith)]
  exact hx

/- No threshold is above one. -/
theorem threshold_le_one
    {cfg : Config} {x : TlNode} {H : Nat}
    (hPos : 0 < H)
    (hLevel : x.level ≤ H) :
    threshold cfg x H ≤ 1 := by
  have hQuotient := quotient_le_one cfg hPos hLevel
  have hQuarter : cfg.machine.rnd
      (1 / 4 * quotient cfg x.level H) ≤ 1 / 4 := by
    rw [← cfg.machine.rnd_quarter]
    apply cfg.machine.rnd_mono
    rw [cfg.machine.rnd_quarter]
    linarith
  unfold threshold
  rw [← cfg.machine.rnd_one]
  apply cfg.machine.rnd_mono
  rw [cfg.machine.rnd_one]
  linarith

/- A marked node that is full is too heavy. -/
theorem tooHeavy_of_full
    {cfg : Config} {x : TlNode} {H : Nat}
    (hMark : x.needsRebalance = true)
    (hCapacity : 0 < capacity cfg x)
    (hFull : capacity cfg x ≤ x.numLeaves)
    (hPos : 0 < H)
    (hLevel : x.level ≤ H) :
    tooHeavy cfg x H = true := by
  have hThreshold := @threshold_le_one cfg x H hPos hLevel
  have hDensity := one_le_quotient cfg hCapacity hFull
  unfold tooHeavy
  rw [hMark, if_neg (by omega), if_neg (by omega)]
  simp only [Bool.true_and, decide_eq_true_eq]
  exact hThreshold.trans hDensity

/- A marked node that is not too heavy is not full. -/
theorem lt_capacity_of_light
    {cfg : Config} {x : TlNode} {H : Nat}
    (hMark : x.needsRebalance = true)
    (hLight : tooHeavy cfg x H = false)
    (hCapacity : 0 < capacity cfg x)
    (hPos : 0 < H)
    (hLevel : x.level ≤ H) :
    x.numLeaves < capacity cfg x := by
  by_contra hFull
  have hHeavy := tooHeavy_of_full hMark hCapacity
    (by omega) hPos hLevel
  rw [hLight] at hHeavy
  cases hHeavy

/- A leaf has room for one leaf. -/
theorem capacity_leaf
    {cfg : Config} {x : TlNode}
    (hCfg : cfg.WellFormed)
    (hLevel : x.level = cfg.maxLevel) :
    capacity cfg x = 1 := by
  have hPos := hCfg.level_pos
  unfold capacity height
  rw [if_neg (by omega), hLevel, Nat.sub_self]
  rfl

------------------------------------------------------------
-- Depth and Room
------------------------------------------------------------

/-
  The height reaches below every heavy leaf, by as many
  levels as its parts need.
-/
def HeavyDeep (cfg : Config) (H level : Nat) : Shape → Prop
| .leaf _ _ => True
| .heavy _ parts =>
    level + fastLog2Ceil cfg parts.length ≤ H
| .node _ left right =>
    HeavyDeep cfg H (level + 1) left ∧
      HeavyDeep cfg H (level + 1) right

/- The shifts of the `int` 1 are exact. -/
def Config.Exact (cfg : Config) : Prop :=
  ∀ k, cfg.machine.overshift k = 2 ^ k

theorem Config.Exact.shiftOne
    {cfg : Config} (h : cfg.Exact) (k : Nat) :
    OrderMaint.shiftOne cfg k = 2 ^ k := by
  unfold OrderMaint.shiftOne
  rw [h k, ite_self]

/- Whether a shape is an internal node. -/
def Shape.isNode : Shape → Bool
| .node _ _ _ => true
| _ => false

/- A subtree has room for its leaves, if it was marked. -/
def Roomy (cfg : Config) (level : Nat) (t : Shape) : Prop :=
  t.marked = true →
    t.count ≤ 2 ^ (cfg.maxLevel - level) ∧
      (level = 0 → t.isNode = true →
        t.count < 2 ^ cfg.maxLevel)

/- A power of two that is not below a number. -/
theorem le_two_pow_fastLog2Ceil
    {cfg : Config} (h : cfg.Exact) (k : Nat) :
    k ≤ 2 ^ fastLog2Ceil cfg k := by
  unfold fastLog2Ceil
  rw [h.shiftOne]
  split
  case isTrue hEq => omega
  case isFalse => exact Nat.lt_log2_self.le

/- A number above one needs a level. -/
theorem fastLog2Ceil_pos
    (cfg : Config) {k : Nat}
    (hTwo : 2 ≤ k) :
    0 < fastLog2Ceil cfg k := by
  have hLog : 1 ≤ Nat.log2 k := by
    rw [Nat.le_log2 (by omega)]
    omega
  unfold fastLog2Ceil
  split <;> omega

/- A marked subtree lies within the height. -/
theorem HeavyDeep.level_lt
    {cfg : Config} {tls : Heap TlNode}
    {parent : Option Nat} {lo level H : Nat} {mark : Bool}
    {t : Shape}
    (h : HeavyDeep cfg H level t)
    (hRep : Rep cfg tls parent lo level mark t)
    (hMarked : t.marked = true) :
    level < H := by
  induction t generalizing parent lo level mark with
  | leaf p l => cases hMarked
  | heavy p parts =>
      have hPos := fastLog2Ceil_pos cfg hRep.1
      unfold HeavyDeep at h
      omega
  | node p left right ihLeft ihRight =>
      rcases hRep with ⟨-, -, hLeft, hRight⟩
      rw [Shape.marked, Bool.or_eq_true] at hMarked
      rcases hMarked with hMarked | hMarked
      · have := ihLeft h.1 hLeft hMarked
        omega
      · have := ihRight h.2 hRight hMarked
        omega

/- A shape has a leaf, and a marked shape has two. -/
theorem Rep.count_pos
    {cfg : Config} {tls : Heap TlNode}
    {parent : Option Nat} {lo level : Nat} {mark : Bool}
    {t : Shape}
    (h : Rep cfg tls parent lo level mark t) :
    0 < t.count := by
  induction t generalizing parent lo level mark with
  | leaf p l => simp
  | heavy p parts =>
      have := h.1
      rw [Shape.count_heavy]
      omega
  | node p left right ihLeft ihRight =>
      have := ihLeft h.2.2.1
      rw [Shape.count_node]
      omega

theorem Rep.two_le_count
    {cfg : Config} {tls : Heap TlNode}
    {parent : Option Nat} {lo level : Nat} {mark : Bool}
    {t : Shape}
    (h : Rep cfg tls parent lo level mark t)
    (hMarked : t.marked = true) :
    2 ≤ t.count := by
  cases t with
  | leaf p l => cases hMarked
  | heavy p parts => exact h.1
  | node p left right =>
      have hLeft := h.2.2.1.count_pos
      have hRight := h.2.2.2.count_pos
      rw [Shape.count_node]
      omega

/- A marked child that is not too heavy has room. -/
private theorem roomy_of_light
    {cfg : Config} {tls : Heap TlNode}
    {parent : Option Nat} {lo level H : Nat} {t : Shape}
    {x : TlNode}
    (hCfg : cfg.WellFormed)
    (hRep : Rep cfg tls parent lo level t.marked t)
    (hPos : 0 < level)
    (hDeep : HeavyDeep cfg H level t)
    (hGet : tls.get t.ptr = some x)
    (hLight : tooHeavy cfg x H = false)
    (hMarked : t.marked = true) :
    level < cfg.maxLevel ∧
      (cfg.Exact → t.count ≤ 2 ^ (cfg.maxLevel - level)) := by
  have hLt := hDeep.level_lt hRep hMarked
  have hMax := hCfg.level_pos
  cases t with
  | leaf p l => cases hMarked
  | heavy p parts =>
      rcases hRep with ⟨hTwo, ⟨first, -, hRecord⟩, -⟩
      have hx := hGet.symm.trans hRecord
      cases hx
      have hHeight : H < cfg.maxLevel := by
        by_contra hNot
        have hOne : 1 ≤ parts.length := by omega
        have hLess := lt_capacity_of_light rfl hLight
          (by simp [capacity_leaf hCfg]) (by omega)
          (by dsimp only; omega)
        rw [capacity_leaf hCfg rfl] at hLess
        dsimp only at hLess
        omega
      unfold HeavyDeep at hDeep
      refine ⟨by omega, ?_⟩
      intro hExact
      rw [Shape.count_heavy]
      apply (le_two_pow_fastLog2Ceil hExact _).trans
      apply Nat.pow_le_pow_right (by omega)
      omega
  | node p left right =>
      rcases hRep with ⟨hLevel, ⟨below, hRecord⟩, -, -⟩
      have hx := hGet.symm.trans hRecord
      cases hx
      refine ⟨hLevel, ?_⟩
      intro hExact
      rw [hMarked] at hLight
      have hCapacity : capacity cfg
          { label := BitVec.ofNat 64
              (lo + 2 ^ (cfg.maxLevel - level) - 1)
            level := level
            numLeaves := left.count + right.count
            parent := parent
            left := some left.ptr
            right := some right.ptr
            below := below
            needsRebalance := true } =
          2 ^ (cfg.maxLevel - level) := by
        unfold capacity height
        rw [if_neg (by dsimp only; omega), hExact.shiftOne]
      have hLess := lt_capacity_of_light rfl hLight
        (by rw [hCapacity]; exact Nat.pow_pos (by omega))
        (by omega) (by dsimp only; omega)
      rw [hCapacity] at hLess
      rw [Shape.count_node]
      exact hLess.le

------------------------------------------------------------
-- One Step Down
------------------------------------------------------------

/- Take the mark of a node away. -/
private def unmark (x : TlNode) : TlNode :=
  { x with needsRebalance := false }

/- The shape of a tree whose root lost its mark. -/
private theorem Rep.unmark
    {cfg : Config} {tls : Heap TlNode}
    {parent : Option Nat} {lo level : Nat} {mark : Bool}
    {t : Shape}
    (h : Rep cfg tls parent lo level mark t)
    (hNodup : t.addrs.Nodup) :
    Rep cfg (tls.modify t.ptr OrderMaint.unmark) parent lo
      level false t := by
  cases t with
  | leaf p l => exact Heap.get_modify_self _ h
  | heavy p parts =>
      rcases h with ⟨hTwo, ⟨first, hFirst, hGet⟩, hChain⟩
      rw [Shape.addrs, List.nodup_cons] at hNodup
      refine ⟨hTwo, ⟨first, hFirst,
        Heap.get_modify_self _ hGet⟩, ?_⟩
      apply hChain.congr
      intro q hq
      apply Heap.get_modify_of_ne
      rintro rfl
      exact hNodup.1 hq
  | node p left right =>
      rcases h with ⟨hLevel, ⟨below, hGet⟩, hLeft, hRight⟩
      rw [Shape.addrs, List.nodup_cons, List.mem_append,
        not_or] at hNodup
      refine ⟨hLevel, ⟨below, Heap.get_modify_self _ hGet⟩,
        ?_, ?_⟩
      · apply hLeft.congr
        intro q hq
        apply Heap.get_modify_of_ne
        rintro rfl
        exact hNodup.1.1 hq
      · apply hRight.congr
        intro q hq
        apply Heap.get_modify_of_ne
        rintro rfl
        exact hNodup.1.2 hq

/- What a rebalance may come to. -/
structure Outcome
    (cfg : Config) (m : Mem) (tls : Heap TlNode)
    (parent : Option Nat) (lo level : Nat) (t : Shape)
    (r : Run Mem) : Prop where
  onOk : ∀ m', r = Except.ok m' →
    ∃ tls' t', m' = m.withTls tls' ∧
      Rebuild cfg tls tls' parent lo level t t'
  total : cfg.Exact → Roomy cfg level t →
    ∃ m', r = Except.ok m'

/- Nothing is done below a node that is not marked. -/
private theorem Rebuild.refl
    {cfg : Config} {tls : Heap TlNode}
    {parent : Option Nat} {lo level : Nat} {t : Shape}
    (hRep : Rep cfg tls parent lo level t.marked t)
    (hNodup : t.addrs.Nodup)
    (hMarked : t.marked = false) :
    Rebuild cfg tls tls parent lo level t t := by
  rw [hMarked] at hRep
  exact ⟨hRep, rfl, rfl, hMarked, hNodup,
    fun _ hq => Or.inl hq, Nat.le_refl _, fun _ _ _ => rfl,
    fun _ hk => (Shape.within_iff_of_unmarked hMarked).mp hk⟩

/- A rebuild after the mark of the root was taken away. -/
private theorem Rebuild.of_unmark
    {cfg : Config} {tls tls' : Heap TlNode}
    {parent : Option Nat} {lo level : Nat} {t t' : Shape}
    (h : Rebuild cfg (tls.modify t.ptr unmark) tls' parent lo
      level t t') :
    Rebuild cfg tls tls' parent lo level t t' := by
  rcases h with ⟨hRep, hPtr, hLeaves, hMarked, hNodup,
    hAddrs, hNext, hFrame, hShallow⟩
  refine ⟨hRep, hPtr, hLeaves, hMarked, hNodup, hAddrs,
    hNext, ?_, hShallow⟩
  intro q hq hqNot
  rw [hFrame q hq hqNot]
  apply Heap.get_modify_of_ne
  rintro rfl
  exact hqNot t.ptr_mem_addrs

/- A rebuild of a marked subtree. -/
private theorem rebuild_outcome
    {cfg : Config} (m : Mem) {tls : Heap TlNode}
    {parent : Option Nat} {lo level : Nat} {t : Shape}
    (hCfg : cfg.WellFormed)
    (hRange : InRange cfg lo level)
    (hLt : level < cfg.maxLevel)
    (hRep : Rep cfg tls parent lo level t.marked t)
    (hNodup : t.addrs.Nodup)
    (hMarked : t.marked = true)
    (hParent : ∀ q, parent = some q → q ∉ t.addrs)
    (hPlaced : Placed cfg tls t.ptr lo level parent) :
    Outcome cfg m tls parent lo level t
      (rebuild cfg (m.withTls (tls.modify t.ptr unmark))
        t.ptr) := by
  have hRep' := hRep.unmark hNodup
  have hTwo := hRep.two_le_count hMarked
  have hPlaced' : Placed cfg (tls.modify t.ptr unmark) t.ptr
      lo level parent := by
    apply hPlaced.congr
    intro q hq
    apply Heap.get_modify_of_ne
    rintro rfl
    exact hParent _ hq t.ptr_mem_addrs
  by_cases hFit : t.count ≤ 2 ^ (cfg.maxLevel - level)
  · rcases rebuild_spec (m := m) hCfg hRange hLt hRep' hNodup
      hTwo hParent hPlaced' hFit with
      ⟨tls', t', hRun, hRebuild⟩
    constructor
    · intro m' hOk
      rw [hRun] at hOk
      cases hOk
      exact ⟨tls', t', rfl, hRebuild.of_unmark⟩
    · intro _ _
      exact ⟨_, hRun⟩
  · constructor
    · intro m' hOk
      exact absurd hOk (rebuild_crowded hCfg hRange hLt hRep'
        hNodup hTwo hParent hPlaced' (by omega))
    · intro _ hRoomy
      exact absurd (hRoomy hMarked).1 hFit

/- The decision at a marked node. -/
private theorem rebalance_node
    {cfg : Config} {m : Mem} {tls : Heap TlNode}
    {parent : Option Nat} {p lo level H f : Nat}
    {left right : Shape}
    (hRep : Rep cfg tls parent lo level true
      (.node p left right))
    (hNodup : (Shape.node p left right).addrs.Nodup) :
    ∃ x xl xr,
      tls.get left.ptr = some xl ∧
      tls.get right.ptr = some xr ∧
      x.level = level ∧
      rebalance cfg H (f + 1) (m.withTls tls) (some p) = (do
        check (left.count + right.count ≤ capacity cfg x)
        if tooHeavy cfg xl H || tooHeavy cfg xr H then
          rebuild cfg (m.withTls (tls.modify p unmark)) p
        else do
          let m ← rebalance cfg H f
            (m.withTls (tls.modify p unmark)) (some left.ptr)
          rebalance cfg H f m (some right.ptr)) := by
  rcases hRep with ⟨hLt, ⟨below, hGet⟩, hLeft, hRight⟩
  obtain ⟨x, hx⟩ : ∃ x : TlNode, x =
      { label := BitVec.ofNat 64
          (lo + 2 ^ (cfg.maxLevel - level) - 1)
        level := level
        numLeaves := left.count + right.count
        parent := parent
        left := some left.ptr
        right := some right.ptr
        below := below
        needsRebalance := true } := ⟨_, rfl⟩
  rw [← hx] at hGet
  have hLevel : x.level = level := by rw [hx]
  have hCount : x.numLeaves = left.count + right.count := by
    rw [hx]
  have hL : x.left = some left.ptr := by rw [hx]
  have hR : x.right = some right.ptr := by rw [hx]
  have hMark : x.needsRebalance = true := by rw [hx]
  have hNotLeaf : isLeaf cfg x = false := by
    unfold isLeaf
    rw [hL]
    simp
    omega
  rcases hLeft.get_ptr with ⟨xl, hGetL, -⟩
  rcases hRight.get_ptr with ⟨xr, hGetR, -⟩
  rw [Shape.addrs, List.nodup_cons, List.mem_append,
    not_or] at hNodup
  have hNe : ∀ t : Shape, p ∉ t.addrs → t.ptr ≠ p := by
    rintro t hp rfl
    exact hp t.ptr_mem_addrs
  have hGetL' : (tls.modify p unmark).get left.ptr =
      some xl := by
    rw [Heap.get_modify_of_ne _ (hNe left hNodup.1.1)]
    exact hGetL
  have hGetR' : (tls.modify p unmark).get right.ptr =
      some xr := by
    rw [Heap.get_modify_of_ne _ (hNe right hNodup.1.2)]
    exact hGetR
  have hSet : (m.withTls tls).setTl p (fun x =>
      { x with needsRebalance := false }) =
        Except.ok (m.withTls (tls.modify p unmark)) :=
    Mem.setTl_withTls _ hGet
  refine ⟨x, xl, xr, hGetL, hGetR, hLevel, ?_⟩
  rw [rebalance]
  rw [Mem.tls_withTls, Mem.load_of_get hGet, ok_bind, hMark,
    if_neg Bool.noConfusion, hSet, ok_bind, hNotLeaf,
    if_neg Bool.noConfusion, hCount, hL, hR]
  unfold childHeavy
  dsimp only
  rw [deref_some, ok_bind, Mem.tls_withTls,
    Mem.load_of_get hGetL', ok_bind, Mem.load_of_get hGetR',
    ok_bind]
  simp only [pure, Except.pure, ok_bind]

/- The subtrees were rebalanced one after the other. -/
private theorem Rebuild.node
    {cfg : Config} {tls tls₁ tls₂ : Heap TlNode}
    {parent : Option Nat} {p lo level : Nat}
    {left right left' right' : Shape}
    (hRep : Rep cfg tls parent lo level false
      (.node p left right))
    (hNodup : (Shape.node p left right).addrs.Nodup)
    (hLeft : Rebuild cfg tls tls₁ (some p) lo (level + 1)
      left left')
    (hRight : Rebuild cfg tls₁ tls₂ (some p)
      (lo + 2 ^ (cfg.maxLevel - level - 1)) (level + 1)
      right right') :
    Rebuild cfg tls tls₂ parent lo level (.node p left right)
      (.node p left' right') := by
  have hOld := hRep.lt_next
  rcases hRep with ⟨hLevel, ⟨below, hGet⟩, -, -⟩
  simp only [Shape.addrs, List.mem_cons, List.mem_append]
    at hOld
  rw [Shape.addrs, List.nodup_cons, List.mem_append, not_or,
    List.nodup_append'] at hNodup
  rcases hNodup with ⟨⟨hpL, hpR⟩, -, -, hDisj⟩
  have hp := hOld p (Or.inl rfl)
  have hNext₁ := hLeft.next
  have hNext₂ := hRight.next
  have hpL' : p ∉ left'.addrs := by
    intro hMem
    rcases hLeft.addrs p hMem with h | h
    · exact hpL h
    · omega
  have hpR' : p ∉ right'.addrs := by
    intro hMem
    rcases hRight.addrs p hMem with h | h
    · exact hpR h
    · omega
  have hApart : ∀ q ∈ left'.addrs,
      q < tls₁.next ∧ q ∉ right.addrs := by
    intro q hq
    refine ⟨hLeft.rep.lt_next q hq, ?_⟩
    intro hqR
    have hqOld := hOld q (Or.inr (Or.inr hqR))
    rcases hLeft.addrs q hq with h | h
    · exact hDisj h hqR
    · omega
  have hGet₂ : tls₂.get p = tls.get p := by
    rw [hRight.frame p (by omega) hpR, hLeft.frame p hp hpL]
  constructor
  · refine ⟨hLevel, ⟨below, ?_⟩, ?_, ?_⟩
    · rw [hGet₂, hGet, hLeft.ptr, hRight.ptr]
      unfold Shape.count
      rw [hLeft.leaves, hRight.leaves]
    · rw [hLeft.unmarked]
      apply hLeft.rep.congr
      intro q hq
      exact hRight.frame q (hApart q hq).1 (hApart q hq).2
    · rw [hRight.unmarked]
      exact hRight.rep
  · rfl
  · rw [Shape.leaves, hLeft.leaves, hRight.leaves]
    rfl
  · rw [Shape.marked, hLeft.unmarked, hRight.unmarked]
    rfl
  · rw [Shape.addrs, List.nodup_cons, List.mem_append,
      not_or, List.nodup_append']
    refine ⟨⟨hpL', hpR'⟩, hLeft.nodup, hRight.nodup, ?_⟩
    intro q hqL hqR
    have hq := hApart q hqL
    rcases hRight.addrs q hqR with h | h
    · exact hq.2 h
    · omega
  · intro q hq
    rw [Shape.addrs, List.mem_cons, List.mem_append] at hq ⊢
    rcases hq with rfl | hq | hq
    · exact Or.inl (Or.inl rfl)
    · rcases hLeft.addrs q hq with h | h
      · exact Or.inl (Or.inr (Or.inl h))
      · exact Or.inr h
    · rcases hRight.addrs q hq with h | h
      · exact Or.inl (Or.inr (Or.inr h))
      · exact Or.inr (by omega)
  · omega
  · intro q hq hqNot
    rw [Shape.addrs, List.mem_cons, List.mem_append, not_or,
      not_or] at hqNot
    rw [hRight.frame q (by omega) hqNot.2.2,
      hLeft.frame q hq hqNot.2.1]
  · intro k hk
    cases k with
    | zero => cases hk
    | succ k =>
        have := hLeft.shallow k hk.1
        have := hRight.shallow k hk.2
        rw [Shape.depth]
        omega

/- The places of the children of a node. -/
private theorem Placed.child
    {cfg : Config} {tls : Heap TlNode}
    {parent : Option Nat} {p lo level : Nat} {mark : Bool}
    {left right : Shape}
    (hRange : InRange cfg lo level)
    (hRep : Rep cfg tls parent lo level mark
      (.node p left right))
    (hNodup : (Shape.node p left right).addrs.Nodup)
    (hPlaced : Placed cfg tls p lo level parent) :
    Placed cfg tls left.ptr lo (level + 1) (some p) ∧
      Placed cfg tls right.ptr
        (lo + 2 ^ (cfg.maxLevel - level - 1)) (level + 1)
        (some p) := by
  rcases hRep with ⟨hLevel, ⟨below, hGet⟩, -, -⟩
  have hRoot : parent = none → lo = 0 := by
    rintro rfl
    exact hPlaced.1
  have hChild : parent ≠ none → 0 < level := by
    intro hSome
    cases parent with
    | none => exact absurd rfl hSome
    | some q =>
        rcases hPlaced with ⟨y, plo, hAbove⟩
        have := hAbove.level
        omega
  have hNe : right.ptr ≠ left.ptr := by
    rw [Shape.addrs, List.nodup_cons, List.nodup_append']
      at hNodup
    intro hEq
    apply hNodup.2.2.2 left.ptr_mem_addrs
    rw [← hEq]
    exact right.ptr_mem_addrs
  constructor
  · refine ⟨_, lo, hGet, rfl, hRange, rfl, hRoot, hChild, ?_⟩
    right
    refine ⟨?_, rfl⟩
    intro hEq
    exact hNe (Option.some.inj hEq)
  · refine ⟨_, lo, hGet, rfl, hRange, rfl, hRoot, hChild, ?_⟩
    exact Or.inl ⟨rfl, rfl⟩

------------------------------------------------------------
-- Rebalancing
------------------------------------------------------------

/- A node that is not marked is left alone. -/
private theorem rebalance_unmarked
    {cfg : Config} (m : Mem) {tls : Heap TlNode}
    {parent : Option Nat} {lo level H f : Nat} {t : Shape}
    (hRep : Rep cfg tls parent lo level t.marked t)
    (hNodup : t.addrs.Nodup)
    (hMarked : t.marked = false) :
    Outcome cfg m tls parent lo level t
      (rebalance cfg H (f + 1) (m.withTls tls)
        (some t.ptr)) := by
  have hRun : rebalance cfg H (f + 1) (m.withTls tls)
      (some t.ptr) = Except.ok (m.withTls tls) := by
    rcases hRep.get_ptr with ⟨x, hGet, hMark, -, -⟩
    rw [rebalance, Mem.tls_withTls, Mem.load_of_get hGet,
      ok_bind, hMark, hMarked]
    rfl
  rw [hRun]
  constructor
  · intro m' hOk
    cases hOk
    exact ⟨tls, t, rfl, Rebuild.refl hRep hNodup hMarked⟩
  · intro _ _
    exact ⟨_, rfl⟩

/- The decision at a leaf that was split. -/
private theorem rebalance_heavy_eq
    {cfg : Config} {m : Mem} {tls : Heap TlNode}
    {parent : Option Nat} {p lo level H f : Nat}
    {parts : List (Nat × Nat)}
    (hRep : Rep cfg tls parent lo level true
      (.heavy p parts)) :
    rebalance cfg H (f + 1) (m.withTls tls) (some p) =
      rebuild cfg (m.withTls (tls.modify p unmark)) p := by
  rcases hRep.2.1 with ⟨first, -, hGet⟩
  rw [rebalance, Mem.tls_withTls, Mem.load_of_get hGet,
    ok_bind, if_neg (by simp), Mem.setTl_withTls _ hGet,
    ok_bind, if_pos (by simp [isLeaf])]
  rfl

/- A leaf that was split is rebuilt. -/
private theorem rebalance_heavy
    {cfg : Config} (m : Mem) {tls : Heap TlNode}
    {parent : Option Nat} {p lo level H f : Nat}
    {parts : List (Nat × Nat)}
    (hCfg : cfg.WellFormed)
    (hRange : InRange cfg lo level)
    (hLt : level < cfg.maxLevel)
    (hRep : Rep cfg tls parent lo level true (.heavy p parts))
    (hNodup : (Shape.heavy p parts).addrs.Nodup)
    (hParent : ∀ q, parent = some q →
      q ∉ (Shape.heavy p parts).addrs)
    (hPlaced : Placed cfg tls p lo level parent) :
    Outcome cfg m tls parent lo level (.heavy p parts)
      (rebalance cfg H (f + 1) (m.withTls tls) (some p)) := by
  rw [rebalance_heavy_eq hRep]
  exact rebuild_outcome m hCfg hRange hLt hRep hNodup rfl
    hParent hPlaced

/- An internal node is rebuilt, or its children are. -/
private theorem Outcome.node
    {cfg : Config} {m : Mem} {tls : Heap TlNode}
    {parent : Option Nat} {p lo level H f : Nat}
    {left right : Shape} {x xl xr : TlNode}
    (hCfg : cfg.WellFormed)
    (hRep : Rep cfg tls parent lo level
      (Shape.node p left right).marked (.node p left right))
    (hNodup : (Shape.node p left right).addrs.Nodup)
    (hMarked : (Shape.node p left right).marked = true)
    (hDeep : HeavyDeep cfg H level (.node p left right))
    (hGetL : tls.get left.ptr = some xl)
    (hGetR : tls.get right.ptr = some xr)
    (hx : x.level = level)
    (hBuild : Outcome cfg m tls parent lo level
      (.node p left right)
      (rebuild cfg (m.withTls (tls.modify p unmark)) p))
    (hLeft : (left.marked = true → level + 1 < cfg.maxLevel) →
      Outcome cfg m (tls.modify p unmark) (some p) lo
        (level + 1) left
        (rebalance cfg H f
          (m.withTls (tls.modify p unmark))
          (some left.ptr)))
    (hRight : ∀ tls₁ left',
      (right.marked = true → level + 1 < cfg.maxLevel) →
      Rebuild cfg (tls.modify p unmark) tls₁ (some p) lo
        (level + 1) left left' →
      Outcome cfg m tls₁ (some p)
        (lo + 2 ^ (cfg.maxLevel - level - 1)) (level + 1)
        right
        (rebalance cfg H f (m.withTls tls₁)
          (some right.ptr))) :
    Outcome cfg m tls parent lo level (.node p left right)
      (do
        check (left.count + right.count ≤ capacity cfg x)
        if tooHeavy cfg xl H || tooHeavy cfg xr H then
          rebuild cfg (m.withTls (tls.modify p unmark)) p
        else do
          let m ← rebalance cfg H f
            (m.withTls (tls.modify p unmark)) (some left.ptr)
          rebalance cfg H f m (some right.ptr)) := by
  have hRep' := hRep.unmark hNodup
  -- The assertion holds if there is room.
  have hCheck : cfg.Exact →
      Roomy cfg level (.node p left right) →
        left.count + right.count ≤ capacity cfg x := by
    intro hExact hRoomy
    rcases hRoomy hMarked with ⟨hFit, hRoot⟩
    rw [Shape.count_node] at hFit hRoot
    unfold capacity height
    rw [hx]
    split
    case isTrue hZero =>
      have := hRoot hZero rfl
      rw [hCfg.maxLabel]
      omega
    case isFalse =>
      rw [hExact.shiftOne]
      exact hFit
  by_cases hHeavy :
      (tooHeavy cfg xl H || tooHeavy cfg xr H) = true
  · rw [if_pos hHeavy]
    constructor
    · intro m' hOk
      rcases bind_eq_ok hOk with ⟨u, -, hOk⟩
      exact hBuild.onOk m' hOk
    · intro hExact hRoomy
      rw [check_of (hCheck hExact hRoomy), ok_bind]
      exact hBuild.total hExact hRoomy
  · rw [if_neg hHeavy]
    rw [Bool.or_eq_true, not_or, Bool.not_eq_true,
      Bool.not_eq_true] at hHeavy
    rcases hRep with ⟨-, -, hRepL, hRepR⟩
    have hLightL := roomy_of_light hCfg hRepL (by omega)
      hDeep.1 hGetL hHeavy.1
    have hLightR := roomy_of_light hCfg hRepR (by omega)
      hDeep.2 hGetR hHeavy.2
    have hOutL := hLeft fun h => (hLightL h).1
    constructor
    · intro m' hOk
      rcases bind_eq_ok hOk with ⟨u, -, hOk⟩
      rcases bind_eq_ok hOk with ⟨m₁, hRunL, hRunR⟩
      rcases hOutL.onOk m₁ hRunL with
        ⟨tls₁, left', rfl, hBuildL⟩
      have hOutR := hRight tls₁ left'
        (fun h => (hLightR h).1) hBuildL
      rcases hOutR.onOk m' hRunR with
        ⟨tls₂, right', hEq, hBuildR⟩
      refine ⟨tls₂, .node p left' right', hEq, ?_⟩
      have hBoth := Rebuild.node hRep' hNodup hBuildL hBuildR
      exact Rebuild.of_unmark hBoth
    · intro hExact hRoomy
      rw [check_of (hCheck hExact hRoomy), ok_bind]
      rcases hOutL.total hExact (fun h =>
        ⟨(hLightL h).2 hExact, by omega⟩) with ⟨m₁, hRunL⟩
      rcases hOutL.onOk m₁ hRunL with
        ⟨tls₁, left', rfl, hBuildL⟩
      have hOutR := hRight tls₁ left'
        (fun h => (hLightR h).1) hBuildL
      rw [hRunL, ok_bind]
      exact hOutR.total hExact (fun h =>
        ⟨(hLightR h).2 hExact, by omega⟩)

/-
  A rebalance that returns leaves an unmarked tree with the
  same leaves; with room it returns.
-/
theorem rebalance_spec
    {cfg : Config} (m : Mem) {tls : Heap TlNode}
    {parent : Option Nat} {lo level H f : Nat} {t : Shape}
    (hCfg : cfg.WellFormed)
    (hRange : InRange cfg lo level)
    (hRep : Rep cfg tls parent lo level t.marked t)
    (hNodup : t.addrs.Nodup)
    (hParent : ∀ q, parent = some q → q ∉ t.addrs)
    (hPlaced : Placed cfg tls t.ptr lo level parent)
    (hDeep : HeavyDeep cfg H level t)
    (hLevel : t.marked = true → level < cfg.maxLevel)
    (hFuel : t.depth < f) :
    Outcome cfg m tls parent lo level t
      (rebalance cfg H f (m.withTls tls) (some t.ptr)) := by
  induction t generalizing tls parent lo level f with
  | leaf p l =>
      cases f with
      | zero => omega
      | succ f => exact rebalance_unmarked m hRep hNodup rfl
  | heavy p parts =>
      cases f with
      | zero => omega
      | succ f =>
          exact rebalance_heavy m hCfg hRange (hLevel rfl)
            hRep hNodup hParent hPlaced
  | node p left right ihLeft ihRight =>
      cases f with
      | zero => omega
      | succ f =>
          cases hMarked : (Shape.node p left right).marked with
          | false =>
              exact rebalance_unmarked m hRep hNodup hMarked
          | true =>
              have hBuild := rebuild_outcome m hCfg hRange
                (hLevel hMarked) hRep hNodup hMarked hParent
                hPlaced
              have hRep' := hRep.unmark hNodup
              have hPlaced' : Placed cfg
                  (tls.modify p unmark) p lo level parent := by
                apply hPlaced.congr
                intro q hq
                apply Heap.get_modify_of_ne
                rintro rfl
                apply hParent q hq
                simp [Shape.addrs]
              have hChild := Placed.child hRange hRep' hNodup
                hPlaced'
              have hRepM := hRep
              rw [hMarked] at hRepM
              rcases rebalance_node (H := H) (f := f) (m := m)
                hRepM hNodup with
                ⟨x, xl, xr, hGetL, hGetR, hx, hRun⟩
              dsimp only [Shape.ptr]
              rw [hRun]
              simp only [Shape.depth] at hFuel
              have hOld := hRep'.lt_next
              have hLt := hRep'.1
              have hSides := hNodup
              rw [Shape.addrs, List.nodup_cons,
                List.mem_append, not_or, List.nodup_append']
                at hSides
              rcases hSides with
                ⟨⟨hpL, hpR⟩, hNodupL, hNodupR, hDisj⟩
              apply Outcome.node hCfg hRep hNodup hMarked hDeep
                hGetL hGetR hx hBuild
              · intro hLevelL
                apply ihLeft (hRange.left hLt) hRep'.2.2.1
                  hNodupL _ hChild.1 hDeep.1 hLevelL (by omega)
                rintro q hq
                cases hq
                exact hpL
              · intro tls₁ left' hLevelR hBuildL
                have hSame : ∀ q ∈ p :: right.addrs,
                    tls₁.get q =
                      (tls.modify p unmark).get q := by
                  intro q hq
                  rw [List.mem_cons] at hq
                  rcases hq with rfl | hq
                  · exact hBuildL.frame q
                      (hOld q (by simp [Shape.addrs])) hpL
                  · apply hBuildL.frame q
                      (hOld q (by simp [Shape.addrs, hq]))
                    intro hqL
                    exact hDisj hqL hq
                have hRepR := hRep'.2.2.2.congr fun q hq =>
                  hSame q (List.mem_cons_of_mem _ hq)
                have hPlacedR := hChild.2.congr (by
                  rintro q hq
                  cases hq
                  exact hSame p (List.mem_cons_self ..))
                apply ihRight (hRange.right hLt) hRepR
                  hNodupR _ hPlacedR hDeep.2 hLevelR
                  (by omega)
                rintro q hq
                cases hq
                exact hpR

/- A tree with a rebalance that returns had room. -/
theorem roomy_of_rebalance
    {cfg : Config} {m m' : Mem} {tls : Heap TlNode}
    {lo level H f : Nat} {parent : Option Nat} {t : Shape}
    (hCfg : cfg.WellFormed)
    (hExact : cfg.Exact)
    (hRange : InRange cfg lo level)
    (hRep : Rep cfg tls parent lo level t.marked t)
    (hNodup : t.addrs.Nodup)
    (hParent : ∀ q, parent = some q → q ∉ t.addrs)
    (hPlaced : Placed cfg tls t.ptr lo level parent)
    (hLevel : t.marked = true → level < cfg.maxLevel)
    (hRun : rebalance cfg H f (m.withTls tls) (some t.ptr) =
      Except.ok m') :
    Roomy cfg level t := by
  intro hMarked
  have hMax := hCfg.maxLabel
  cases f with
  | zero => cases hRun
  | succ f =>
      cases t with
      | leaf p l => cases hMarked
      | heavy p parts =>
          refine ⟨?_, fun _ hNode => by cases hNode⟩
          by_contra hCrowded
          dsimp only [Shape.ptr] at hRun hPlaced
          rw [rebalance_heavy_eq hRep] at hRun
          have hPlaced' : Placed cfg (tls.modify p unmark) p
              lo level parent := by
            apply hPlaced.congr
            intro q hq
            apply Heap.get_modify_of_ne
            rintro rfl
            apply hParent q hq
            simp [Shape.addrs]
          exact rebuild_crowded hCfg hRange (hLevel rfl)
            (hRep.unmark hNodup) hNodup hRep.1 hParent
            hPlaced' (Nat.lt_of_not_le hCrowded) hRun
      | node p left right =>
          rw [hMarked] at hRep
          rcases rebalance_node (H := H) (f := f) (m := m)
            hRep hNodup with ⟨x, xl, xr, -, -, hx, hEq⟩
          dsimp only [Shape.ptr] at hRun
          rw [hEq] at hRun
          rcases bind_eq_ok hRun with ⟨u, hCheck, -⟩
          have hFit := of_check hCheck
          have hPos : 0 < 2 ^ cfg.maxLevel :=
            Nat.pow_pos (by omega)
          unfold capacity height at hFit
          rw [hx, hExact.shiftOne] at hFit
          rw [Shape.count_node]
          by_cases hZero : level = 0
          · rw [if_pos hZero] at hFit
            rw [hZero, Nat.sub_zero]
            omega
          · rw [if_neg hZero] at hFit
            exact ⟨hFit, fun h => absurd h hZero⟩

end OrderMaint

end PRacer
