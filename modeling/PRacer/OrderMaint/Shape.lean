import PRacer.OrderMaint.Relabel

/-
  The shape of the top-level tree, and how memory holds it.

  `Rep` ties a shape to the records: links, counts, marks,
  levels and labels.  A shape in the middle of a relabel may
  have heavy leaves, whose lists have been split.

  Main declarations:
    * `Shape`, `Rep`
    * `Rep.congr`
    * `rangeLeft_eq`, `middle_eq`
-/

namespace PRacer

open Foundations

namespace OrderMaint

------------------------------------------------------------
-- Shapes
------------------------------------------------------------

/-
  A leaf with its list, a heavy leaf with the leaves and
  lists it was split into, or an internal node.
-/
inductive Shape where
| leaf (p l : Nat)
| heavy (p : Nat) (parts : List (Nat × Nat))
| node (p : Nat) (left right : Shape)
deriving Repr

namespace Shape

/- The address of the root. -/
def ptr : Shape → Nat
| leaf p _ => p
| heavy p _ => p
| node p _ _ => p

/- The leaves with their lists, from left to right. -/
def leaves : Shape → List (Nat × Nat)
| leaf p l => [(p, l)]
| heavy _ parts => parts
| node _ left right => left.leaves ++ right.leaves

/- The number of leaves. -/
def count (t : Shape) : Nat := t.leaves.length

/- The addresses of all nodes. -/
def addrs : Shape → List Nat
| leaf p _ => [p]
| heavy p parts => p :: parts.map Prod.fst
| node p left right => p :: (left.addrs ++ right.addrs)

/- Whether a leaf was split. -/
def marked : Shape → Bool
| leaf _ _ => false
| heavy _ _ => true
| node _ left right => left.marked || right.marked

/-
  With its split leaves, the tree has that many levels below
  its root, or fewer.
-/
def Within : Nat → Shape → Prop
| _, leaf _ _ => True
| k, heavy _ parts => parts.length ≤ 2 ^ k
| 0, node _ _ _ => False
| k + 1, node _ left right => left.Within k ∧ right.Within k

/- The number of links from the root to the lowest node. -/
def depth : Shape → Nat
| leaf _ _ => 0
| heavy _ _ => 0
| node _ left right => max left.depth right.depth + 1

theorem depth_lt_length_addrs (t : Shape) :
    t.depth < t.addrs.length := by
  induction t with
  | leaf p l => simp [depth, addrs]
  | heavy p parts => simp [depth, addrs]
  | node p left right hLeft hRight =>
      simp only [depth, addrs, List.length_cons,
        List.length_append]
      omega

@[simp] theorem count_leaf (p l : Nat) :
    (leaf p l).count = 1 := rfl

@[simp] theorem count_heavy
    (p : Nat) (parts : List (Nat × Nat)) :
    (heavy p parts).count = parts.length := rfl

@[simp] theorem count_node (p : Nat) (left right : Shape) :
    (node p left right).count = left.count + right.count := by
  unfold count
  rw [leaves, List.length_append]

theorem within_heavy
    {k p : Nat} {parts : List (Nat × Nat)} :
    (heavy p parts).Within k ↔ parts.length ≤ 2 ^ k := by
  cases k <;> rfl

/- A tree of few levels has few leaves. -/
theorem Within.count_le
    {k : Nat} {t : Shape}
    (h : t.Within k) :
    t.count ≤ 2 ^ k := by
  induction t generalizing k with
  | leaf p l => exact Nat.pow_pos (by omega)
  | heavy p parts => exact within_heavy.mp h
  | node p left right ihLeft ihRight =>
      cases k with
      | zero => cases h
      | succ k =>
          have := ihLeft h.1
          have := ihRight h.2
          rw [count_node, Nat.pow_succ]
          omega

theorem Within.mono
    {k k' : Nat} {t : Shape}
    (h : t.Within k)
    (hLe : k ≤ k') :
    t.Within k' := by
  induction t generalizing k k' with
  | leaf p l => cases k' <;> trivial
  | heavy p parts =>
      have hPow : 2 ^ k ≤ 2 ^ k' :=
        Nat.pow_le_pow_right (by omega) hLe
      rw [within_heavy] at h ⊢
      exact h.trans hPow
  | node p left right ihLeft ihRight =>
      cases k with
      | zero => cases h
      | succ k =>
          cases k' with
          | zero => omega
          | succ k' =>
              exact ⟨ihLeft h.1 (by omega),
                ihRight h.2 (by omega)⟩

/- Without split leaves, the levels are those of the tree. -/
theorem within_iff_of_unmarked
    {k : Nat} {t : Shape}
    (hMarked : t.marked = false) :
    t.Within k ↔ t.depth ≤ k := by
  induction t generalizing k with
  | leaf p l => cases k <;> simp [Within, depth]
  | heavy p parts => cases hMarked
  | node p left right ihLeft ihRight =>
      rw [marked, Bool.or_eq_false_iff] at hMarked
      cases k with
      | zero => simp [Within, depth]
      | succ k =>
          rw [Within, ihLeft hMarked.1, ihRight hMarked.2,
            depth]
          omega

theorem ptr_mem_addrs (t : Shape) : t.ptr ∈ t.addrs := by
  cases t <;> simp [ptr, addrs]

theorem leaves_subset_addrs (t : Shape) :
    ∀ x ∈ t.leaves, x.1 ∈ t.addrs := by
  induction t with
  | leaf p l =>
      intro x hx
      rw [leaves, List.mem_singleton] at hx
      simp [addrs, hx]
  | heavy p parts =>
      intro x hx
      rw [addrs, List.mem_cons, List.mem_map]
      exact Or.inr ⟨x, hx, rfl⟩
  | node p left right hLeft hRight =>
      intro x hx
      rw [leaves, List.mem_append] at hx
      rw [addrs, List.mem_cons, List.mem_append]
      rcases hx with hx | hx
      · exact Or.inr (Or.inl (hLeft x hx))
      · exact Or.inr (Or.inr (hRight x hx))

/- The leaves are among the addresses, in order. -/
theorem leaves_sublist_addrs (t : Shape) :
    List.Sublist (t.leaves.map Prod.fst) t.addrs := by
  induction t with
  | leaf p l => exact List.Sublist.refl _
  | heavy p parts => exact List.sublist_cons_self _ _
  | node p left right hLeft hRight =>
      rw [leaves, addrs, List.map_append]
      exact (hLeft.append hRight).cons _

end Shape

------------------------------------------------------------
-- Shapes in Memory
------------------------------------------------------------

/- The chain of the leaves that a heavy leaf is split into. -/
def SplitChain (cfg : Config) (tls : Heap TlNode) :
    Option Nat → List (Nat × Nat) → Prop
| _, [] => True
| prev, (p, l) :: rest =>
    (∃ x, tls.get p = some x ∧ x.level = cfg.maxLevel ∧
      x.numLeaves = 1 ∧ x.below = .list l ∧ x.left = prev ∧
      x.right = rest.head?.map Prod.fst) ∧
    SplitChain cfg tls (some p) rest

/-
  The records of a subtree with the labels from `lo` on.  An
  internal node at a level has a range of `2 ^ (maxLevel -
  level)` labels.  Its mark is `mark`; the marks below it are
  those of its leaves.
-/
def Rep (cfg : Config) (tls : Heap TlNode)
    (parent : Option Nat) (lo level : Nat) (mark : Bool) :
    Shape → Prop
| .leaf p l =>
    tls.get p = some
      { label := BitVec.ofNat 64 lo
        level := cfg.maxLevel
        numLeaves := 1
        parent := parent
        left := none
        right := none
        below := .list l
        needsRebalance := mark }
| .heavy p parts =>
    2 ≤ parts.length ∧
      (∃ first, parts.head?.map Prod.fst = some first ∧
        tls.get p = some
          { label := BitVec.ofNat 64 lo
            level := cfg.maxLevel
            numLeaves := parts.length
            parent := parent
            left := none
            right := none
            below := .splitNodes first
            needsRebalance := mark }) ∧
      SplitChain cfg tls none parts
| .node p left right =>
    level < cfg.maxLevel ∧
      (∃ below, tls.get p = some
        { label := BitVec.ofNat 64
            (lo + 2 ^ (cfg.maxLevel - level) - 1)
          level := level
          numLeaves := left.count + right.count
          parent := parent
          left := some left.ptr
          right := some right.ptr
          below := below
          needsRebalance := mark }) ∧
      Rep cfg tls (some p) lo (level + 1) left.marked left ∧
      Rep cfg tls (some p)
        (lo + 2 ^ (cfg.maxLevel - level - 1)) (level + 1)
        right.marked right

theorem SplitChain.congr
    {cfg : Config} {tls tls' : Heap TlNode}
    {prev : Option Nat} {parts : List (Nat × Nat)}
    (h : SplitChain cfg tls prev parts)
    (hSame : ∀ p ∈ parts.map Prod.fst,
      tls'.get p = tls.get p) :
    SplitChain cfg tls' prev parts := by
  induction parts generalizing prev with
  | nil => trivial
  | cons x parts ih =>
      rcases h with ⟨hHead, hRest⟩
      constructor
      · rw [hSame x.1 (by simp)]
        exact hHead
      · apply ih hRest
        intro p hp
        exact hSame p (List.mem_cons_of_mem _ hp)

/- A part of a split leaf. -/
theorem SplitChain.get
    {cfg : Config} {tls : Heap TlNode}
    {prev : Option Nat} {parts : List (Nat × Nat)}
    (h : SplitChain cfg tls prev parts) :
    ∀ x ∈ parts, ∃ y, tls.get x.1 = some y ∧
      y.below = .list x.2 := by
  induction parts generalizing prev with
  | nil =>
      intro x hx
      cases hx
  | cons z parts ih =>
      intro x hx
      rcases List.mem_cons.mp hx with rfl | hx
      · rcases h.1 with ⟨y, hGet, -, -, hBelow, -, -⟩
        exact ⟨y, hGet, hBelow⟩
      · exact ih h.2 x hx

/- A shape depends on the records of its own nodes only. -/
theorem Rep.congr
    {cfg : Config} {tls tls' : Heap TlNode}
    {parent : Option Nat} {lo level : Nat} {mark : Bool}
    {t : Shape}
    (h : Rep cfg tls parent lo level mark t)
    (hSame : ∀ p ∈ t.addrs, tls'.get p = tls.get p) :
    Rep cfg tls' parent lo level mark t := by
  induction t generalizing parent lo level mark with
  | leaf p l =>
      unfold Rep at h ⊢
      rw [hSame p (by simp [Shape.addrs])]
      exact h
  | heavy p parts =>
      unfold Rep at h ⊢
      rcases h with ⟨hTwo, hGet, hChain⟩
      refine ⟨hTwo, ?_, ?_⟩
      · rw [hSame p (by simp [Shape.addrs])]
        exact hGet
      · apply hChain.congr
        intro q hq
        exact hSame q (List.mem_cons_of_mem _ hq)
  | node p left right ihLeft ihRight =>
      unfold Rep at h ⊢
      rcases h with ⟨hLevel, hGet, hLeft, hRight⟩
      refine ⟨hLevel, ?_, ?_, ?_⟩
      · rw [hSame p (by simp [Shape.addrs])]
        exact hGet
      · apply ihLeft hLeft
        intro q hq
        apply hSame
        simp [Shape.addrs, hq]
      · apply ihRight hRight
        intro q hq
        apply hSame
        simp [Shape.addrs, hq]

/- The root of a shape is allocated. -/
theorem Rep.get_ptr
    {cfg : Config} {tls : Heap TlNode}
    {parent : Option Nat} {lo level : Nat} {mark : Bool}
    {t : Shape}
    (h : Rep cfg tls parent lo level mark t) :
    ∃ x, tls.get t.ptr = some x ∧ x.needsRebalance = mark ∧
      x.numLeaves = t.count ∧ x.parent = parent := by
  cases t with
  | leaf p l => exact ⟨_, h, rfl, rfl, rfl⟩
  | heavy p parts =>
      rcases h.2.1 with ⟨first, -, hGet⟩
      exact ⟨_, hGet, rfl, rfl, rfl⟩
  | node p left right =>
      rcases h.2.1 with ⟨below, hGet⟩
      exact ⟨_, hGet, rfl, by simp, rfl⟩

/- All nodes of a shape are allocated. -/
theorem Rep.exists_get
    {cfg : Config} {tls : Heap TlNode}
    {parent : Option Nat} {lo level : Nat} {mark : Bool}
    {t : Shape}
    (h : Rep cfg tls parent lo level mark t) :
    ∀ p ∈ t.addrs, ∃ x, tls.get p = some x := by
  induction t generalizing parent lo level mark with
  | leaf p l =>
      intro q hq
      rw [Shape.addrs, List.mem_singleton] at hq
      subst hq
      exact ⟨_, h⟩
  | heavy p parts =>
      intro q hq
      rw [Shape.addrs, List.mem_cons] at hq
      rcases hq with rfl | hq
      · rcases h.2.1 with ⟨first, -, hGet⟩
        exact ⟨_, hGet⟩
      · rw [List.mem_map] at hq
        rcases hq with ⟨x, hx, rfl⟩
        rcases h.2.2.get x hx with ⟨y, hGet, -⟩
        exact ⟨y, hGet⟩
  | node p left right ihLeft ihRight =>
      intro q hq
      rcases h with ⟨-, ⟨below, hGet⟩, hLeft, hRight⟩
      rw [Shape.addrs, List.mem_cons, List.mem_append] at hq
      rcases hq with rfl | hq | hq
      · exact ⟨_, hGet⟩
      · exact ihLeft hLeft q hq
      · exact ihRight hRight q hq

/- A shape lies below the next address. -/
theorem Rep.lt_next
    {cfg : Config} {tls : Heap TlNode}
    {parent : Option Nat} {lo level : Nat} {mark : Bool}
    {t : Shape}
    (h : Rep cfg tls parent lo level mark t) :
    ∀ p ∈ t.addrs, p < tls.next := by
  intro p hp
  rcases h.exists_get p hp with ⟨x, hGet⟩
  exact Heap.lt_next hGet

------------------------------------------------------------
-- Labels and Ranges
------------------------------------------------------------

/-
  The configurations that the header offers: labels of
  `maxLevel` bits, and room for the labels of a sublist.
-/
structure Config.WellFormed (cfg : Config) : Prop where
  level_pos : 0 < cfg.maxLevel
  level_le : cfg.maxLevel ≤ 64
  maxLabel : cfg.maxLabel.toNat = 2 ^ cfg.maxLevel - 1
  sublist_pos : 0 < cfg.sublistSize
  interval_pos : 2 ≤ cfg.sublistSize →
    0 < cfg.nodeInterval.toNat
  interval_le :
    (cfg.sublistSize - 1) * cfg.nodeInterval.toNat ≤
      cfg.maxLabel.toNat

theorem Config.default_wellFormed (k : Machine) :
    (Config.default k).WellFormed := by
  constructor <;> simp [Config.default]

/- An aligned range of labels of a level. -/
structure InRange (cfg : Config) (lo level : Nat) : Prop where
  level_le : level ≤ cfg.maxLevel
  aligned : 2 ^ (cfg.maxLevel - level) ∣ lo
  le : lo + 2 ^ (cfg.maxLevel - level) ≤ 2 ^ cfg.maxLevel

theorem inRange_root (cfg : Config) : InRange cfg 0 0 := by
  constructor <;> simp

/- A range falls into two halves. -/
theorem InRange.two_mul
    {cfg : Config} {level : Nat}
    (hLevel : level < cfg.maxLevel) :
    2 ^ (cfg.maxLevel - level) =
      2 * 2 ^ (cfg.maxLevel - level - 1) := by
  rw [← Nat.pow_succ']
  congr 1
  omega

theorem InRange.left
    {cfg : Config} {lo level : Nat}
    (h : InRange cfg lo level)
    (hLevel : level < cfg.maxLevel) :
    InRange cfg lo (level + 1) := by
  have hTwo := InRange.two_mul hLevel
  have hSub : cfg.maxLevel - (level + 1) =
      cfg.maxLevel - level - 1 := by
    omega
  rcases h with ⟨-, hAligned, hLe⟩
  constructor
  · omega
  · rw [hSub]
    apply dvd_trans _ hAligned
    rw [hTwo]
    exact dvd_mul_left _ _
  · rw [hSub]
    omega

theorem InRange.right
    {cfg : Config} {lo level : Nat}
    (h : InRange cfg lo level)
    (hLevel : level < cfg.maxLevel) :
    InRange cfg (lo + 2 ^ (cfg.maxLevel - level - 1))
      (level + 1) := by
  have hTwo := InRange.two_mul hLevel
  have hSub : cfg.maxLevel - (level + 1) =
      cfg.maxLevel - level - 1 := by
    omega
  rcases h with ⟨-, hAligned, hLe⟩
  constructor
  · omega
  · rw [hSub]
    apply Nat.dvd_add _ (dvd_refl _)
    apply dvd_trans _ hAligned
    rw [hTwo]
    exact dvd_mul_left _ _
  · rw [hSub]
    omega

/- All labels fit into 64 bits. -/
theorem InRange.lt_word
    {cfg : Config} {lo level : Nat}
    (hCfg : cfg.WellFormed)
    (h : InRange cfg lo level) :
    lo + 2 ^ (cfg.maxLevel - level) ≤ 2 ^ 64 := by
  have hPow : 2 ^ cfg.maxLevel ≤ 2 ^ 64 :=
    Nat.pow_le_pow_right (by omega) hCfg.level_le
  have := h.le
  omega

/- A number below `2 ^ 64` as a label. -/
theorem toNat_label
    {x : Nat}
    (hx : x < 2 ^ 64) :
    (BitVec.ofNat 64 x).toNat = x := by
  rw [BitVec.toNat_ofNat, Nat.mod_eq_of_lt hx]

private theorem toNat_two : (2 : Label).toNat = 2 := rfl

private theorem toNat_one : (1 : Label).toNat = 1 := rfl

/- The middle of a range, without wrapping. -/
theorem middle_eq
    {lo k : Nat}
    (hLt : lo + k < 2 ^ 64) :
    middle (BitVec.ofNat 64 lo) (BitVec.ofNat 64 (lo + k)) =
      BitVec.ofNat 64 (lo + k / 2) := by
  have hSub : BitVec.ofNat 64 (lo + k) - BitVec.ofNat 64 lo =
      BitVec.ofNat 64 k := by
    apply BitVec.eq_of_toNat_eq
    simp only [BitVec.toNat_sub, BitVec.toNat_ofNat]
    omega
  unfold middle
  rw [hSub]
  apply BitVec.eq_of_toNat_eq
  simp only [BitVec.toNat_sub, BitVec.toNat_add,
    BitVec.toNat_udiv, BitVec.toNat_ofNat, toNat_two,
    toNat_one]
  omega

/- The middle of a range of more than one label. -/
theorem middle_range
    {lo half : Nat}
    (hPos : 0 < half)
    (hLe : lo + 2 * half ≤ 2 ^ 64) :
    middle (BitVec.ofNat 64 lo)
        (BitVec.ofNat 64 (lo + 2 * half - 1)) =
      BitVec.ofNat 64 (lo + half - 1) := by
  have hEnd : lo + 2 * half - 1 = lo + (2 * half - 1) := by
    omega
  rw [hEnd, middle_eq (by omega)]
  congr 1
  omega

/- The label after the middle of a range. -/
theorem middle_range_succ
    {lo half : Nat}
    (hPos : 0 < half)
    (hLe : lo + 2 * half ≤ 2 ^ 64) :
    middle (BitVec.ofNat 64 lo)
        (BitVec.ofNat 64 (lo + 2 * half - 1)) + 1 =
      BitVec.ofNat 64 (lo + half) := by
  rw [middle_range hPos hLe]
  apply BitVec.eq_of_toNat_eq
  simp only [BitVec.toNat_add, BitVec.toNat_ofNat,
    toNat_one]
  omega

/- The right end of a range of more than one label is odd. -/
theorem odd_right
    {cfg : Config} {lo level : Nat}
    (hCfg : cfg.WellFormed)
    (h : InRange cfg lo level)
    (hLevel : level < cfg.maxLevel) :
    BitVec.ofNat 64
      (lo + 2 ^ (cfg.maxLevel - level) - 1) % 2 = 1 := by
  have hTwo := InRange.two_mul hLevel
  have hWord := h.lt_word hCfg
  have hPos : 0 < 2 ^ (cfg.maxLevel - level - 1) :=
    Nat.pow_pos (by omega)
  rcases h.aligned with ⟨c, hc⟩
  rw [hTwo] at hc hWord ⊢
  rw [mul_assoc] at hc
  apply BitVec.eq_of_toNat_eq
  rw [BitVec.toNat_umod, toNat_label (by omega), toNat_two,
    toNat_one]
  omega

/- The bits of `MAX_LABEL`. -/
private theorem maxLabel_bit
    {cfg : Config} (hCfg : cfg.WellFormed) (i : Nat) :
    cfg.maxLabel.getLsbD i = decide (i < cfg.maxLevel) := by
  unfold BitVec.getLsbD
  rw [hCfg.maxLabel, Nat.testBit_two_pow_sub_one]

/- The mask of `range_left` keeps the first bits of labels. -/
private theorem mask_bit
    {cfg : Config} {level i : Nat}
    (hCfg : cfg.WellFormed)
    (hPos : 0 < level)
    (hLevel : level ≤ cfg.maxLevel)
    (hi : i < cfg.maxLevel) :
    ((cfg.maxLabel <<< (cfg.maxLevel - 1)).sshiftRight
      (level - 1)).getLsbD i =
        decide (cfg.maxLevel - level ≤ i) := by
  have hWord := hCfg.level_le
  rw [BitVec.getLsbD_sshiftRight]
  have hi' : ¬ 64 ≤ i := by omega
  by_cases hLow : level - 1 + i < 64
  · rw [if_pos hLow, BitVec.getLsbD_shiftLeft,
      maxLabel_bit hCfg]
    simp only [hi', hLow, decide_false, decide_true,
      Bool.not_false, Bool.true_and]
    rw [Bool.eq_iff_iff]
    simp only [Bool.and_eq_true, Bool.not_eq_true',
      decide_eq_false_iff_not, decide_eq_true_eq]
    omega
  · rw [if_neg hLow, BitVec.msb_eq_getLsbD_last,
      BitVec.getLsbD_shiftLeft, maxLabel_bit hCfg]
    rw [Bool.eq_iff_iff]
    simp only [Bool.and_eq_true, Bool.not_eq_true',
      decide_eq_false_iff_not, decide_eq_true_eq]
    omega

/- A multiple of a power of two has no low bits. -/
private theorem testBit_add_pred
    {lo k i : Nat}
    (hAligned : 2 ^ k ∣ lo) :
    (lo + 2 ^ k - 1).testBit i =
      (decide (i < k) || lo.testBit i) := by
  rcases hAligned with ⟨c, rfl⟩
  have hPos : 0 < 2 ^ k := Nat.pow_pos (by omega)
  have hSum : 2 ^ k * c + 2 ^ k - 1 =
      2 ^ k * c + (2 ^ k - 1) := by
    omega
  rw [hSum, Nat.testBit_two_pow_mul_add c (by omega),
    Nat.testBit_two_pow_mul, Nat.testBit_two_pow_sub_one]
  by_cases hik : i < k
  · rw [if_pos hik]
    simp [hik]
  · rw [if_neg hik]
    simp [hik]
    omega

/- `range_left` computes the left end of a range. -/
theorem rangeLeft_eq
    {cfg : Config} {lo level : Nat} {x : TlNode}
    (hCfg : cfg.WellFormed)
    (h : InRange cfg lo level)
    (hLevel : x.level = level)
    (hLabel : x.label = BitVec.ofNat 64
      (lo + 2 ^ (cfg.maxLevel - level) - 1))
    (hRoot : x.parent = none → lo = 0)
    (hChild : x.parent ≠ none → 0 < level) :
    rangeLeft cfg x = BitVec.ofNat 64 lo := by
  have hPow : 0 < 2 ^ (cfg.maxLevel - level) :=
    Nat.pow_pos (by omega)
  have hWord := h.lt_word hCfg
  unfold rangeLeft rangeRight
  cases hParent : x.parent with
  | none =>
      rw [hRoot hParent]
      rfl
  | some q =>
      have hPos := hChild (by simp [hParent])
      dsimp only
      rw [hLevel, hLabel]
      apply BitVec.eq_of_getLsbD_eq
      intro i hi
      rw [BitVec.getLsbD_and, BitVec.getLsbD_ofNat,
        BitVec.getLsbD_ofNat, testBit_add_pred h.aligned]
      by_cases hiB : i < cfg.maxLevel
      · rw [mask_bit hCfg hPos h.level_le hiB]
        by_cases hik : i < cfg.maxLevel - level
        · have hLow : lo.testBit i = false := by
            rcases h.aligned with ⟨c, hc⟩
            rw [hc, Nat.testBit_two_pow_mul]
            simp
            omega
          simp [hLow]
          omega
        · simp [hi, hik]
          omega
      · have hHigh : lo.testBit i = false := by
          apply Nat.testBit_lt_two_pow
          have := h.le
          have : 2 ^ cfg.maxLevel ≤ 2 ^ i :=
            Nat.pow_le_pow_right (by omega) (by omega)
          omega
        have hNot : ¬ i < cfg.maxLevel - level := by
          omega
        simp [hHigh, hNot]

end OrderMaint

end PRacer
