import PRacer.OrderMaint.Correctness

/-
  Room in the tree for the leaves that a relabel adds, and
  the room that the code computes.

  Main declarations:
    * `sizeAfter`, `Fits`
    * `rebalance_returns_iff_fits`
    * `capacity_eq_range_iff`
-/

namespace PRacer

open Foundations

namespace OrderMaint

------------------------------------------------------------
-- Room for New Leaves
------------------------------------------------------------

/- Whether the root is a leaf. -/
def rootIsLeaf (cfg : Config) (m : Mem) (om : Om) : Bool :=
  match m.tls.get om.root with
  | some x => isLeaf cfg x
  | none => false

/- The number of leaves below the root. -/
def rootSize (m : Mem) (om : Om) : Nat :=
  match m.tls.get om.root with
  | some x => x.numLeaves
  | none => 0

/- The number of leaves after the lists of some are split. -/
def sizeAfter
    (cfg : Config) (m : Mem) (om : Om) (heavy : List Nat) :
    Nat :=
  rootSize m om + (heavy.map (extraLeaves cfg m)).sum

/-
  The root is not yet an internal node, or no list is long
  enough to be split, or there are fewer leaves than labels.
-/
def Fits
    (cfg : Config) (m : Mem) (om : Om) (heavy : List Nat) :
    Prop :=
  rootIsLeaf cfg m om = true ∨
    (∀ p ∈ heavy, leafSize m p ≤ cfg.sublistSize) ∨
    sizeAfter cfg m om heavy ≤ cfg.maxLabel.toNat

instance
    (cfg : Config) (m : Mem) (om : Om) (heavy : List Nat) :
    Decidable (Fits cfg m om heavy) :=
  inferInstanceAs (Decidable (_ ∨ _ ∨ _))

/- The root as memory has it, and as the tree has it. -/
theorem Stored.root_eq
    {cfg : Config} {m : Mem} {om : Om} {t : Shape}
    {yss : List (List (Nat × Label))}
    (h : Stored cfg m om t yss) :
    rootIsLeaf cfg m om = !t.isNode ∧
      rootSize m om = t.count := by
  have hRep := h.rep
  rcases hRep.get_ptr with ⟨x, hGet, -, hCount, -⟩
  unfold rootIsLeaf rootSize
  rw [h.root, hGet]
  refine ⟨?_, hCount⟩
  cases t with
  | leaf p l =>
      cases hGet.symm.trans hRep
      simp [isLeaf, Shape.isNode]
  | heavy p parts =>
      rcases hRep.2.1 with ⟨first, -, hGet'⟩
      cases hGet.symm.trans hGet'
      simp [isLeaf, Shape.isNode]
  | node p left right =>
      rcases hRep with ⟨hLt, ⟨below, hGet'⟩, -, -⟩
      cases hGet.symm.trans hGet'
      have hNe : 0 ≠ cfg.maxLevel := by omega
      simp [isLeaf, Shape.isNode, hNe]

/- A list is split into no more lists than it has nodes. -/
theorem numSublists_le
    {cfg : Config}
    (hCfg : cfg.WellFormed) (size : Nat) :
    numSublists cfg size ≤ size := by
  have hPos := hCfg.sublist_pos
  unfold numSublists
  generalize cfg.sublistSize = k at hPos
  cases size with
  | zero =>
      rw [Nat.div_eq_of_lt]
      omega
  | succ n =>
      apply Nat.div_le_of_le_mul
      have hMul : n * 1 ≤ n * k := Nat.mul_le_mul_left n hPos
      rw [Nat.mul_succ, Nat.mul_comm k n]
      omega

/- A leaf becomes a node only if its list is long. -/
theorem extraLeaves_pos_iff
    {cfg : Config} {m : Mem} {p : Nat}
    (hCfg : cfg.WellFormed) :
    0 < extraLeaves cfg m p ↔
      cfg.sublistSize < leafSize m p := by
  rw [← one_lt_numSublists_iff hCfg]
  unfold extraLeaves
  omega

/- The size of the list of a leaf is a number of labels. -/
theorem Stored.leafSize_le
    {cfg : Config} {m : Mem} {om : Om} {t : Shape}
    {yss : List (List (Nat × Label))} {x : Nat × Nat}
    (h : Stored cfg m om t yss)
    (hMarked : t.marked = false)
    (hx : x ∈ t.leaves) :
    leafSize m x.1 ≤ 2 ^ 64 := by
  have hRep := h.rep
  rw [hMarked] at hRep
  rcases hRep.get_leaf hMarked x hx with
    ⟨y, hGet, -, hBelow⟩
  rcases exists_listOf_of_mem h.lists hx with ⟨ys, hOf⟩
  rw [leafSize_eq hGet hBelow hOf.linked]
  exact hOf.linked.length_le_words

/- A leaf that is the root adds leaves for its own list. -/
private theorem extraLeaves_of_root
    {cfg : Config} {s : OmState} {t : Shape}
    {yss : List (List (Nat × Label))} {heavy : List Nat}
    (hCfg : cfg.WellFormed)
    (h : Maintained cfg s t yss)
    (hNodup : heavy.Nodup)
    (hLive : ∀ p ∈ heavy, LiveLeaf cfg s.mem s.om p)
    (hNode : t.isNode = false) :
    t.count + (heavy.map (extraLeaves cfg s.mem)).sum ≤
      2 ^ 64 := by
  have hUnmarked := h.unmarked
  have hLeaves := h.leaves hLive
  cases t with
  | heavy p parts => cases hUnmarked
  | node p left right => cases hNode
  | leaf p l =>
      have hSize := h.stored.leafSize_le rfl
        (x := (p, l)) (List.mem_singleton_self _)
      have hLe := numSublists_le hCfg (leafSize s.mem p)
      dsimp only at hSize
      have hEq : ∀ q ∈ heavy, q = p := by
        intro q hq
        rcases hLeaves q hq with ⟨k, hk⟩
        rw [Shape.leaves, List.mem_singleton] at hk
        exact congrArg Prod.fst hk
      rw [Shape.count_leaf]
      cases heavy with
      | nil => simp
      | cons q rest =>
          rw [List.nodup_cons] at hNodup
          have hq := hEq q (List.mem_cons_self ..)
          have hRest : rest = [] := by
            apply List.eq_nil_iff_forall_not_mem.mpr
            intro r hr
            have hrp := hEq r (List.mem_cons_of_mem _ hr)
            rw [hrp, ← hq] at hr
            exact hNodup.1 hr
          rw [hq, hRest, List.map_singleton,
            List.sum_singleton]
          unfold extraLeaves
          omega

/-
  In every reachable state, the rebalance of a relabel that
  passes the test for overflow returns exactly if the leaves
  fit: an internal node at the root cannot hold as many
  leaves as there are labels.
-/
theorem rebalance_returns_iff_fits
    {cfg : Config} {s : OmState} {heavy : List Nat}
    {m : Mem} {om : Om}
    (hCfg : cfg.WellFormed)
    (hExact : cfg.Exact)
    (hReach : (omSystem cfg).Reachable s)
    (hNodup : heavy.Nodup)
    (hLive : ∀ p ∈ heavy, LiveLeaf cfg s.mem s.om p)
    (hSplit : splitAllHeavy cfg s.mem s.om heavy =
      Except.ok (m, om))
    (hRoom : ¬ Overflow cfg (rootSize s.mem s.om)
      (rootSize m om)) :
    (∃ m', omRebalance cfg m om = Except.ok m') ↔
      Fits cfg s.mem s.om heavy := by
  rcases maintained_of_reachable hCfg hReach with
    ⟨t, yss, h⟩
  have hLeaves := h.leaves hLive
  rw [← Shape.plain_of_unmarked h.unmarked] at hLeaves
  rcases splitAllHeavy_spec hCfg h.stored hLeaves hNodup
    hSplit with ⟨t', yss', hSplits⟩
  have hPos := hCfg.level_pos
  have hMax := hCfg.maxLabel
  have hPow : 0 < 2 ^ cfg.maxLevel := Nat.pow_pos (by omega)
  have hRoot := h.stored.root_eq
  have hSize : sizeAfter cfg s.mem s.om heavy = t'.count := by
    unfold sizeAfter
    rw [hRoot.2, hSplits.count]
  have hNode := hSplits.isNode
  have hMarked : t'.marked = true ↔
      ∃ p ∈ heavy, cfg.sublistSize < leafSize s.mem p := by
    rw [hSplits.marked, h.unmarked, Bool.false_or,
      List.any_eq_true]
    apply exists_congr
    intro p
    apply and_congr_right
    intro _
    rw [decide_eq_true_iff, extraLeaves_pos_iff hCfg]
  constructor
  · rintro ⟨m', hRun⟩
    have hStored := hSplits.stored
    unfold omRebalance at hRun
    rw [hStored.root, ← @Mem.withTls_self m] at hRun
    have hRoomy := roomy_of_rebalance hCfg hExact
      (inRange_root cfg) hStored.rep hStored.nodup (by simp)
      ⟨rfl, rfl⟩ (fun _ => hPos) hRun
    unfold Fits
    rw [hRoot.1, hSize]
    by_cases hInner : t.isNode = true
    · by_cases hMark : t'.marked = true
      · have := (hRoomy hMark).2 rfl (hNode.trans hInner)
        right; right
        omega
      · right; left
        intro p hp
        by_contra hLong
        exact hMark (hMarked.mpr ⟨p, hp, by omega⟩)
    · left
      simp [hInner]
  · intro hFits
    apply (hSplits.stored.rebalance hCfg).total hExact
    intro hMark
    unfold Fits at hFits
    rw [hRoot.1, hSize] at hFits
    rcases hFits with hLeaf | hShort | hFew
    · have hNone : t.isNode = false := by
        simpa using hLeaf
      rw [hNode, hNone]
      refine ⟨?_, fun _ hTrue => by cases hTrue⟩
      have hWords := extraLeaves_of_root hCfg h hNodup hLive
        hNone
      rw [← hSplits.count] at hWords
      rw [hSplits.stored.root_eq.2] at hRoom
      unfold Overflow at hRoom
      rw [Nat.sub_zero]
      by_cases hWide : cfg.maxLevel = 64
      · rw [hWide]
        exact hWords
      · have hLe := hCfg.level_le
        have hWord : 2 ^ cfg.maxLevel < 2 ^ 64 :=
          Nat.pow_lt_pow_right (by omega) (by omega)
        generalize 2 ^ cfg.maxLevel = k at hWord hMax hPow ⊢
        by_contra hMore
        apply hRoom
        right
        constructor
        · bv_omega
        · bv_omega
    · rcases hMarked.mp hMark with ⟨p, hp, hLong⟩
      have := hShort p hp
      omega
    · rw [Nat.sub_zero]
      generalize 2 ^ cfg.maxLevel = k at hMax hPow ⊢
      omega

/- The smallest constants that the header offers. -/
def Config.small : Config where
  maxLabel := 3
  maxLevel := 2
  nodeInterval := 2
  sublistSize := 2
  machine := Machine.exact

theorem Config.small_wellFormed :
    Config.small.WellFormed := by
  constructor <;> simp [Config.small]

/- A list of four nodes is split, and there is room. -/
theorem rebalance_returns_of_two :
    ∃ s m om, (omSystem Config.small).Reachable s ∧
      ((∃ m', omRebalance Config.small m om =
        Except.ok m') ↔
          Fits Config.small s.mem s.om [0]) := by
  have hRun : ∃ s m om,
      omRun Config.small noMemory
          [.insertInitial, .insert 0, .insert 0,
            .insert 1] = Except.ok s ∧
        LiveLeaf Config.small s.mem s.om 0 ∧
        splitAllHeavy Config.small s.mem s.om [0] =
          Except.ok (m, om) ∧
        ¬ Overflow Config.small (rootSize s.mem s.om)
          (rootSize m om) :=
    ⟨_, _, _, rfl, ⟨InTree.root, _, rfl, rfl⟩, rfl,
      by decide⟩
  rcases hRun with ⟨s, m, om, hRun, hLive, hSplit, hRoom⟩
  have hReach :=
    reachable_of_omRun Config.small_wellFormed hRun
  refine ⟨s, m, om, hReach, ?_⟩
  apply rebalance_returns_iff_fits Config.small_wellFormed
    (fun _ => rfl) hReach (List.nodup_singleton 0) _ hSplit
    hRoom
  intro p hp
  rw [List.mem_singleton] at hp
  rw [hp]
  exact hLive

/-
  Two lists of four nodes are split below an internal node,
  so that there are as many leaves as labels: the test for
  overflow passes, and the rebalance fails its assertion.
-/
theorem rebalance_asserts_when_full :
    ∃ s m om, (omSystem Config.small).Reachable s ∧
      (∀ p ∈ [1, 2], LiveLeaf Config.small s.mem s.om p) ∧
      splitAllHeavy Config.small s.mem s.om [1, 2] =
        Except.ok (m, om) ∧
      ¬ Overflow Config.small (rootSize s.mem s.om)
        (rootSize m om) ∧
      omRebalance Config.small m om =
        Except.error Fault.assertion := by
  have hRun : ∃ s m om,
      omRun Config.small noMemory
          [.insertInitial, .insert 0, .insert 0,
            .insert 1, .relabel [0], .insert 0, .insert 2,
            .insert 1, .insert 3] = Except.ok s ∧
        (0 ∈ s.order ∧ omGetTl s.mem 0 = 1) ∧
        (1 ∈ s.order ∧ omGetTl s.mem 1 = 2) ∧
        splitAllHeavy Config.small s.mem s.om [1, 2] =
          Except.ok (m, om) ∧
        ¬ Overflow Config.small (rootSize s.mem s.om)
          (rootSize m om) ∧
        omRebalance Config.small m om =
          Except.error Fault.assertion :=
    ⟨_, _, _, rfl, ⟨by decide, rfl⟩, ⟨by decide, rfl⟩, rfl,
      by decide, rfl⟩
  rcases hRun with
    ⟨s, m, om, hRun, hFirst, hSecond, hSplit, hRoom, hFault⟩
  have hReach :=
    reachable_of_omRun Config.small_wellFormed hRun
  rcases maintained_of_reachable Config.small_wellFormed
    hReach with ⟨t, yss, h⟩
  refine ⟨s, m, om, hReach, ?_, hSplit, hRoom, hFault⟩
  intro p hp
  rw [List.mem_cons, List.mem_singleton] at hp
  rcases hp with rfl | rfl
  · rw [← hFirst.2]
    exact h.liveLeaf hFirst.1
  · rw [← hSecond.2]
    exact h.liveLeaf hSecond.1

------------------------------------------------------------
-- Capacities and Ranges
------------------------------------------------------------

/- The value of an `int` of 32 bits, as a `size_t`. -/
def IntValue (n : Nat) : Prop :=
  n < 2 ^ 31 ∨ (2 ^ 64 - 2 ^ 31 ≤ n ∧ n < 2 ^ 64)

/- A power of two that an `int` cannot hold. -/
theorem not_intValue_two_pow
    {k : Nat}
    (hLow : 31 ≤ k)
    (hHigh : k < 64) :
    ¬ IntValue (2 ^ k) := by
  have hMin : 2 ^ 31 ≤ 2 ^ k :=
    Nat.pow_le_pow_right (by omega) hLow
  have hMax : 2 ^ k ≤ 2 ^ 63 :=
    Nat.pow_le_pow_right (by omega) (by omega)
  unfold IntValue
  generalize 2 ^ k = n at hMin hMax ⊢
  omega

/-
  In every run in the default configuration, the capacity of
  an internal node below the root is the number of labels of
  its range exactly if an `int` can hold that number.
-/
theorem capacity_eq_range_iff
    {machine : Machine} {s : OmState} {p : Nat} {x : TlNode}
    (hInt : ∀ k, 31 ≤ k → IntValue (machine.overshift k))
    (hReach :
      (omSystem (Config.default machine)).Reachable s)
    (hIn : InTree s.mem.tls s.om.root p)
    (hRoot : p ≠ s.om.root)
    (hGet : s.mem.tls.get p = some x)
    (hInner : x.level ≠ (Config.default machine).maxLevel) :
    capacity (Config.default machine) x =
        (rangeRight x).toNat -
          (rangeLeft (Config.default machine) x).toNat + 1 ↔
      height (Config.default machine) x < 31 := by
  have hCfg := Config.default_wellFormed machine
  rcases maintained_of_reachable hCfg hReach with
    ⟨t, yss, h⟩
  have hRep := h.stored.rep
  rw [h.unmarked] at hRep
  rcases hRep.subtree h.unmarked h.stored.root hIn with
    ⟨parent, lo, level, u, hSub, rfl⟩
  have hParent : parent ≠ none := by
    intro hNone
    apply hRoot
    rw [(hSub.atRoot hNone).2, h.stored.root]
  have hPos := hSub.belowRoot hParent
  cases u with
  | leaf q l =>
      cases hGet.symm.trans hSub.rep
      exact absurd rfl hInner
  | heavy q parts => cases hSub.unmarked
  | node q a b =>
      rcases hSub.rep with ⟨hLt, ⟨below, hGet'⟩, -, -⟩
      have hx := Option.some.inj (hGet.symm.trans hGet')
      have hLevel : x.level = level := by rw [hx]
      have hLabel : x.label = BitVec.ofNat 64
          (lo + 2 ^ ((Config.default machine).maxLevel -
            level) - 1) := by rw [hx]
      have hUp : x.parent = parent := by rw [hx]
      have hWord := hSub.range.lt_word hCfg
      have hPow : 0 <
          2 ^ ((Config.default machine).maxLevel - level) :=
        Nat.pow_pos (by omega)
      rw [rangeLeft_eq hCfg hSub.range hLevel hLabel
        (fun hNone => absurd (hUp.symm.trans hNone) hParent)
        (fun _ => hPos)]
      unfold rangeRight capacity height shiftOne
      rw [hLabel, hLevel, toNat_label (by omega),
        toNat_label (by omega), if_neg (by omega)]
      have hMax : (Config.default machine).maxLevel = 64 :=
        rfl
      have hOver : (Config.default machine).machine =
        machine := rfl
      rw [hMax] at hLt hPow ⊢
      rw [hOver]
      by_cases hSmall : 64 - level < 31
      · rw [if_pos hSmall]
        omega
      · rw [if_neg hSmall]
        have hShift := hInt (64 - level) (by omega)
        have hNot := not_intValue_two_pow
          (k := 64 - level) (by omega) (by omega)
        constructor
        · intro hEq
          rw [show lo + 2 ^ (64 - level) - 1 - lo + 1 =
            2 ^ (64 - level) by omega] at hEq
          rw [hEq] at hShift
          exact absurd hShift hNot
        · intro h
          exact absurd h hSmall

/-
  A machine that masks the count of a shift.  The bit of the
  sign makes the result negative.
-/
def Machine.masked : Machine :=
  { Machine.exact with
    overshift := fun k =>
      if k % 32 = 31 then 2 ^ 64 - 2 ^ 31 else 2 ^ (k % 32) }

theorem Machine.masked_intValue (k : Nat) :
    IntValue (Machine.masked.overshift k) := by
  have hMod : k % 32 < 32 := Nat.mod_lt _ (by omega)
  unfold IntValue
  dsimp only [Machine.masked]
  split
  · right
    omega
  · left
    apply Nat.pow_lt_pow_right
    · omega
    · omega

/- The internal node above two of the three leaves. -/
private theorem threeLeaves_run :
    ∃ s x,
      (omSystem (Config.default Machine.masked)).Reachable
          s ∧
        InTree s.mem.tls s.om.root 4 ∧ 4 ≠ s.om.root ∧
        s.mem.tls.get 4 = some x ∧ x.level = 1 ∧
        capacity (Config.default Machine.masked) x ≠
          (rangeRight x).toNat -
            (rangeLeft (Config.default Machine.masked)
              x).toNat + 1 := by
  have hTest : (omRun (Config.default Machine.masked)
      noMemory threeLeaves).toOption.any (fun s =>
        s.om.root = 0 ∧
        ((s.mem.tls.get 0).any fun y => y.left = some 4) ∧
        (s.mem.tls.get 4).any fun x =>
          x.level = 1 ∧
          capacity (Config.default Machine.masked) x ≠
            (rangeRight x).toNat -
              (rangeLeft (Config.default Machine.masked)
                x).toNat + 1) = true := by
    decide +kernel
  rcases exists_of_test hTest with ⟨s, hRun, hState⟩
  rw [decide_eq_true_iff] at hState
  rcases hState with ⟨hRoot, hLeft, hNode⟩
  rw [Option.any_eq_true] at hLeft hNode
  rcases hLeft with ⟨y, hGetY, hLeft⟩
  rcases hNode with ⟨x, hGetX, hNode⟩
  rw [decide_eq_true_iff] at hLeft hNode
  have hReach := reachable_of_omRun
    (Config.default_wellFormed Machine.masked) hRun
  have hIn : InTree s.mem.tls s.om.root 4 := by
    rw [hRoot]
    exact InTree.root.left hGetY hLeft
  refine ⟨s, x, hReach, hIn, ?_, hGetX, hNode.1, hNode.2⟩
  rw [hRoot]
  decide

/-
  At level 1, the capacity is the `int` 1 shifted by 63, and
  not the number of labels.
-/
theorem capacity_ne_range :
    ∃ s p x,
      (omSystem (Config.default Machine.masked)).Reachable
          s ∧
        InTree s.mem.tls s.om.root p ∧ p ≠ s.om.root ∧
        s.mem.tls.get p = some x ∧
        x.level ≠ (Config.default Machine.masked).maxLevel ∧
        capacity (Config.default Machine.masked) x ≠
          (rangeRight x).toNat -
            (rangeLeft (Config.default Machine.masked)
              x).toNat + 1 := by
  rcases threeLeaves_run with
    ⟨s, x, hReach, hIn, hRoot, hGet, hLevel, hNe⟩
  refine ⟨s, 4, x, hReach, hIn, hRoot, hGet, ?_, hNe⟩
  rw [hLevel]
  decide

/- The node of level 1. -/
theorem capacity_eq_range_iff_level_one :
    ∃ s x,
      (omSystem (Config.default Machine.masked)).Reachable
          s ∧
        s.mem.tls.get 4 = some x ∧
        (capacity (Config.default Machine.masked) x =
            (rangeRight x).toNat -
              (rangeLeft (Config.default Machine.masked)
                x).toNat + 1 ↔
          height (Config.default Machine.masked) x < 31) := by
  rcases threeLeaves_run with
    ⟨s, x, hReach, hIn, hRoot, hGet, hLevel, -⟩
  refine ⟨s, x, hReach, hGet, ?_⟩
  apply capacity_eq_range_iff
    (fun k _ => Machine.masked_intValue k) hReach hIn hRoot
    hGet
  rw [hLevel]
  decide

end OrderMaint

end PRacer
