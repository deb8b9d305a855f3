import PRacer.OrderMaint.System

/-
  What holds after every call of the order-maintenance
  structure.

  Main declarations:
    * `omRun`, `reachable_of_omRun`
    * `omPrecedes_of_reachable`
    * `split_of_list`
    * `trie_of_relabel`
-/

namespace PRacer

open Foundations

namespace OrderMaint

------------------------------------------------------------
-- Computed Runs
------------------------------------------------------------

/- One call; a relabel is given leaves above nodes. -/
def omCall (cfg : Config) (s : OmState) :
    OmAction → Run OmState
| .insertInitial => do
    check (s.order = [])
    let (m, n) ← omInsertInitial s.mem s.om
    return { s with mem := m, order := [n] }
| .insert base => do
    check (base ∈ s.order)
    let (m, r) ← omInsert cfg s.mem base
    return { s with mem := m
                    order := orderAfter base s.order r }
| .relabel heavy => do
    check heavy.Nodup
    check (∀ p ∈ heavy, p ∈ s.order.map (omGetTl s.mem))
    let (m, om) ← omRelabel cfg s.mem s.om heavy
    return { s with mem := m, om := om }

/- Several calls. -/
def omCalls (cfg : Config) :
    OmState → List OmAction → Run OmState
| s, [] => return s
| s, a :: rest => do
    let s ← omCall cfg s a
    omCalls cfg s rest

/- A new structure, and then several calls. -/
def omRun (cfg : Config) (m : Mem) (calls : List OmAction) :
    Run OmState := do
  let (m, om) ← omNew cfg m
  omCalls cfg { mem := m, om := om, order := [] } calls

theorem Maintained.step_of_omCall
    {cfg : Config} {s s' : OmState} {t : Shape}
    {yss : List (List (Nat × Label))} {a : OmAction}
    (h : Maintained cfg s t yss)
    (hRun : omCall cfg s a = Except.ok s') :
    omStep cfg s a s' := by
  cases a with
  | insertInitial =>
      rcases bind_eq_ok hRun with ⟨u, hCheck, hRun⟩
      rcases bind_eq_ok hRun with ⟨⟨m, n⟩, hInsert, hRun⟩
      cases hRun
      exact ⟨of_check hCheck, rfl, n, hInsert, rfl⟩
  | insert base =>
      rcases bind_eq_ok hRun with ⟨u, hCheck, hRun⟩
      rcases bind_eq_ok hRun with ⟨⟨m, r⟩, hInsert, hRun⟩
      cases hRun
      exact ⟨of_check hCheck, rfl, r, hInsert, rfl⟩
  | relabel heavy =>
      rcases bind_eq_ok hRun with ⟨u, hNodup, hRun⟩
      rcases bind_eq_ok hRun with ⟨v, hLive, hRun⟩
      rcases bind_eq_ok hRun with ⟨⟨m, om⟩, hRelabel, hRun⟩
      cases hRun
      refine ⟨of_check hNodup, ?_, hRelabel, rfl⟩
      intro p hp
      have hMem := of_check hLive p hp
      rw [List.mem_map] at hMem
      rcases hMem with ⟨n, hn, rfl⟩
      exact h.liveLeaf hn

/- Computed runs are runs. -/
theorem reachable_of_omRun
    {cfg : Config} {m : Mem} {s : OmState}
    {calls : List OmAction}
    (hCfg : cfg.WellFormed)
    (hRun : omRun cfg m calls = Except.ok s) :
    (omSystem cfg).Reachable s := by
  have hCalls : ∀ s₀, (omSystem cfg).Reachable s₀ →
      omCalls cfg s₀ calls = Except.ok s →
        (omSystem cfg).Reachable s := by
    clear hRun
    induction calls with
    | nil =>
        intro s₀ hReach hOk
        cases hOk
        exact hReach
    | cons a calls ih =>
        intro s₀ hReach hOk
        rcases bind_eq_ok hOk with ⟨s₁, hCall, hOk⟩
        rcases maintained_of_reachable hCfg hReach with
          ⟨t, yss, h⟩
        exact ih s₁ (hReach.step (h.step_of_omCall hCall))
          hOk
  rcases bind_eq_ok hRun with ⟨⟨m₀, om⟩, hNew, hRun⟩
  exact hCalls _ (TransitionSystem.Reachable.of_init
    ⟨rfl, m, hNew⟩) hRun

/-
  Insertions after all nodes in turn make the number of
  nodes two, four, and so on, up to 128, and one more.
-/
def manyInsertions : List OmAction :=
  .insertInitial ::
    ((List.range 7).flatMap fun k =>
      (List.range (2 ^ k)).map OmAction.insert) ++
    [.insert 0]

------------------------------------------------------------
-- Answers to Queries
------------------------------------------------------------

/-
  In every run in the default configuration, a query is
  answered from the list of the nodes in order: a failed
  insertion and a relabel leave that list as it is, and any
  other insertion puts the new node right after its base.
-/
theorem omPrecedes_of_reachable
    {machine : Machine} {s : OmState} {x y : Nat}
    (hReach :
      (omSystem (Config.default machine)).Reachable s)
    (hx : x ∈ s.order)
    (hy : y ∈ s.order) :
    omPrecedes s.mem (some x) (some y) =
      Except.ok (decide (Precedes s.order x y)) := by
  have hCfg := Config.default_wellFormed machine
  rcases maintained_of_reachable hCfg hReach with
    ⟨t, yss, h⟩
  exact h.omPrecedes_eq hCfg hx hy

/-
  The first node gets successors until there is no label left
  for one, and again one after its list of 65 nodes is split.
-/
def fullThenSplit : List OmAction :=
  .insertInitial :: List.replicate 65 (.insert 0) ++
    [.relabel [0], .insert 0]

/- One insertion of that run fails: 66 nodes are in order. -/
theorem omPrecedes_of_reachable_fullThenSplit :
    ∃ s, omRun (Config.default Machine.exact) noMemory
        fullThenSplit = Except.ok s ∧
      (omSystem (Config.default Machine.exact)).Reachable
        s ∧
      s.order.length = 66 ∧
      omPrecedes s.mem (some 65) (some 1) =
        Except.ok (decide (Precedes s.order 65 1)) ∧
      Precedes s.order 65 1 := by
  have hTest : (omRun (Config.default Machine.exact)
      noMemory fullThenSplit).toOption.any (fun s =>
        s.order.length = 66 ∧ 65 ∈ s.order ∧ 1 ∈ s.order ∧
          Precedes s.order 65 1) = true := by
    decide +kernel
  rcases exists_of_test hTest with ⟨s, hRun, hState⟩
  rw [decide_eq_true_iff] at hState
  rcases hState with ⟨hLength, hx, hy, hBefore⟩
  have hReach := reachable_of_omRun
    (Config.default_wellFormed Machine.exact) hRun
  exact ⟨s, hRun, hReach, hLength,
    omPrecedes_of_reachable hReach hx hy, hBefore⟩

------------------------------------------------------------
-- Splits of Lists
------------------------------------------------------------

/-
  A split of a list with nodes loses and reorders nothing.
  If there is a single new list, the relabel puts it below
  the leaf and changes nothing else in the tree.
-/
theorem split_of_list
    {cfg : Config} {m : Mem} {list above : Nat} {l : BList}
    {a : TlNode} {xs : List (Nat × Label)}
    (hCfg : cfg.WellFormed)
    (hLinked : Linked m list xs)
    (hNonempty : xs ≠ [])
    (hList : m.lists.get list = some l)
    (hAbove : l.above = some above)
    (hGet : m.tls.get above = some a)
    (hBelow : a.below = .list list) :
    (∃ m' parts chunks,
      split cfg m list = Except.ok (m',
          (xs.length + cfg.sublistSize - 1) /
            cfg.sublistSize) ∧
        parts.length =
          (xs.length + cfg.sublistSize - 1) /
            cfg.sublistSize ∧
        SplitList cfg m m' list above a (xs.map Prod.fst)
          parts chunks) ∧
      (∀ i < cfg.sublistSize, (labelAt cfg i).toNat =
        i * cfg.nodeInterval.toNat) ∧
      ∀ om t yss, Stored cfg m om t yss →
        (above, list) ∈ t.plain →
        xs.length ≤ cfg.sublistSize →
        ∃ m' k,
          splitHeavy cfg m om above = Except.ok (m', om) ∧
          m'.tls.get above =
            some { a with below := .list k } ∧
          (∀ q ∈ t.addrs, q ≠ above →
            m'.tls.get q = m.tls.get q) ∧
          (∃ r, m'.lists.get k = some r ∧
            r.above = some above ∧ r.heavy = false) ∧
          Linked m' k
            (spaced cfg 0 (xs.map Prod.fst)) := by
  refine ⟨?_, fun i hi => toNat_labelAt hCfg hi, ?_⟩
  · rcases split_spec hCfg hLinked hNonempty hList hAbove
      hGet hBelow with ⟨m', parts, chunks, hRun, hSplit⟩
    have hCount := hSplit.count
    unfold numSublists at hCount
    rw [List.length_map] at hCount
    rw [hCount] at hRun
    exact ⟨m', parts, chunks, hRun, hCount, hSplit⟩
  · intro om t yss hStored hPlain hShort
    exact splitHeavy_short hCfg hStored hPlain hLinked
      hNonempty hGet hShort

/- What is below a live leaf. -/
theorem Maintained.below
    {cfg : Config} {s : OmState} {t : Shape}
    {yss : List (List (Nat × Label))} {p : Nat}
    (h : Maintained cfg s t yss)
    (hLive : LiveLeaf cfg s.mem s.om p) :
    ∃ a l k xs, s.mem.tls.get p = some a ∧
      a.below = .list k ∧ s.mem.lists.get k = some l ∧
      l.above = some p ∧ Linked s.mem k xs ∧
      xs.length = leafSize s.mem p ∧ (p, k) ∈ t.plain := by
  rcases h.stored.mem_leaves h.unmarked hLive with ⟨k, hk⟩
  have hRep := h.stored.rep
  rw [h.unmarked] at hRep
  rcases hRep.get_leaf h.unmarked _ hk with
    ⟨a, hGet, -, hBelow⟩
  rcases exists_listOf_of_mem h.stored.lists hk with
    ⟨xs, ⟨l, hList, hAbove⟩, hLinked⟩
  rw [← Shape.plain_of_unmarked h.unmarked] at hk
  exact ⟨a, l, k, xs, hGet, hBelow, hList, hAbove, hLinked,
    (leafSize_eq hGet hBelow hLinked).symm, hk⟩

/-
  A list of 129 nodes is cut into three, and one of three
  nodes is put back below its leaf.
-/
theorem split_of_list_long_short :
    (∃ s a k, ∃ xs : List (Nat × Label), ∃ m' parts chunks,
      (omSystem (Config.default Machine.exact)).Reachable
          s ∧
        s.mem.tls.get 0 = some a ∧ a.below = .list k ∧
        Linked s.mem k xs ∧ xs.length = 129 ∧
        split (Config.default Machine.exact) s.mem k =
          Except.ok (m', 3) ∧
        parts.length = 3 ∧
        SplitList (Config.default Machine.exact) s.mem m' k
          0 a (xs.map Prod.fst) parts chunks) ∧
      ∃ s a, ∃ xs : List (Nat × Label), ∃ m' k,
        (omSystem (Config.default Machine.exact)).Reachable
          s ∧
        s.mem.tls.get 0 = some a ∧ xs.length = 3 ∧
        splitHeavy (Config.default Machine.exact) s.mem s.om
          0 = Except.ok (m', s.om) ∧
        m'.tls.get 0 = some { a with below := .list k } ∧
        Linked m' k
          (spaced (Config.default Machine.exact) 0
            (xs.map Prod.fst)) := by
  have hCfg := Config.default_wellFormed Machine.exact
  constructor
  · have hTest : (omRun (Config.default Machine.exact)
        noMemory manyInsertions).toOption.any (fun s =>
          0 ∈ s.order ∧ omGetTl s.mem 0 = 0 ∧
            leafSize s.mem 0 = 129) = true := by
      decide +kernel
    rcases exists_of_test hTest with ⟨s, hRun, hState⟩
    rw [decide_eq_true_iff] at hState
    rcases hState with ⟨hMem, hLeaf, hSize⟩
    have hReach := reachable_of_omRun hCfg hRun
    rcases maintained_of_reachable hCfg hReach with
      ⟨t, yss, h⟩
    have hLive := h.liveLeaf hMem
    rw [hLeaf] at hLive
    rcases h.below hLive with ⟨a, l, k, xs, hGet, hBelow,
      hList, hAbove, hLinked, hLength, -⟩
    rw [hSize] at hLength
    have hNonempty : xs ≠ [] := by
      rintro rfl
      cases hLength
    rcases (split_of_list hCfg hLinked hNonempty hList hAbove
      hGet hBelow).1 with
      ⟨m', parts, chunks, hSplit, hParts, hSplitList⟩
    rw [hLength] at hSplit hParts
    exact ⟨s, a, k, xs, m', parts, chunks, hReach, hGet,
      hBelow, hLinked, hLength, hSplit, hParts, hSplitList⟩
  · have hTest : (omRun (Config.default Machine.exact)
        noMemory [.insertInitial, .insert 0,
          .insert 1]).toOption.any (fun s =>
            0 ∈ s.order ∧ omGetTl s.mem 0 = 0 ∧
              leafSize s.mem 0 = 3) = true := by
      decide +kernel
    rcases exists_of_test hTest with ⟨s, hRun, hState⟩
    rw [decide_eq_true_iff] at hState
    rcases hState with ⟨hMem, hLeaf, hSize⟩
    have hReach := reachable_of_omRun hCfg hRun
    rcases maintained_of_reachable hCfg hReach with
      ⟨t, yss, h⟩
    have hLive := h.liveLeaf hMem
    rw [hLeaf] at hLive
    rcases h.below hLive with ⟨a, l, k, xs, hGet, hBelow,
      hList, hAbove, hLinked, hLength, hPlain⟩
    rw [hSize] at hLength
    have hNonempty : xs ≠ [] := by
      rintro rfl
      cases hLength
    have hShort : xs.length ≤
        (Config.default Machine.exact).sublistSize := by
      rw [hLength]
      decide
    rcases (split_of_list hCfg hLinked hNonempty hList hAbove
      hGet hBelow).2.2 s.om t yss h.stored hPlain hShort with
      ⟨m', k', hSplit, hLeaf', -, -, hLinked'⟩
    exact ⟨s, a, xs, m', k', hReach, hGet, hLength, hSplit,
      hLeaf', hLinked'⟩

------------------------------------------------------------
-- The Tree after a Relabel
------------------------------------------------------------

/-
  In every run in the default configuration, a relabel of
  distinct leaves that returns leaves a trie whose leaves
  have growing labels.
-/
theorem trie_of_relabel
    {machine : Machine} {s : OmState} {heavy : List Nat}
    {m : Mem} {om : Om}
    (hReach :
      (omSystem (Config.default machine)).Reachable s)
    (hNodup : heavy.Nodup)
    (hLive : ∀ p ∈ heavy,
      LiveLeaf (Config.default machine) s.mem s.om p)
    (hRun : omRelabel (Config.default machine) s.mem s.om
      heavy = Except.ok (m, om)) :
    ∃ t, om.root = t.ptr ∧
      Trie (Config.default machine) m none 0 0 t ∧
      t.leaves.Pairwise fun x y =>
        leafLabel m x.1 < leafLabel m y.1 := by
  have hCfg := Config.default_wellFormed machine
  rcases maintained_of_reachable hCfg hReach with
    ⟨t, yss, h⟩
  rcases omRelabel_spec hCfg h.stored h.unmarked
    (h.leaves hLive) hNodup hRun with ⟨t', yss', hRelabel⟩
  have hStored := hRelabel.stored
  have hRep := hStored.rep
  rw [hRelabel.unmarked] at hRep
  refine ⟨t', hStored.root, ?_,
    hStored.leafLabels hCfg hRelabel.unmarked⟩
  apply hRep.trie hCfg (inRange_root _) (fun _ => rfl)
    (fun hNone => absurd rfl hNone) hRelabel.unmarked
  exact hStored.lists_above

/- The list of 129 nodes is split into three. -/
def threeLeaves : List OmAction :=
  manyInsertions ++ [.relabel [0]]

/-
  Two of the three leaves get a list that is too long, as a
  list that was split has as many nodes as it may have.
-/
def twoTooLong : List OmAction :=
  threeLeaves ++ [.insert 0, .insert 1]

/- Their lists are split, so that there are five leaves. -/
theorem trie_of_relabel_twoTooLong :
    ∃ s m om root,
      (omSystem (Config.default Machine.exact)).Reachable
          s ∧
        (∀ p ∈ [1, 2],
          LiveLeaf (Config.default Machine.exact) s.mem s.om
            p) ∧
        omRelabel (Config.default Machine.exact) s.mem s.om
          [1, 2] = Except.ok (m, om) ∧
        m.tls.get om.root = some root ∧
        root.level = 0 ∧ root.numLeaves = 5 ∧
        ∃ t, om.root = t.ptr ∧
          Trie (Config.default Machine.exact) m none 0 0 t ∧
          t.leaves.Pairwise fun x y =>
            leafLabel m x.1 < leafLabel m y.1 := by
  have hTest : (omRun (Config.default Machine.exact)
      noMemory twoTooLong).toOption.any (fun s =>
        (0 ∈ s.order ∧ omGetTl s.mem 0 = 1) ∧
        (1 ∈ s.order ∧ omGetTl s.mem 1 = 2) ∧
        (omRelabel (Config.default Machine.exact) s.mem s.om
          [1, 2]).toOption.any fun r =>
            (r.1.tls.get r.2.root).any fun root =>
              root.level = 0 ∧ root.numLeaves = 5) =
                true := by
    decide +kernel
  rcases exists_of_test hTest with ⟨s, hRun, hState⟩
  rw [decide_eq_true_iff] at hState
  rcases hState with ⟨hFirst, hSecond, hAfter⟩
  rcases exists_of_test hAfter with ⟨⟨m, om⟩, hRelabel, hRoot⟩
  rw [Option.any_eq_true] at hRoot
  rcases hRoot with ⟨root, hGet, hRoot⟩
  rw [decide_eq_true_iff] at hRoot
  have hCfg := Config.default_wellFormed Machine.exact
  have hReach := reachable_of_omRun hCfg hRun
  rcases maintained_of_reachable hCfg hReach with ⟨t, yss, h⟩
  have hLive : ∀ p ∈ [1, 2],
      LiveLeaf (Config.default Machine.exact) s.mem s.om
        p := by
    intro p hp
    rw [List.mem_cons, List.mem_singleton] at hp
    rcases hp with rfl | rfl
    · rw [← hFirst.2]
      exact h.liveLeaf hFirst.1
    · rw [← hSecond.2]
      exact h.liveLeaf hSecond.1
  exact ⟨s, m, om, root, hReach, hLive, hRelabel, hGet,
    hRoot.1, hRoot.2,
    trie_of_relabel hReach (by decide) hLive hRelabel⟩

end OrderMaint

end PRacer
