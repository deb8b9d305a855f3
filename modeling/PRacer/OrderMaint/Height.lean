import PRacer.OrderMaint.Capacity
import PRacer.OrderMaint.SerialOrder

/-
  The recorded height and the depth of the tree.

  Main declarations:
    * `Config.default_logsBound`
    * `AtDepth`, `Rep.atDepth`
    * `ParRelabel`, `parSystem`, `reachable_of_parSystem`
    * `parRun`, `reachable_of_parRun`
    * `height_bounds_trie`
-/

namespace PRacer

open Foundations

namespace OrderMaint

------------------------------------------------------------
-- Logarithms
------------------------------------------------------------

/- The logarithm that is computed is not too small. -/
theorem Config.default_logsBound
    {machine : Machine}
    (hInt : ∀ k, 31 ≤ k → IntValue (machine.overshift k)) :
    (Config.default machine).LogsBound := by
  intro k hk
  have hFew : numSublists (Config.default machine) (2 ^ 64) =
      2 ^ 58 := by
    change (2 ^ 64 + 64 - 1) / 64 = 2 ^ 58
    omega
  have hLog : k < 2 ^ (Nat.log2 k + 1) := Nat.lt_log2_self
  rw [hFew] at hk
  unfold fastLog2Ceil
  split
  · rename_i hExact
    unfold shiftOne at hExact
    split at hExact
    · exact hExact.le
    · rename_i hLarge
      have hShift := hInt (Nat.log2 k) (by omega)
      have hMin : 2 ^ 31 ≤ 2 ^ Nat.log2 k :=
        Nat.pow_le_pow_right (by omega) (by omega)
      have hLe : 2 ^ Nat.log2 k ≤ k := by
        apply Nat.log2_self_le
        rintro rfl
        exact hLarge (by decide)
      change IntValue ((Config.default
        machine).machine.overshift _) at hShift
      rw [← hExact] at hShift
      unfold IntValue at hShift
      omega
  · exact hLog.le

------------------------------------------------------------
-- Depths
------------------------------------------------------------

/- The nodes that many links below the root. -/
inductive AtDepth (tls : Heap TlNode) (root : Nat) :
    Nat → Nat → Prop
| root : AtDepth tls root root 0
| left {p q d : Nat} {x : TlNode} :
    AtDepth tls root p d → tls.get p = some x →
      x.left = some q → AtDepth tls root q (d + 1)
| right {p q d : Nat} {x : TlNode} :
    AtDepth tls root p d → tls.get p = some x →
      x.right = some q → AtDepth tls root q (d + 1)

/- A tree of few levels is not deep. -/
theorem Shape.Within.depth_le
    {k : Nat} {t : Shape}
    (h : t.Within k) :
    t.depth ≤ k := by
  induction t generalizing k with
  | leaf p l => exact Nat.zero_le _
  | heavy p parts => exact Nat.zero_le _
  | node p left right ihLeft ihRight =>
      cases k with
      | zero => cases h
      | succ k =>
          have := ihLeft h.1
          have := ihRight h.2
          unfold Shape.depth
          omega

/- A node at a depth is the root of a subtree. -/
theorem Rep.atDepth
    {cfg : Config} {tls : Heap TlNode} {root p d : Nat}
    {t : Shape}
    (hRep : Rep cfg tls none 0 0 t.marked t)
    (hRoot : root = t.ptr)
    (hAt : AtDepth tls root p d) :
    ∃ parent lo u, Rep cfg tls parent lo d u.marked u ∧
      u.ptr = p ∧ d + u.depth ≤ t.depth := by
  induction hAt with
  | root =>
      refine ⟨none, 0, t, hRep, hRoot.symm, ?_⟩
      omega
  | @left p q d x hAt hGet hLeft ih =>
      rcases ih with ⟨parent, lo, u, hSub, rfl, hDepth⟩
      cases u with
      | leaf r l =>
          cases hGet.symm.trans hSub
          cases hLeft
      | heavy r parts =>
          rcases hSub with ⟨-, ⟨first, -, hGetU⟩, -⟩
          cases hGet.symm.trans hGetU
          cases hLeft
      | node r a b =>
          rcases hSub with ⟨-, ⟨below, hGetU⟩, hRepA, -⟩
          cases hGet.symm.trans hGetU
          cases hLeft
          refine ⟨_, _, a, hRepA, rfl, ?_⟩
          rw [Shape.depth] at hDepth
          omega
  | @right p q d x hAt hGet hRight ih =>
      rcases ih with ⟨parent, lo, u, hSub, rfl, hDepth⟩
      cases u with
      | leaf r l =>
          cases hGet.symm.trans hSub
          cases hRight
      | heavy r parts =>
          rcases hSub with ⟨-, ⟨first, -, hGetU⟩, -⟩
          cases hGet.symm.trans hGetU
          cases hRight
      | node r a b =>
          rcases hSub with ⟨-, ⟨below, hGetU⟩, -, hRepB⟩
          cases hGet.symm.trans hGetU
          cases hRight
          refine ⟨_, _, b, hRepB, rfl, ?_⟩
          rw [Shape.depth] at hDepth
          omega

/-
  No node is deeper than the recorded height, and the
  threshold of an internal node is not above one.
-/
structure Bounded (cfg : Config) (m : Mem) (om : Om) :
    Prop where
  depth : ∀ p d, AtDepth m.tls om.root p d → d ≤ om.height
  threshold : ∀ p d x, AtDepth m.tls om.root p d →
    m.tls.get p = some x → x.level ≠ cfg.maxLevel →
      OrderMaint.threshold cfg x om.height ≤ 1

theorem Stored.bounded
    {cfg : Config} {m : Mem} {om : Om} {t : Shape}
    {yss : List (List (Nat × Label))}
    (h : Stored cfg m om t yss)
    (hDepth : t.depth ≤ om.height) :
    Bounded cfg m om := by
  constructor
  · intro p d hAt
    rcases h.rep.atDepth h.root hAt with
      ⟨parent, lo, u, -, -, hLe⟩
    omega
  · intro p d x hAt hGet hInner
    rcases h.rep.atDepth h.root hAt with
      ⟨parent, lo, u, hSub, rfl, hLe⟩
    cases u with
    | leaf r l =>
        cases hGet.symm.trans hSub
        exact absurd rfl hInner
    | heavy r parts =>
        rcases hSub with ⟨-, ⟨first, -, hGetU⟩, -⟩
        cases hGet.symm.trans hGetU
        exact absurd rfl hInner
    | node r a b =>
        rcases hSub with ⟨-, ⟨below, hGetU⟩, -, -⟩
        cases hGet.symm.trans hGetU
        rw [Shape.depth] at hLe
        apply threshold_le_one
        · omega
        · dsimp only
          omega

------------------------------------------------------------
-- Parallel Relabels
------------------------------------------------------------

/- A relabel whose loop runs in parallel, if it returns. -/
def ParRelabel (cfg : Config) (m : Mem) (self : Om)
    (heavy : List Nat) (m' : Mem) (self' : Om) : Prop :=
  ∃ s root newRoot,
    Mem.load m.tls self.root = Except.ok root ∧
    (loopSystem cfg m self heavy).Reachable s ∧
    s.Complete ∧
    Mem.load s.mem.tls s.om.root = Except.ok newRoot ∧
    ¬ Overflow cfg root.numLeaves newRoot.numLeaves ∧
    omRebalance cfg s.mem s.om = Except.ok m' ∧
    self' = s.om

/- One call; the relabels run in parallel. -/
def parStep (cfg : Config) (s : OmState) :
    OmAction → OmState → Prop
| .relabel heavy, s' =>
    heavy.Nodup ∧
      (∀ p ∈ heavy, LiveLeaf cfg s.mem s.om p) ∧
      ParRelabel cfg s.mem s.om heavy s'.mem s'.om ∧
      s'.order = s.order
| a, s' => omStep cfg s a s'

/- A structure with parallel relabels. -/
def parSystem (cfg : Config) :
    TransitionSystem OmState OmAction where
  init := (omSystem cfg).init
  step := parStep cfg

/- A parallel relabel is a serial one in some order. -/
theorem ParRelabel.serial
    {cfg : Config} {m m' : Mem} {om om' : Om}
    {heavy : List Nat} {t : Shape}
    {yss : List (List (Nat × Label))}
    (h : ParRelabel cfg m om heavy m' om')
    (hCfg : cfg.WellFormed)
    (hStored : Stored cfg m om t yss)
    (hPlain : ∀ p ∈ heavy, ∃ l, (p, l) ∈ t.plain)
    (hNodup : heavy.Nodup) :
    ∃ order, order.Perm heavy ∧
      omRelabel cfg m om order = Except.ok (m', om') := by
  rcases h with ⟨s, root, newRoot, hRoot, hReach, hDone,
    hNewRoot, hFits, hRebalance, rfl⟩
  rcases serial_of_complete hCfg hStored hPlain hNodup hReach
    hDone with ⟨order, hPerm, hSerial⟩
  refine ⟨order, hPerm, ?_⟩
  unfold omRelabel
  rw [hRoot, ok_bind, hSerial, ok_bind]
  dsimp only
  rw [hNewRoot, ok_bind, if_neg hFits, hRebalance, ok_bind]
  rfl

/- The leaves that a relabel is given were not split. -/
theorem Maintained.plain
    {cfg : Config} {s : OmState} {t : Shape}
    {yss : List (List (Nat × Label))} {heavy : List Nat}
    (h : Maintained cfg s t yss)
    (hLive : ∀ p ∈ heavy, LiveLeaf cfg s.mem s.om p) :
    ∀ p ∈ heavy, ∃ l, (p, l) ∈ t.plain := by
  rw [Shape.plain_of_unmarked h.unmarked]
  exact h.leaves hLive

/- Parallel relabels lead to no other states. -/
theorem reachable_of_parSystem
    {cfg : Config} {s : OmState}
    (hCfg : cfg.WellFormed)
    (hReach : (parSystem cfg).Reachable s) :
    (omSystem cfg).Reachable s := by
  apply hReach.invariant
    (P := fun s => (omSystem cfg).Reachable s)
  · intro s hInit
    exact TransitionSystem.Reachable.of_init hInit
  · intro s a s' hSerial hStep
    cases a with
    | insertInitial =>
        exact hSerial.step (a := OmAction.insertInitial) hStep
    | insert base =>
        exact hSerial.step (a := OmAction.insert base) hStep
    | relabel heavy =>
        rcases hStep with ⟨hNodup, hLive, hRelabel, hOrder⟩
        rcases maintained_of_reachable hCfg hSerial with
          ⟨t, yss, h⟩
        rcases hRelabel.serial hCfg h.stored (h.plain hLive)
          hNodup with ⟨order, hPerm, hRun⟩
        apply hSerial.step (a := OmAction.relabel order)
        refine ⟨hPerm.nodup_iff.mpr hNodup, ?_, hRun, hOrder⟩
        intro p hp
        exact hLive p (hPerm.mem_iff.mp hp)

------------------------------------------------------------
-- Computed Runs
------------------------------------------------------------

/- Iterations that take turns. -/
def loopCalls (cfg : Config) :
    LoopState → List Nat → Run LoopState
| s, [] => return s
| s, i :: turns => do
    let b := (s.bodies[i]?).getD .done
    check (b ≠ .done)
    let (m, om, b') ← bodyStep cfg s.mem s.om b
    loopCalls cfg
      { mem := m, om := om, bodies := s.bodies.set i b' } turns

/- Turns of the iterations are a run of the loop. -/
theorem reachable_of_loopCalls
    {cfg : Config} {m : Mem} {om : Om} {heavy turns : List Nat}
    {s s' : LoopState}
    (hReach : (loopSystem cfg m om heavy).Reachable s)
    (hRun : loopCalls cfg s turns = Except.ok s') :
    (loopSystem cfg m om heavy).Reachable s' := by
  induction turns generalizing s with
  | nil =>
      cases hRun
      exact hReach
  | cons i turns ih =>
      rcases bind_eq_ok hRun with ⟨u, hCheck, hRun⟩
      rcases bind_eq_ok hRun with ⟨⟨m₁, om₁, b'⟩, hStep, hRun⟩
      have hActive := of_check hCheck
      cases hBody : s.bodies[i]? with
      | none =>
          rw [hBody] at hActive
          exact absurd rfl hActive
      | some b =>
          rw [hBody, Option.getD_some] at hActive hStep
          exact ih (hReach.step ⟨b, b', hBody, hActive, hStep,
            rfl⟩) hRun

instance (s : LoopState) : Decidable s.Complete :=
  inferInstanceAs (Decidable (∀ b ∈ s.bodies, b = .done))

/- A relabel whose iterations take the given turns. -/
def parRelabel (cfg : Config) (m : Mem) (self : Om)
    (heavy turns : List Nat) : Run (Mem × Om) := do
  let root ← Mem.load m.tls self.root
  let s ← loopCalls cfg
    { mem := m, om := self, bodies := heavy.map .start } turns
  check s.Complete
  let newRoot ← Mem.load s.mem.tls s.om.root
  check (¬ Overflow cfg root.numLeaves newRoot.numLeaves)
  let m ← omRebalance cfg s.mem s.om
  return (m, s.om)

theorem ParRelabel.of_turns
    {cfg : Config} {m m' : Mem} {om om' : Om}
    {heavy turns : List Nat}
    (hRun : parRelabel cfg m om heavy turns =
      Except.ok (m', om')) :
    ParRelabel cfg m om heavy m' om' := by
  rcases bind_eq_ok hRun with ⟨root, hRoot, hRun⟩
  rcases bind_eq_ok hRun with ⟨s, hLoop, hRun⟩
  rcases bind_eq_ok hRun with ⟨u, hDone, hRun⟩
  rcases bind_eq_ok hRun with ⟨newRoot, hNewRoot, hRun⟩
  rcases bind_eq_ok hRun with ⟨v, hFits, hRun⟩
  rcases bind_eq_ok hRun with ⟨m₁, hRebalance, hRun⟩
  cases hRun
  have hInit : (loopSystem cfg m om heavy).Reachable
      { mem := m, om := om, bodies := heavy.map .start } :=
    TransitionSystem.Reachable.of_init ⟨rfl, rfl, rfl⟩
  exact ⟨s, root, newRoot, hRoot,
    reachable_of_loopCalls hInit hLoop, of_check hDone,
    hNewRoot, of_check hFits, hRebalance, rfl⟩

/- One call; the iterations of a relabel take turns. -/
def parCall (cfg : Config) (s : OmState) :
    OmAction → List Nat → Run OmState
| .relabel heavy, turns => do
    check heavy.Nodup
    check (∀ p ∈ heavy, p ∈ s.order.map (omGetTl s.mem))
    let (m, om) ← parRelabel cfg s.mem s.om heavy turns
    return { s with mem := m, om := om }
| a, _ => omCall cfg s a

/- Several calls. -/
def parCalls (cfg : Config) :
    OmState → List (OmAction × List Nat) → Run OmState
| s, [] => return s
| s, (a, turns) :: rest => do
    let s ← parCall cfg s a turns
    parCalls cfg s rest

/- A new structure, and then several calls. -/
def parRun (cfg : Config) (m : Mem)
    (calls : List (OmAction × List Nat)) : Run OmState := do
  let (m, om) ← omNew cfg m
  parCalls cfg { mem := m, om := om, order := [] } calls

theorem Maintained.parStep_of_parCall
    {cfg : Config} {s s' : OmState} {t : Shape}
    {yss : List (List (Nat × Label))} {a : OmAction}
    {turns : List Nat}
    (h : Maintained cfg s t yss)
    (hRun : parCall cfg s a turns = Except.ok s') :
    parStep cfg s a s' := by
  cases a with
  | insertInitial =>
      exact h.step_of_omCall (a := OmAction.insertInitial) hRun
  | insert base =>
      exact h.step_of_omCall (a := OmAction.insert base) hRun
  | relabel heavy =>
      rcases bind_eq_ok hRun with ⟨u, hNodup, hRun⟩
      rcases bind_eq_ok hRun with ⟨v, hLive, hRun⟩
      rcases bind_eq_ok hRun with ⟨⟨m, om⟩, hRelabel, hRun⟩
      cases hRun
      refine ⟨of_check hNodup, ?_, ParRelabel.of_turns hRelabel,
        rfl⟩
      intro p hp
      have hMem := of_check hLive p hp
      rw [List.mem_map] at hMem
      rcases hMem with ⟨n, hn, rfl⟩
      exact h.liveLeaf hn

/- Computed runs are runs. -/
theorem reachable_of_parRun
    {cfg : Config} {m : Mem} {s : OmState}
    {calls : List (OmAction × List Nat)}
    (hCfg : cfg.WellFormed)
    (hRun : parRun cfg m calls = Except.ok s) :
    (parSystem cfg).Reachable s := by
  have hCalls : ∀ s₀, (parSystem cfg).Reachable s₀ →
      parCalls cfg s₀ calls = Except.ok s →
        (parSystem cfg).Reachable s := by
    clear hRun
    induction calls with
    | nil =>
        intro s₀ hReach hOk
        cases hOk
        exact hReach
    | cons x calls ih =>
        intro s₀ hReach hOk
        rcases bind_eq_ok hOk with ⟨s₁, hCall, hOk⟩
        rcases maintained_of_reachable hCfg
          (reachable_of_parSystem hCfg hReach) with ⟨t, yss, h⟩
        exact ih s₁
          (hReach.step (h.parStep_of_parCall hCall)) hOk
  rcases bind_eq_ok hRun with ⟨⟨m₀, om⟩, hNew, hRun⟩
  exact hCalls _ (TransitionSystem.Reachable.of_init
    ⟨rfl, m, hNew⟩) hRun

------------------------------------------------------------
-- The Height after a Relabel
------------------------------------------------------------

/-
  In every run in the default configuration, a relabel whose
  loop runs in parallel leaves a tree that is no deeper than
  the recorded height, and so does its loop.  The height is
  never lowered, and the loop that raises it can always make
  its next attempt and makes a bounded number of them.
-/
theorem height_bounds_trie
    {machine : Machine} {s : OmState} {heavy : List Nat}
    (hInt : ∀ k, 31 ≤ k → IntValue (machine.overshift k))
    (hReach :
      (parSystem (Config.default machine)).Reachable s)
    (hNodup : heavy.Nodup)
    (hLive : ∀ p ∈ heavy,
      LiveLeaf (Config.default machine) s.mem s.om p) :
    (∀ m om,
      ParRelabel (Config.default machine) s.mem s.om heavy m
          om →
        Bounded (Config.default machine) m om) ∧
      ∀ u, (loopSystem (Config.default machine) s.mem s.om
          heavy).Reachable u →
        (u.Complete →
          Bounded (Config.default machine) u.mem u.om) ∧
        (∀ i v, loopStep (Config.default machine) u i v →
          u.om.height ≤ v.om.height) ∧
        ∀ i r, u.bodies[i]? = some (.raise r) →
          (∃ v, loopStep (Config.default machine) u i v) ∧
          ∀ acts v,
            (loopSystem (Config.default machine) s.mem s.om
              heavy).Run u acts v →
              acts.count i ≤
                2 * (r.target - r.old) + 2 := by
  have hCfg := Config.default_wellFormed machine
  have hLogs := Config.default_logsBound hInt
  rcases maintained_of_reachable hCfg
    (reachable_of_parSystem hCfg hReach) with ⟨t, yss, h⟩
  have hPlain := h.plain hLive
  have hDepth := h.shallow hLogs
  refine ⟨?_, ?_⟩
  · intro m om hRelabel
    rcases hRelabel.serial hCfg h.stored hPlain hNodup with
      ⟨order, hPerm, hRun⟩
    have hLeaves : ∀ p ∈ order, ∃ l, (p, l) ∈ t.leaves := by
      intro p hp
      exact h.leaves hLive p (hPerm.mem_iff.mp hp)
    rcases omRelabel_spec hCfg h.stored h.unmarked hLeaves
      (hPerm.nodup_iff.mpr hNodup) hRun with
      ⟨t', yss', hAfter⟩
    exact hAfter.stored.bounded (hAfter.shallow hLogs hDepth)
  · intro u hLoop
    refine ⟨?_, ?_, ?_⟩
    · intro hDone
      rcases serial_of_complete hCfg h.stored hPlain hNodup
        hLoop hDone with ⟨order, hPerm, hSerial⟩
      rcases splitAllHeavy_spec hCfg h.stored
        (fun p hp => hPlain p (hPerm.mem_iff.mp hp))
        (hPerm.nodup_iff.mpr hNodup) hSerial with
        ⟨t₁, yss₁, hSplits⟩
      rw [← Shape.within_iff_of_unmarked h.unmarked] at hDepth
      exact hSplits.stored.bounded
        (hSplits.within hLogs hDepth).depth_le
    · rintro i v ⟨b, b', -, -, hRun, -⟩
      exact bodyStep_height_le hRun
    · intro i r hAt
      refine ⟨exists_step_of_raise hAt, ?_⟩
      intro acts v hRun
      rcases attempts_run hCfg h.stored hPlain hNodup hLoop
        (Or.inl ⟨r, hAt⟩) hRun with ⟨-, hLe⟩
      have hLeft := r.left_le u.om.height
      have hNow : attempts u i = r.left u.om.height + 1 := by
        unfold attempts
        rw [hAt]
      omega

/-
  Two of three leaves get a list that is too long.  The list
  of 129 nodes was split by a single iteration.
-/
def twoTooLongInTurn : List (OmAction × List Nat) :=
  manyInsertions.map (fun a => (a, [])) ++
    [(.relabel [0], List.replicate 7 0), (.insert 0, []),
      (.insert 1, [])]

/- Two iterations alternate, up to their attempts. -/
def alternating : List Nat :=
  (List.range 16).map fun i => i % 2

/-
  Their lists are split in parallel.  Both iterations try to
  raise the height from 2 to 3, and one of them does.
-/
theorem height_bounds_trie_twoTooLong :
    ∃ s m om,
      (parSystem (Config.default Machine.masked)).Reachable
          s ∧
        (∀ p ∈ [1, 2],
          LiveLeaf (Config.default Machine.masked) s.mem s.om
            p) ∧
        ParRelabel (Config.default Machine.masked) s.mem s.om
          [1, 2] m om ∧
        s.om.height = 2 ∧ om.height = 3 ∧
        Bounded (Config.default Machine.masked) m om ∧
        ∃ u,
          (loopSystem (Config.default Machine.masked) s.mem
            s.om [1, 2]).Reachable u ∧
          u.bodies = [.raise ⟨2, 3⟩, .raise ⟨2, 3⟩] ∧
          ∀ acts v,
            (loopSystem (Config.default Machine.masked) s.mem
              s.om [1, 2]).Run u acts v →
                acts.count 1 ≤ 4 := by
  have hTest : (parRun (Config.default Machine.masked)
      noMemory twoTooLongInTurn).toOption.any (fun s =>
        (0 ∈ s.order ∧ omGetTl s.mem 0 = 1) ∧
        (1 ∈ s.order ∧ omGetTl s.mem 1 = 2) ∧
        s.om.height = 2 ∧
        (parRelabel (Config.default Machine.masked) s.mem s.om
          [1, 2] (alternating ++ [0, 1, 0, 1, 0])).toOption.any
            (fun x => x.2.height = 3) ∧
        (loopCalls (Config.default Machine.masked)
          { mem := s.mem, om := s.om
            bodies := [.start 1, .start 2] }
          alternating).toOption.any fun u =>
            u.bodies = [.raise ⟨2, 3⟩, .raise ⟨2, 3⟩]) =
              true := by
    decide +kernel
  rcases exists_of_test hTest with ⟨s, hRun, hState⟩
  rw [decide_eq_true_iff] at hState
  rcases hState with ⟨hFirst, hSecond, hLow, hAfter, hDuring⟩
  rcases exists_of_test hAfter with ⟨⟨m, om⟩, hRelabel, hHigh⟩
  rcases exists_of_test hDuring with ⟨u, hLoop, hBodies⟩
  rw [decide_eq_true_iff] at hHigh hBodies
  have hCfg := Config.default_wellFormed Machine.masked
  have hReach := reachable_of_parRun hCfg hRun
  rcases maintained_of_reachable hCfg
    (reachable_of_parSystem hCfg hReach) with ⟨t, yss, h⟩
  have hLive : ∀ p ∈ [1, 2],
      LiveLeaf (Config.default Machine.masked) s.mem s.om
        p := by
    intro p hp
    rw [List.mem_cons, List.mem_singleton] at hp
    rcases hp with rfl | rfl
    · rw [← hFirst.2]
      exact h.liveLeaf hFirst.1
    · rw [← hSecond.2]
      exact h.liveLeaf hSecond.1
  have hPar := ParRelabel.of_turns hRelabel
  have hInit : (loopSystem (Config.default Machine.masked)
      s.mem s.om [1, 2]).Reachable
        { mem := s.mem, om := s.om
          bodies := [.start 1, .start 2] } :=
    TransitionSystem.Reachable.of_init ⟨rfl, rfl, rfl⟩
  have hReachU := reachable_of_loopCalls hInit hLoop
  rcases height_bounds_trie
    (fun k _ => Machine.masked_intValue k) hReach
    (by decide) hLive with ⟨hBounded, hDuring⟩
  refine ⟨s, m, om, hReach, hLive, hPar, hLow, hHigh,
    hBounded m om hPar, u, hReachU, hBodies, ?_⟩
  have hRaise : u.bodies[1]? = some (.raise ⟨2, 3⟩) := by
    rw [hBodies]
    rfl
  exact ((hDuring u hReachU).2.2 1 _ hRaise).2

end OrderMaint

end PRacer
