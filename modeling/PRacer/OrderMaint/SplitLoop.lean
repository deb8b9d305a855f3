import PRacer.Foundations.RaiseMax
import PRacer.Foundations.Simulation
import PRacer.OrderMaint.System

/-
  The parallel loop of a relabel (`om/om_relabel.c`).

  The iterations run at the same time.  What an iteration
  does to the list of its own leaf is one step, and so is
  each access to a node above it and to the height.

  Main declarations:
    * `Body`, `bodyStep`, `loopSystem`
    * `Ahead.startSplit`
    * `settle`, `startSplit_settle`
-/

namespace PRacer

open Foundations

namespace OrderMaint

------------------------------------------------------------
-- The Iterations
------------------------------------------------------------

/- Where an iteration is. -/
inductive Body where
| start (leaf : Nat)
| climb (current : Option Nat) (extra height : Nat)
| mark (current extra height : Nat)
| raise (r : Raise)
| done
deriving DecidableEq, Repr

/- Split the list of a heavy leaf, up to the way to the root. -/
def startSplit (cfg : Config) (m : Mem) (self : Om)
    (current : Nat) : Run (Mem × Body) := do
  let x ← Mem.load m.tls current
  check (x.level = cfg.maxLevel)
  check (x.parent ≠ none ∨ current = self.root)
  check (x.left = none ∧ x.right = none)
  let list ← x.below.asList
  let (m, numSplitLists) ← split cfg m list
  if 1 < numSplitLists then do
    let m ← m.setTl current fun x =>
      { x with left := none, right := none }
    return (m, .climb (some current) (numSplitLists - 1)
      (fastLog2Ceil cfg numSplitLists - 1))
  else do
    let m ← m.setTl current fun x =>
      { x with needsRebalance := false }
    let x ← Mem.load m.tls current
    let node ← x.below.asSplitNodes
    let s ← Mem.load m.tls node
    let list ← s.below.asList
    let m ← m.setTl node fun s => { s with level := cfg.maxLevel }
    let m ← tlNodeFree m node
    let m ← m.setTl current fun x => { x with below := .list list }
    let m ← m.setList list fun l => { l with above := some current }
    return (m, .done)

/- One step of an iteration. -/
def bodyStep (cfg : Config) (m : Mem) (self : Om) :
    Body → Run (Mem × Om × Body)
| .start current => do
    let (m, b) ← startSplit cfg m self current
    return (m, self, b)
| .climb (some current) extra height => do
    let m ← m.setTl current fun x =>
      { x with numLeaves := x.numLeaves + extra }
    return (m, self, .mark current extra height)
| .mark current extra height => do
    let m ← m.setTl current fun x =>
      { x with needsRebalance := true }
    let x ← Mem.load m.tls current
    return (m, self, .climb x.parent extra (height + 1))
| .climb none _ height =>
    return (m, self,
      .raise { old := self.height, target := height })
| .raise r =>
    if r.Open then
      let (height, r) := r.swap self.height
      return (m, { self with height := height }, .raise r)
    else return (m, self, .done)
| .done => return (m, self, .done)

/- Leaves are added to a node, which is marked afterwards. -/
def TlNode.addLeaves (extra : Nat) (x : TlNode) : TlNode :=
  { x with numLeaves := x.numLeaves + extra }

theorem bodyStep_climb
    {cfg : Config} {m : Mem} {om : Om} {q extra k : Nat}
    {x : TlNode}
    (hGet : m.tls.get q = some x) :
    bodyStep cfg m om (.climb (some q) extra k) =
      Except.ok (m.mapTl q (TlNode.addLeaves extra), om,
        .mark q extra k) := by
  unfold bodyStep
  dsimp only
  rw [Mem.setTl_of_get _ hGet, ok_bind]
  rfl

theorem bodyStep_mark
    {cfg : Config} {m : Mem} {om : Om} {q extra k : Nat}
    {x : TlNode}
    (hGet : m.tls.get q = some x) :
    bodyStep cfg m om (.mark q extra k) =
      Except.ok
        (m.mapTl q fun x => { x with needsRebalance := true },
          om, .climb x.parent extra (k + 1)) := by
  unfold bodyStep
  dsimp only
  rw [Mem.setTl_of_get _ hGet, ok_bind, Mem.tls_mapTl,
    Mem.load_of_get (Heap.get_modify_self _ hGet), ok_bind]
  rfl

/- The loop: the iterations share the memory. -/
structure LoopState where
  mem : Mem
  om : Om
  bodies : List Body

/- The loop is over. -/
def LoopState.Complete (s : LoopState) : Prop :=
  ∀ b ∈ s.bodies, b = .done

/- One iteration takes a step. -/
def loopStep (cfg : Config) (s : LoopState) (i : Nat)
    (s' : LoopState) : Prop :=
  ∃ b b', s.bodies[i]? = some b ∧ b ≠ .done ∧
    bodyStep cfg s.mem s.om b =
      Except.ok (s'.mem, s'.om, b') ∧
    s'.bodies = s.bodies.set i b'

/- An iteration for each heavy leaf. -/
def loopSystem
    (cfg : Config) (m : Mem) (om : Om) (heavy : List Nat) :
    TransitionSystem LoopState Nat where
  init s := s.mem = m ∧ s.om = om ∧
    s.bodies = heavy.map .start
  step := loopStep cfg

/- The serial loop does the steps of one leaf in a row. -/
theorem splitHeavy_eq
    (cfg : Config) (m : Mem) (om : Om) (p : Nat) :
    splitHeavy cfg m om p = (do
      let (m, b) ← startSplit cfg m om p
      match b with
      | .climb current extra height => do
          let (m, height) ←
            updateSizes extra (m.tls.next + 1) m current height
          return (m, { om with
            height := max om.height height })
      | _ => return (m, om)) := by
  unfold splitHeavy startSplit
  simp only [bind_assoc]
  congr 1
  funext x
  congr 1
  funext _
  congr 1
  funext _
  congr 1
  funext _
  congr 1
  funext list
  congr 1
  funext r
  split
  · simp only [bind_assoc]
    rfl
  · simp only [bind_assoc]
    rfl

------------------------------------------------------------
-- A Node That Was Counted Up Before
------------------------------------------------------------

/- A node is counted up and marked. -/
def TlNode.countUp (extra : Nat) (x : TlNode) : TlNode :=
  { x with
    numLeaves := x.numLeaves + extra
    needsRebalance := true }

/- The second memory has one node counted up. -/
def Ahead (q extra : Nat) (m m' : Mem) : Prop :=
  m' = m.mapTl q (TlNode.countUp extra) ∧ q < m.tls.next

/- Two records with the same place in the tree. -/
def TlNode.SamePlace (x y : TlNode) : Prop :=
  y = { x with
    numLeaves := y.numLeaves
    needsRebalance := y.needsRebalance }

namespace Ahead

variable {q extra : Nat} {m m' : Mem}

theorem load
    (h : Ahead q extra m m') (r : Nat) :
    Simulates TlNode.SamePlace
      (Mem.load m.tls r) (Mem.load m'.tls r) := by
  rcases h with ⟨rfl, -⟩
  intro x hLoad
  have hGet := Mem.get_of_load hLoad
  by_cases hr : r = q
  · subst hr
    refine ⟨TlNode.countUp extra x, ?_, rfl⟩
    apply Mem.load_of_get
    exact Heap.get_modify_self _ hGet
  · refine ⟨x, ?_, rfl⟩
    apply Mem.load_of_get
    rw [Mem.tls_mapTl, Heap.get_modify_of_ne _ hr]
    exact hGet

/- Changes that have nothing to do with the counting. -/
theorem setTl
    {r : Nat} {f : TlNode → TlNode}
    (h : Ahead q extra m m')
    (hComm : r = q → ∀ x,
      f (TlNode.countUp extra x) = TlNode.countUp extra (f x)) :
    Simulates (Ahead q extra) (m.setTl r f)
      (m'.setTl r f) := by
  rcases h with ⟨rfl, hq⟩
  intro m₁ hSet
  unfold Mem.setTl at hSet
  split at hSet
  · rename_i x hGet
    cases hSet
    have hGet' : ∃ y, (m.mapTl q
        (TlNode.countUp extra)).tls.get r = some y := by
      rw [Mem.tls_mapTl, Heap.get_modify, hGet]
      split
      · exact ⟨_, rfl⟩
      · exact ⟨_, rfl⟩
    rcases hGet' with ⟨y, hGet'⟩
    refine ⟨_, Mem.setTl_of_get f hGet', ?_, hq⟩
    unfold Mem.mapTl
    dsimp only
    congr 1
    apply Heap.modify_comm
    intro hqr x
    exact (hComm hqr.symm x).symm
  · cases hSet

theorem setList
    (h : Ahead q extra m m') (l : Nat) (f : BList → BList) :
    Simulates (Ahead q extra) (m.setList l f)
      (m'.setList l f) := by
  rcases h with ⟨rfl, hq⟩
  intro m₁ hSet
  unfold Mem.setList at hSet ⊢
  rw [Mem.lists_mapTl]
  split at hSet
  · cases hSet
    exact ⟨_, rfl, rfl, hq⟩
  · cases hSet

theorem setNode
    (h : Ahead q extra m m') (n : Nat) (f : BlNode → BlNode) :
    Simulates (Ahead q extra) (m.setNode n f)
      (m'.setNode n f) := by
  rcases h with ⟨rfl, hq⟩
  intro m₁ hSet
  unfold Mem.setNode at hSet ⊢
  rw [Mem.nodes_mapTl]
  split at hSet
  · cases hSet
    exact ⟨_, rfl, rfl, hq⟩
  · cases hSet

theorem nodes (h : Ahead q extra m m') :
    m'.nodes = m.nodes := by
  rw [h.1, Mem.nodes_mapTl]

theorem lists (h : Ahead q extra m m') :
    m'.lists = m.lists := by
  rw [h.1, Mem.lists_mapTl]

/- A new node is not the one that was counted up. -/
theorem newTl (h : Ahead q extra m m') :
    Ahead q extra (tlNodeNew m).1 (tlNodeNew m').1 ∧
      (tlNodeNew m').2 = (tlNodeNew m).2 ∧
      q < (tlNodeNew m).2 := by
  rcases h with ⟨rfl, hq⟩
  refine ⟨⟨?_, ?_⟩, rfl, hq⟩
  · unfold tlNodeNew Mem.mapTl
    dsimp only
    congr 1
    exact Heap.alloc_modify _ _ hq
  · unfold tlNodeNew
    rw [Heap.next_alloc]
    omega

theorem newList (h : Ahead q extra m m') :
    Ahead q extra (blNew m).1 (blNew m').1 ∧
      (blNew m').2 = (blNew m).2 := by
  rcases h with ⟨rfl, hq⟩
  exact ⟨⟨rfl, hq⟩, rfl⟩

theorem freeTl
    (h : Ahead q extra m m') (r : Nat) :
    Simulates (Ahead q extra) (tlNodeFree m r)
      (tlNodeFree m' r) := by
  unfold tlNodeFree
  apply Simulates.bind (h.load r)
  intro x y _
  rcases h with ⟨rfl, hq⟩
  apply Simulates.ok
  refine ⟨?_, hq⟩
  unfold Mem.mapTl
  dsimp only
  rw [Heap.free_modify]

/- The code that links a node in does not look at the tree. -/
theorem insertInternal
    (h : Ahead q extra m m') (l : Nat) (base : Option Nat)
    (n : Nat) :
    Simulates (Ahead q extra) (insertInternal m l base n)
      (OrderMaint.insertInternal m' l base n) := by
  unfold OrderMaint.insertInternal
  dsimp only
  cases base with
  | none =>
      apply Simulates.bind (h.setList _ _)
      intro m₁ m₁' h₁
      apply Simulates.bind (h₁.setNode _ _)
      intro m₂ m₂' h₂
      exact h₂.setNode _ _
  | some base =>
      dsimp only
      rw [h.nodes, h.lists]
      apply Simulates.bind (Simulates.refl _)
      rintro x _ rfl
      apply Simulates.bind (Simulates.refl _)
      rintro b _ rfl
      apply Simulates.bind (Simulates.refl _)
      rintro u _ rfl
      apply Simulates.bind (Simulates.refl _)
      rintro k _ rfl
      apply Simulates.ite Iff.rfl
      · intro _
        apply Simulates.bind (h.setList _ _)
        intro m₁ m₁' h₁
        apply Simulates.bind (h₁.setNode _ _)
        intro m₂ m₂' h₂
        apply Simulates.bind (h₂.setNode _ _)
        intro m₃ m₃' h₃
        apply Simulates.bind (h₃.setNode _ _)
        intro m₄ m₄' h₄
        exact h₄.setNode _ _
      · intro _
        apply Simulates.bind (h.setNode _ _)
        intro m₁ m₁' h₁
        apply Simulates.bind (Simulates.refl _)
        rintro next _ rfl
        apply Simulates.bind (h₁.setNode _ _)
        intro m₂ m₂' h₂
        apply Simulates.bind (h₂.setNode _ _)
        intro m₃ m₃' h₃
        apply Simulates.bind (h₃.setNode _ _)
        intro m₄ m₄' h₄
        exact h₄.setNode _ _

/- The nodes are moved in the same way. -/
theorem splitInner
    {cfg : Config} {l room : Nat} {current : Option Nat}
    {lab : Label}
    (h : Ahead q extra m m') :
    Simulates (fun r r' => Ahead q extra r.1 r'.1 ∧ r'.2 = r.2)
      (splitInner cfg l room m current lab)
      (OrderMaint.splitInner cfg l room m' current lab) := by
  induction room generalizing m m' current lab with
  | zero => exact Simulates.ok ⟨h, rfl⟩
  | succ room ih =>
      cases current with
      | none => exact Simulates.ok ⟨h, rfl⟩
      | some current =>
          unfold OrderMaint.splitInner
          rw [h.nodes]
          apply Simulates.bind (Simulates.refl _)
          rintro n _ rfl
          apply Simulates.bind (h.setNode _ _)
          intro m₁ m₁' h₁
          apply Simulates.bind (h₁.insertInternal _ _ _)
          intro m₂ m₂' h₂
          exact ih h₂

/- The new leaves are linked in the same way. -/
theorem linkSplitNode
    (h : Ahead q extra m m') (above n : Nat)
    (prev : Option Nat) :
    Simulates (Ahead q extra) (linkSplitNode m above n prev)
      (OrderMaint.linkSplitNode m' above n prev) := by
  cases prev with
  | none => exact h.setTl fun _ _ => rfl
  | some prev => exact h.setTl fun _ _ => rfl

theorem splitOuter
    {cfg : Config} {above fuel num : Nat}
    {current prev : Option Nat}
    (h : Ahead q extra m m') :
    Simulates (fun r r' => Ahead q extra r.1 r'.1 ∧ r'.2 = r.2)
      (splitOuter cfg above fuel m current prev num)
      (OrderMaint.splitOuter cfg above fuel m' current prev
        num) := by
  induction fuel generalizing m m' current prev num with
  | zero =>
      cases current with
      | none => exact Simulates.ok ⟨h, rfl⟩
      | some current => exact Simulates.error _ _
  | succ fuel ih =>
      cases current with
      | none => exact Simulates.ok ⟨h, rfl⟩
      | some current =>
          unfold OrderMaint.splitOuter
          dsimp only
          rcases h.newTl with ⟨h₁, hSame, hq⟩
          rw [hSame]
          apply Simulates.bind
          · apply h₁.setTl
            intro hn
            omega
          intro m₂ m₂' h₂
          apply Simulates.bind (h₂.linkSplitNode _ _ _)
          intro m₃ m₃' h₃
          rcases h₃.newList with ⟨h₄, hList⟩
          rw [hList]
          apply Simulates.bind
          · exact h₄.setTl fun _ _ => rfl
          intro m₅ m₅' h₅
          apply Simulates.bind (h₅.setList _ _)
          intro m₆ m₆' h₆
          apply Simulates.bind (h₆.setNode _ _)
          intro m₇ m₇' h₇
          apply Simulates.bind h₇.splitInner
          rintro ⟨m₈, rest⟩ ⟨m₈', rest'⟩ ⟨h₈, hRest⟩
          dsimp only at h₈ hRest ⊢
          rw [hRest]
          exact ih h₈

theorem split
    {cfg : Config} {l : Nat}
    (h : Ahead q extra m m') :
    Simulates (fun r r' => Ahead q extra r.1 r'.1 ∧ r'.2 = r.2)
      (split cfg m l) (OrderMaint.split cfg m' l) := by
  unfold OrderMaint.split
  rw [h.lists, h.nodes]
  apply Simulates.bind (Simulates.refl _)
  rintro k _ rfl
  apply Simulates.bind (Simulates.refl _)
  rintro above _ rfl
  apply Simulates.bind (h.load above)
  intro a b hPlace
  rw [hPlace]
  apply Simulates.bind (Simulates.refl _)
  rintro u _ rfl
  apply Simulates.bind (Simulates.refl _)
  rintro v _ rfl
  apply Simulates.bind h.splitOuter
  rintro ⟨m₁, num⟩ ⟨m₁', num'⟩ ⟨h₁, hNum⟩
  dsimp only at h₁ hNum ⊢
  rw [hNum]
  apply Simulates.bind (h₁.setList _ _)
  rintro m₂ m₂' ⟨rfl, hq⟩
  exact Simulates.ok ⟨⟨rfl, hq⟩, rfl⟩

end Ahead

/- Another leaf is split in the same way. -/
theorem Ahead.startSplit
    {cfg : Config} {m m' : Mem} {om om' : Om}
    {q extra p : Nat}
    (h : Ahead q extra m m')
    (hRoot : om'.root = om.root)
    (hNe : p ≠ q) :
    Simulates (fun r r' => Ahead q extra r.1 r'.1 ∧ r'.2 = r.2)
      (startSplit cfg m om p)
      (OrderMaint.startSplit cfg m' om' p) := by
  unfold OrderMaint.startSplit
  rw [hRoot]
  apply Simulates.bind (h.load p)
  intro x y hPlace
  rw [hPlace]
  apply Simulates.bind (Simulates.refl _)
  rintro u _ rfl
  apply Simulates.bind (Simulates.refl _)
  rintro v _ rfl
  apply Simulates.bind (Simulates.refl _)
  rintro w _ rfl
  apply Simulates.bind (Simulates.refl _)
  rintro l _ rfl
  apply Simulates.bind h.split
  rintro ⟨m₁, num⟩ ⟨m₁', num'⟩ ⟨h₁, hNum⟩
  dsimp only at h₁ hNum ⊢
  rw [hNum]
  apply Simulates.ite Iff.rfl
  · intro _
    apply Simulates.bind
    · exact h₁.setTl fun _ _ => rfl
    intro m₂ m₂' h₂
    exact Simulates.ok ⟨h₂, rfl⟩
  · intro _
    apply Simulates.bind
    · exact h₁.setTl fun hp => absurd hp hNe
    intro m₂ m₂' h₂
    apply Simulates.bind (h₂.load p)
    intro x₂ y₂ hPlace₂
    rw [hPlace₂]
    apply Simulates.bind (Simulates.refl _)
    rintro node _ rfl
    apply Simulates.bind (h₂.load node)
    intro x₃ y₃ hPlace₃
    rw [hPlace₃]
    apply Simulates.bind (Simulates.refl _)
    rintro k _ rfl
    apply Simulates.bind
    · exact h₂.setTl fun _ _ => rfl
    intro m₃ m₃' h₃
    apply Simulates.bind (h₃.freeTl node)
    intro m₄ m₄' h₄
    apply Simulates.bind
    · exact h₄.setTl fun _ _ => rfl
    intro m₅ m₅' h₅
    apply Simulates.bind (h₅.setList _ _)
    intro m₆ m₆' h₆
    exact Simulates.ok ⟨h₆, rfl⟩

------------------------------------------------------------
-- Nodes That Are Still to Be Counted Up
------------------------------------------------------------

/- The memory once some nodes are counted up. -/
def settle : Mem → List (Nat × Nat) → Mem
| m, [] => m
| m, o :: os => settle (m.mapTl o.1 (TlNode.countUp o.2)) os

theorem settle_append
    (m : Mem) (os os' : List (Nat × Nat)) :
    settle m (os ++ os') = settle (settle m os) os' := by
  induction os generalizing m with
  | nil => rfl
  | cons o os ih => exact ih _

/- A change that commutes with counting can be made later. -/
theorem settle_mapTl
    {f : TlNode → TlNode}
    (hComm : ∀ extra x,
      f (TlNode.countUp extra x) = TlNode.countUp extra (f x))
    (m : Mem) (p : Nat) (os : List (Nat × Nat)) :
    settle (m.mapTl p f) os = (settle m os).mapTl p f := by
  induction os generalizing m with
  | nil => rfl
  | cons o os ih =>
      unfold settle
      rw [← ih]
      congr 1
      unfold Mem.mapTl
      dsimp only
      congr 1
      apply Heap.modify_comm
      intro _ x
      exact hComm o.2 x

theorem countUp_comm
    (i j : Nat) (x : TlNode) :
    TlNode.countUp i (TlNode.countUp j x) =
      TlNode.countUp j (TlNode.countUp i x) := by
  unfold TlNode.countUp
  dsimp only
  rw [Nat.add_right_comm]

/- The order in which nodes are counted up does not matter. -/
theorem settle_middle
    (m : Mem) (as bs : List (Nat × Nat)) (o : Nat × Nat) :
    settle m (as ++ o :: bs) =
      settle (m.mapTl o.1 (TlNode.countUp o.2))
        (as ++ bs) := by
  rw [settle_append, settle_append,
    settle_mapTl (fun j => countUp_comm o.2 j) m]
  rfl

theorem settle_comm
    (m : Mem) (os os' : List (Nat × Nat)) :
    settle (settle m os) os' = settle (settle m os') os := by
  induction os generalizing m with
  | nil => rfl
  | cons o os ih =>
      change settle (settle (m.mapTl o.1 _) os) os' =
        settle ((settle m os').mapTl o.1 _) os
      rw [ih, settle_mapTl fun j => countUp_comm o.2 j]

/- Counting nodes up does not change the links. -/
theorem settle_get
    (m : Mem) (os : List (Nat × Nat)) (q : Nat) :
    ((settle m os).tls.get q).map TlNode.parent =
      (m.tls.get q).map TlNode.parent := by
  induction os generalizing m with
  | nil => rfl
  | cons o os ih =>
      unfold settle
      rw [ih, Mem.tls_mapTl, Heap.get_modify]
      split
      · rw [Option.map_map]
        rfl
      · rfl

/- Links are the same if the parents are. -/
theorem SameParents.of_map_eq
    {tls tls' : Heap TlNode}
    (h : ∀ q, (tls'.get q).map TlNode.parent =
      (tls.get q).map TlNode.parent) :
    SameParents tls tls' := by
  intro q x hGet
  have hMap := h q
  rw [hGet, Option.map_some, Option.map_eq_some_iff] at hMap
  exact hMap

theorem SameParents.settle
    (m : Mem) (os : List (Nat × Nat)) :
    SameParents m.tls (settle m os).tls :=
  SameParents.of_map_eq (settle_get m os)

theorem SameParents.of_settle
    (m : Mem) (os : List (Nat × Nat)) :
    SameParents (OrderMaint.settle m os).tls m.tls :=
  SameParents.of_map_eq fun q => (settle_get m os q).symm

/- A leaf is split in the same way after nodes are counted. -/
theorem startSplit_settle
    {cfg : Config} {m m₁ : Mem} {om om' : Om} {p : Nat}
    {b : Body} {os : List (Nat × Nat)}
    (hRoot : om'.root = om.root)
    (hApart : ∀ o ∈ os, p ≠ o.1 ∧ o.1 < m.tls.next)
    (hRun : startSplit cfg m om p = Except.ok (m₁, b)) :
    startSplit cfg (settle m os) om' p =
      Except.ok (settle m₁ os, b) := by
  induction os generalizing m m₁ om with
  | nil =>
      have hSame : startSplit cfg m om' p =
          startSplit cfg m om p := by
        unfold startSplit
        rw [hRoot]
      exact hSame.trans hRun
  | cons o os ih =>
      rw [List.forall_mem_cons] at hApart
      rcases hApart with ⟨⟨hNe, hLt⟩, hApart⟩
      have hAhead : Ahead o.1 o.2 m
          (m.mapTl o.1 (TlNode.countUp o.2)) := ⟨rfl, hLt⟩
      rcases hAhead.startSplit hRoot hNe (m₁, b) hRun with
        ⟨⟨m₁', b'⟩, hRun', ⟨hm, -⟩, hb⟩
      dsimp only at hm hb
      subst hm hb
      exact ih rfl hApart hRun'

end OrderMaint

end PRacer
