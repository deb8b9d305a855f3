import PRacer.WorkStealing.Runtime

/-
  A thief gets copies of the frames below the stolen one, and
  the victim keeps its own.  For the tasks nothing happens.

  Main declarations:
    * `Victim`, `Simulates.victim`
    * `Simulates.steal`
-/

------------------------------------------------------------
-- Victims
------------------------------------------------------------

namespace PRacer

open Foundations

namespace WorkStealing

variable {Worker : Type}

/-
  What a thief finds: the frame of the oldest continuation,
  below the first helper frame above the tail.
-/
structure Victim
    (V V' : View Worker) (s : WorkerState) (v : Worker)
    (a c : Nat) (dq : List Nat) (d : Nat) (y : Task)
    (f : FrameData) (below : List FrameData) : Prop where
  holds : ∃ k, s.pc.holds v = some (c, k)
  lt : a < c
  top : stealTop s.frames s.tail =
    some (f :: below, below.length + 1)
  link : V.Link d true a y
  spawned :
    ∃ act, V.acts.get a = some act ∧
      act.control = .spawned d v
  frame : V.FrameAt f none (some y.path) y.pending false
  own : V.Own v a [] s.tail below
  left :
    V'.Stack v
      { s with tail := below.length + 1, deque := dq }

variable {main : Code} {L : Layout} {t : Tasks}
variable {s : State Worker} {a : Nat} {w v : Worker}

/- What a theft does to the data of the workers. -/
theorem State.steal_eq
    [DecidableEq Worker]
    {u : Worker} {d tail : Nat} {dq : List Nat}
    {act : Activation Worker}
    {loot frames : List FrameData}
    (hwv : w ≠ v)
    (hDeque : (s.workers v).deque = a :: dq)
    (hAct : s.acts.get a = some act)
    (hControl : act.control = .spawned d u)
    (hTop : stealTop (s.workers v).frames (s.workers v).tail =
      some (loot, tail))
    (hInit : initStrand loot = some frames) :
    ∃ s', s.steal w v = some s' ∧ s'.orders = s.orders ∧
      s'.acts =
        (s.acts.modify a fun r =>
          { r with
            joinCounter := act.joinCounter + 1
            unsynched := true
            children := d :: act.children
            control := .running w }) ∧
      s'.workers w =
        { frames := frames
          tail := (s.workers v).tail
          deque := []
          pc := .running a } ∧
      s'.workers v =
        { s.workers v with tail := tail, deque := dq } ∧
      (∀ u, ¬ (u = w ∨ u = v) →
        s'.workers u = s.workers u) ∧
      s'.strands = s.strands := by
  unfold State.steal
  dsimp only
  rw [hDeque]
  simp only [hAct, Option.bind_some, hControl, hTop, hInit,
    Option.map_some]
  refine ⟨_, rfl, rfl, rfl, ?_, ?_, ?_, rfl⟩
  · simp [State.setWorker]
  · simp [State.setWorker, Function.update_of_ne
      (Ne.symm hwv), State.modify]
  · intro u hu
    rw [not_or] at hu
    simp [State.setWorker, State.modify, hu.1, hu.2]

/-
  The helper of a stolen continuation is one more child that
  the sync waits for.
-/
theorem Good.of_theft
    {d : Nat} {act : Activation Worker} {x : Task}
    (h : Good t a act x)
    (hTree : Tasks.Tree main t)
    (hGet : t.get a = some x)
    (hControl : act.control = .spawned d v)
    (w : Worker) :
    Good t a
      { act with
        joinCounter := act.joinCounter + 1
        unsynched := true
        children := d :: act.children
        control := .running w } x := by
  have hHelperOf := h.spawned d v hControl
  have hNotMem : d ∉ act.children := fun hMem =>
    ((h.children d).mp hMem).2 v hControl
  have hCounter := h.counter
  have hGone := h.gone
  have hStatus := h.status
  rw [hControl] at hCounter hGone hStatus
  exact
    { rest := h.rest
      leaf := h.leaf
      parent := h.parent
      status := hStatus
      gone := by simpa using hGone
      counter := by
        simp only [List.length_cons, hCounter, Control.self]
      nodup := h.nodup.cons hNotMem
      children := fun b => by
        rw [List.mem_cons, h.children b, hControl]
        constructor
        · rintro (rfl | ⟨hOld, -⟩)
          · exact ⟨hHelperOf, by simp⟩
          · exact ⟨hOld, by simp⟩
        · rintro ⟨hOld, -⟩
          by_cases hb : b = d
          · exact Or.inl hb
          · refine Or.inr ⟨hOld, ?_⟩
            intro u hu
            cases hu
            exact hb rfl
      spawned := fun _ _ hEq => by cases hEq
      stolen := fun _ => rfl
      suspended := fun hEq => by cases hEq
      waiting := fun _ => rfl
      unsynched := fun _ => by
        rcases hHelperOf with ⟨z, hz, hParent, hHelper⟩
        rcases hTree.child d z a hz hParent with
          ⟨u, hu, hChild⟩
        obtain rfl := Option.some.inj (hGet.symm.trans hu)
        exact hChild.spawned hHelper }

namespace Simulates

theorem victim
    (h : Simulates main L t s)
    {dq : List Nat}
    {V' : View Worker}
    (hDeque : (s.workers v).deque = a :: dq)
    (hTheft : View.Theft (s.see L t) V' a) :
    ∃ c d y f below, Victim (s.see L t) V' (s.workers v) v a c
      dq d y f below := by
  have hTree := h.sound.tree
  have hStack := h.shadows v
  unfold View.Stack at hStack
  cases hPc : (s.workers v).pc with
  | idle =>
      rw [hPc] at hStack
      rw [show (s.workers v).deque = [] from hStack] at hDeque
      cases hDeque
  | running c =>
      rw [hPc] at hStack
      rcases hStack with ⟨x, g, fs, hRunning⟩
      have hOwn := hRunning.own
      rw [hDeque, List.reverse_cons] at hOwn
      have hHelper : ∀ b y, (s.see L t).Link c true b y →
          g.helper = true := by
        intro b y hLink
        rw [hRunning.frame.helper]
        exact (hLink.eq hRunning.get).2
      rcases hOwn.theft hTree hTheft hHelper with
        ⟨above, g', f, below, d, y, act, hSplit, hTop, hLink,
          hAct, hSpawned, hFrame, hBelow, hLeft⟩
      refine ⟨c, d, y, f, below, ⟨_, by rw [hPc]; rfl⟩,
        hOwn.lt hTree a (by simp), ?_, hLink,
        ⟨act, hAct, hSpawned⟩, hFrame, hBelow, ?_⟩
      · rw [hRunning.frames, hSplit]
        exact View.stealTop_eq hTop hBelow.tail_le
          (hBelow.plain.cons fun _ => hFrame.helper)
      · unfold View.Stack
        rw [hPc]
        refine ⟨x, g, fs, ?_, hRunning.frames,
          hTheft.frameAt hRunning.frame, ?_⟩
        · rw [hTheft.tasks]
          exact hRunning.get
        · exact hLeft
  | detaching c pc =>
      rw [hPc] at hStack
      rcases hStack with ⟨x, child, g, fs, hDetaching⟩
      have hOwn := hDetaching.own
      rw [hDeque, List.reverse_cons] at hOwn
      have hNotHelper : x.rest.isHelper = false := by
        rcases h.spawning_of hPc with
          ⟨-, z, -, -, -, hz, hSpawning, -⟩
        have hGet : t.get c = some x := hDetaching.get
        obtain rfl := Option.some.inj (hGet.symm.trans hz)
        rcases (hTree.ok c x hGet).spawns hSpawning with
          ⟨body, rest, hRest⟩
        rw [hRest]
        rfl
      have hHelper : ∀ b y, (s.see L t).Link c true b y →
          g.helper = true := by
        intro b y hLink
        have hTrue := (hLink.eq hDetaching.get).2
        rw [hNotHelper] at hTrue
        cases hTrue
      rcases hOwn.theft hTree hTheft hHelper with
        ⟨above, g', f, below, d, y, act, hSplit, hTop, hLink,
          hAct, hSpawned, hFrame, hBelow, hLeft⟩
      have hCopies := hTheft.copies hTree
      refine ⟨c, d, y, f, below, ⟨_, by rw [hPc]; rfl⟩,
        hOwn.lt hTree a (by simp), ?_, hLink,
        ⟨act, hAct, hSpawned⟩, hFrame, hBelow, ?_⟩
      · rw [hDetaching.frames, hSplit, ← List.cons_append]
        exact View.stealTop_eq hTop hBelow.tail_le
          (hBelow.plain.cons fun _ => hFrame.helper)
      · unfold View.Stack
        rw [hPc]
        refine ⟨x, child, g, fs, ?_, hDetaching.frames,
          hDetaching.isChild, hDetaching.isParent,
          hDetaching.current.mono hCopies.nodes,
          hDetaching.stage.keep hCopies, ?_, ?_⟩
        · rw [hTheft.tasks]
          exact hDetaching.get
        · rw [hTheft.layout, hTheft.orders]
          exact hDetaching.room
        · exact hLeft
  | syncing c =>
      rw [hPc] at hStack
      rcases hStack with ⟨x, f, fs, -, hBehind⟩
      rw [hBehind.deque] at hDeque
      cases hDeque
  | returning c =>
      rw [hPc] at hStack
      rcases hStack with ⟨b, x, q, f, fs, -, -, -, hBehind⟩
      rw [hBehind.deque] at hDeque
      cases hDeque

------------------------------------------------------------
-- Thieves
------------------------------------------------------------

/- The frames in a deque are there to be stolen. -/
theorem deque_spawned
    (h : Simulates main L t s)
    (w : Worker)
    {dq : List Nat}
    (hDeque : (s.workers v).deque = a :: dq) :
    ∃ d act, s.acts.get a = some act ∧
      act.control = .spawned d v := by
  have hTheft : View.Theft (s.see L t)
      { s.see L t with
        acts := s.acts.modify a fun r =>
          { r with control := .running w } } a :=
    { layout := rfl
      orders := rfl
      tasks := rfl
      other := fun b hb => Heap.get_modify_of_ne _ hb
      taken := fun act c v hAct => by
        simp only [Heap.get_modify, if_true] at hAct
        rcases Option.map_eq_some_iff.mp hAct with ⟨r, -, rfl⟩
        simp }
  rcases h.victim hDeque hTheft with
    ⟨c, d, y, f, below, hVictim⟩
  rcases hVictim.spawned with ⟨act, hAct, hSpawned⟩
  exact ⟨d, act, hAct, hSpawned⟩

variable [DecidableEq Worker]

/- `detach_for_steal` and `do_steal_success` -/
theorem steal
    (h : Simulates main L t s)
    (hPc : (s.workers w).pc = .idle)
    (hNe : (s.workers v).deque ≠ []) :
    ∃ s', s.steal w v = some s' ∧ Simulates main L t s' := by
  rcases List.exists_cons_of_ne_nil hNe with ⟨a, dq, hDeque⟩
  have hTree := h.sound.tree
  have hwv : w ≠ v := by
    rintro rfl
    exact hNe (h.master_idle hPc).1
  rcases h.deque_spawned w hDeque with
    ⟨d, act, hAct, hControl⟩
  rcases h.acts.good a act hAct with ⟨x, hGet, hGood⟩
  let act' : Activation Worker :=
    { act with
      joinCounter := act.joinCounter + 1
      unsynched := true
      children := d :: act.children
      control := .running w }
  let V' : View Worker :=
    { s.see L t with
      acts := s.acts.modify a fun r =>
        { r with
          joinCounter := act.joinCounter + 1
          unsynched := true
          children := d :: act.children
          control := .running w } }
  have hActs : ∀ b, V'.acts.get b =
      if b = a then some act' else s.acts.get b :=
    fun b => get_change_act hAct b
  have hTheft : View.Theft (s.see L t) V' a :=
    { layout := rfl
      orders := rfl
      tasks := rfl
      other := fun b hb => by rw [hActs, if_neg hb, State.see]
      taken := fun u c v hu => by
        rw [hActs, if_pos rfl] at hu
        obtain rfl := Option.some.inj hu
        simp }
  rcases h.victim hDeque hTheft with
    ⟨c, d', y, f, below, hVictim⟩
  have hd : d' = d := by
    rcases hVictim.spawned with ⟨u, hu, hSpawned⟩
    obtain rfl := Option.some.inj (hAct.symm.trans hu)
    rw [hControl] at hSpawned
    cases hSpawned
    rfl
  subst hd
  have hy : t.get a = some y := hVictim.link.2
  obtain rfl := Option.some.inj (hGet.symm.trans hy)
  rcases initStrand_spec below hVictim.frame with
    ⟨g, hInit, hFrame⟩
  rcases State.steal_eq hwv hDeque hAct hControl hVictim.top
      hInit with
    ⟨s', hEq, hOrders, hActs', hThief, hLeft, hOther, hStrands⟩
  have hSee : s'.see L t = V' := by
    unfold State.see
    rw [hOrders, hActs']
    rfl
  rcases hVictim.holds with ⟨k, hHolds⟩
  rcases h.held_by hHolds with
    ⟨actC, z, hActC, hControlC, hz, hGoodC⟩
  have hca : c ≠ a := Nat.ne_of_gt hVictim.lt
  have hActs₁ : ∀ b, s'.acts.get b =
      if b = a then some act' else s.acts.get b := by
    intro b
    rw [hActs']
    exact hActs b
  have hActA := hActs₁ a
  rw [if_pos rfl] at hActA
  have hActC' := hActs₁ c
  rw [if_neg hca, hActC] at hActC'
  have hGood' : Good t a act' x :=
    hGood.of_theft hTree hGet hControl w
  have hTouches : View.Touches (s.see L t) (s'.see L t)
      (fun u => u = w ∨ u = v) a c :=
    { acts := fun b hb _ => by
        rw [State.see, State.see, hActs₁, if_neg hb]
      tasks := fun _ _ _ => rfl
      old := fun b u hb hu => by
        rcases hb with rfl | rfl
        · obtain rfl := Option.some.inj (hAct.symm.trans hu)
          rw [hControl]
          refine Or.inr ⟨(fun _ h => by cases h), ?_, by simp⟩
          intro b u hb
          cases hb
          exact Or.inr rfl
        · obtain rfl := Option.some.inj (hActC.symm.trans hu)
          exact Or.inl ⟨_, hActC', rfl, rfl, rfl⟩
      new := fun b u hb hu => by
        rcases hb with rfl | rfl
        · obtain rfl := Option.some.inj (hActA.symm.trans hu)
          refine Or.inr ⟨?_, by simp⟩
          intro u hu
          exact Or.inl (Option.some.inj hu).symm
        · obtain rfl := Option.some.inj (hActC'.symm.trans hu)
          exact Or.inl ⟨_, hActC, rfl⟩ }
  have hCarried := Tasks.Carried.refl hTree
  have hHolderC : actC.control.holder = some v := by
    rw [hControlC]
    cases hPcV : (s.workers v).pc <;>
      simp only [hPcV, WorkerPc.holds, Option.some.injEq,
        Prod.mk.injEq, reduceCtorEq] at hHolds
    all_goals
      rw [← hHolds.2]
      rfl
  have hKeeps : View.Keeps (s.see L t) (s'.see L t) w := by
    refine hTouches.keeps_mover ?_ ?_ hCarried ?_
    · intro n p hAt
      exact (show L.EnglishAt s'.orders n p from
        hOrders ▸ hAt)
    · intro n p hAt
      exact (show L.HebrewAt s'.orders n p from hOrders ▸ hAt)
    · intro b e u hb hu hSpawned
      rcases hb with rfl | rfl
      · obtain rfl := Option.some.inj (hAct.symm.trans hu)
        rw [hControl] at hSpawned
        cases hSpawned
        exact absurd rfl hwv
      · obtain rfl := Option.some.inj (hActC.symm.trans hu)
        exact absurd hSpawned
          ((Control.of_holder hHolderC).2.1 e w)
  have hHelper : x.rest.isHelper = false :=
    hVictim.link.not_helper hTree
  have hOwn : (s'.see L t).Own w a [] (s.workers v).tail below :=
    hVictim.own.give hKeeps (by simp [State.see, hGet])
      (fun _ _ => by simp [State.see, hActA])
  refine ⟨s', hEq, h.stay (M := fun u => u = w ∨ u = v)
    (i := a) (j := c) hOrders ?_⟩
  exact
    { reach := h.reach
      touches := hTouches
      carried := hCarried
      next := by
        rw [hActs', ← h.acts.next]
        rfl
      good := fun b u hb hu => by
        rcases hb with rfl | rfl
        · obtain rfl := Option.some.inj (hActA.symm.trans hu)
          exact ⟨x, hGet, hGood'⟩
        · obtain rfl := Option.some.inj (hActC'.symm.trans hu)
          exact ⟨z, hz, hGoodC⟩
      live := fun b u _ hu => by
        by_cases hb : b = a
        · subst hb
          exact ⟨_, hActA⟩
        · rw [hActs₁, if_neg hb]
          exact h.acts.live b u hu
      helpers := fun _ _ _ _ => Iff.rfl
      workers := hOther
      before := fun u b k' hu hHoldsU => by
        rcases hu with rfl | rfl
        · rw [hPc] at hHoldsU
          cases hHoldsU
        · rw [hHolds] at hHoldsU
          cases hHoldsU
          exact Or.inr rfl
      holder := fun b u r hb hu hr => by
        rcases hb with rfl | rfl
        · obtain rfl := Option.some.inj (hActA.symm.trans hu)
          cases hr
          rw [hThief]
          rfl
        · obtain rfl := Option.some.inj (hActC'.symm.trans hu)
          rw [hHolderC] at hr
          cases hr
          rw [hLeft, hControlC]
          exact hHolds
      holds := fun u b k' hu hHoldsU => by
        rcases hu with rfl | rfl
        · rw [hThief] at hHoldsU
          cases hHoldsU
          exact ⟨_, hActA, rfl⟩
        · rw [hLeft] at hHoldsU
          have hEqHolds := hHolds.symm.trans hHoldsU
          cases hEqHolds
          exact ⟨_, hActC', hControlC⟩
      shadows := fun u hu => by
        rcases hu with rfl | rfl
        · rw [hThief]
          refine ⟨x, g, below, hGet, rfl, ?_, hOwn⟩
          have hFrame' := hFrame.congr
            (congrArg ShadowStack.english hOrders)
            (congrArg ShadowStack.hebrew hOrders)
          rw [← hHelper] at hFrame'
          exact hFrame'
        · rw [hLeft, hSee]
          exact hVictim.left
      opens := fun b u _ hu => h.opens b u hu
      strands := ⟨[], by simp [hStrands], by simp, by simp⟩ }

end Simulates

end WorkStealing

end PRacer
