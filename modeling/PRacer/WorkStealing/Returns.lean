import PRacer.WorkStealing.Spawns

/-
  Returns of functions and of spawn helpers.

  Main declarations:
    * `Simulates.touches_join`, `Simulates.moves_join`
    * `Simulates.returnFromCall_root`
    * `Simulates.returnFromCall_parent`
    * `Simulates.leave_stolen`, `Simulates.leave_spawn`
-/

------------------------------------------------------------
-- Joins
------------------------------------------------------------

namespace PRacer

open Foundations

namespace WorkStealing

variable {Worker : Type}

namespace View

variable {V V' : View Worker} {w : Worker}
variable {M : Worker → Prop} {i j : Nat}

/- The frames of a worker that takes the step itself. -/
theorem Touches.keeps_mover
    (h : Touches V V' M i j)
    (hEnglish : ∀ n p, V.layout.EnglishAt V.orders n p →
      V'.layout.EnglishAt V'.orders n p)
    (hHebrew : ∀ n p, V.layout.HebrewAt V.orders n p →
      V'.layout.HebrewAt V'.orders n p)
    (hCarried : V.tasks.Carried V'.tasks)
    (hw : ∀ b c act, b = i ∨ b = j →
      V.acts.get b = some act → act.control = .spawned c w →
      V'.tasks.get c = none) :
    Keeps V V' w := by
  refine h.keeps_of hEnglish hHebrew hCarried ?_
  intro b c act hb hAct hControl hLive
  rcases hControl with hControl | hControl
  · rcases h.old b act hb hAct with hSame | ⟨-, -, hCall⟩
    · exact hSame
    · exact absurd (hCall c hControl) hLive
  · exact absurd (hw b c act hb hAct hControl) hLive

end View

namespace Simulates

variable {main : Code} {L : Layout} {t : Tasks}
variable {s : State Worker} {a b : Nat} {w : Worker}

/- An activation goes away, and its parent goes on. -/
theorem touches_join
    {s' : State Worker} {t' : Tasks} {M : Worker → Prop}
    {act actB actB' : Activation Worker} {y' : Task}
    (hAct : s.acts.get a = some act)
    (hHolder : act.control.holder = some w)
    (hw : M w)
    (hba : b ≠ a)
    (hActB : s.acts.get b = some actB)
    (hActs : ∀ c, s'.acts.get c =
      if c = b then some actB'
      else if c = a then none else s.acts.get c)
    (hTasks : ∀ c, t'.get c =
      if c = b then some y'
      else if c = a then none else t.get c)
    (hOldB : (actB'.control = actB.control ∧
        actB'.unsynched = actB.unsynched ∧
        t.get b = some y') ∨
      ((∀ v, actB.control.holder = some v → M v) ∧
        (∀ c v, actB.control = .spawned c v → M v) ∧
        ∀ c, actB.control = .calling c → c = a) ∧
      (∀ v, actB'.control.holder = some v → M v) ∧
        ∀ c v, actB'.control ≠ .spawned c v) :
    View.Touches (s.see L t) (s'.see L t') M a b where
  acts c hi hj := by
    rw [State.see, State.see, hActs, if_neg hj, if_neg hi]
  tasks c hi hj := by
    rw [State.see, State.see, hTasks, if_neg hj, if_neg hi]
  old c u hc hu := by
    rcases hc with rfl | rfl
    · obtain rfl := Option.some.inj (hAct.symm.trans hu)
      rcases Control.of_holder hHolder with
        ⟨hOnly, hUnspawned, hCall⟩
      exact Or.inr ⟨fun v hv => hOnly v hv ▸ hw,
        fun c v hc => absurd hc (hUnspawned c v),
        fun c hc => absurd hc (hCall c)⟩
    · obtain rfl := Option.some.inj (hActB.symm.trans hu)
      rcases hOldB with ⟨hControl, hUnsynched, hGet⟩ |
        ⟨⟨hHolderB, hSpawned, hCall⟩, -⟩
      · refine Or.inl ⟨actB', ?_, hControl, hUnsynched, ?_⟩
        · rw [State.see, hActs, if_pos rfl]
        · rw [State.see, State.see, hTasks, if_pos rfl, hGet]
      · refine Or.inr ⟨hHolderB, hSpawned, fun d hd => ?_⟩
        rw [hCall d hd, State.see, hTasks,
          if_neg (Ne.symm hba), if_pos rfl]
  new c u hc hu := by
    rw [State.see, hActs] at hu
    rcases hc with rfl | rfl
    · rw [if_neg (Ne.symm hba), if_pos rfl] at hu
      cases hu
    · rw [if_pos rfl] at hu
      obtain rfl := Option.some.inj hu
      rcases hOldB with ⟨hControl, -⟩ | ⟨-, hHolderB, hSpawned⟩
      · exact Or.inl ⟨actB, hActB, hControl⟩
      · exact Or.inr ⟨hHolderB,
          fun d v hd => absurd hd (hSpawned d v)⟩

/- The rest of such a step. -/
theorem moves_join
    {s' : State Worker} {t' : Tasks} {M : Worker → Prop}
    {actB' : Activation Worker} {y' : Task}
    (h : Simulates main L t s)
    (hba : b ≠ a)
    (hTouches :
      View.Touches (s.see L t) (s'.see L t') M a b)
    (hBefore : ∀ v c k, M v →
      (s.workers v).pc.holds v = some (c, k) → c = a)
    (hReach : (taskSystem main).Reachable t')
    (hCarried : t.Carried t')
    (hActs : ∀ c, s'.acts.get c =
      if c = b then some actB'
      else if c = a then none else s.acts.get c)
    (hNextA : s'.acts.next = s.acts.next)
    (hTasks : ∀ c, t'.get c =
      if c = b then some y'
      else if c = a then none else t.get c)
    (hNextT : t'.heap.next = t.heap.next)
    (hHelpers : ∀ c d, c ≠ a → c ≠ b →
      (t'.HelperOf d c ↔ t.HelperOf d c))
    (hGood : Good t' b actB' y')
    (hOther : ∀ v, ¬ M v → s'.workers v = s.workers v)
    (hHolder : ∀ v, actB'.control.holder = some v →
      (s'.workers v).pc.holds v = some (b, actB'.control))
    (hHolds : ∀ v c k, M v →
      (s'.workers v).pc.holds v = some (c, k) →
      c = b ∧ k = actB'.control)
    (hStack : ∀ v, M v →
      (s'.see L t').Stack v (s'.workers v))
    (hOpens : y'.Opens L)
    (hStrands : ∃ new : List Strand,
      s'.strands = s.strands ++ new ∧
      t'.log = t.log ++ new.map Strand.leaf ∧
      ∀ y ∈ new, ∃ p, (walkOf main)[y.leaf]? = some p ∧
        L.At s'.orders (y.english, y.hebrew) p) :
    Moves main L t s L t' s' M a b := by
  have hActA := hActs a
  rw [if_neg (Ne.symm hba), if_pos rfl] at hActA
  have hTaskA := hTasks a
  rw [if_neg (Ne.symm hba), if_pos rfl] at hTaskA
  have hActB := hActs b
  rw [if_pos rfl] at hActB
  have hTaskB := hTasks b
  rw [if_pos rfl] at hTaskB
  exact
    { reach := hReach
      touches := hTouches
      carried := hCarried
      next := by rw [hNextA, hNextT, h.acts.next]
      good := fun c u hc hu => by
        rcases hc with rfl | rfl
        · rw [hActA] at hu
          cases hu
        · obtain rfl := Option.some.inj (hActB.symm.trans hu)
          exact ⟨_, hTaskB, hGood⟩
      live := fun c u hc hu => by
        rcases hc with rfl | rfl
        · rw [hTaskA] at hu
          cases hu
        · exact ⟨_, hActB⟩
      helpers := hHelpers
      workers := hOther
      before := fun v c k hv hNew =>
        Or.inl (hBefore v c k hv hNew)
      holder := fun c u v hc hu hv => by
        rcases hc with rfl | rfl
        · rw [hActA] at hu
          cases hu
        · obtain rfl := Option.some.inj (hActB.symm.trans hu)
          exact hHolder v hv
      holds := fun v c k hv hNew => by
        rcases hHolds v c k hv hNew with ⟨rfl, rfl⟩
        exact ⟨_, hActB, rfl⟩
      shadows := hStack
      opens := fun c u hc hu => by
        rcases hc with rfl | rfl
        · rw [hTaskA] at hu
          cases hu
        · obtain rfl := Option.some.inj (hTaskB.symm.trans hu)
          exact hOpens
      strands := hStrands }

theorem keeps_join
    {s' : State Worker} {t' : Tasks} {M : Worker → Prop}
    {act actB : Activation Worker}
    (hTouches :
      View.Touches (s.see L t) (s'.see L t') M a b)
    (hOrders : s'.orders = s.orders)
    (hCarried : t.Carried t')
    (hAct : s.acts.get a = some act)
    (hHolder : act.control.holder = some w)
    (hActB : s.acts.get b = some actB)
    (hSpawned : ∀ c v, actB.control = .spawned c v →
      t'.get c = none)
    (v : Worker) :
    View.Keeps (s.see L t) (s'.see L t') v := by
  refine hTouches.keeps_mover ?_ ?_ hCarried ?_
  · intro n p hAt
    exact (show L.EnglishAt s'.orders n p from hOrders ▸ hAt)
  · intro n p hAt
    exact (show L.HebrewAt s'.orders n p from hOrders ▸ hAt)
  · intro c d u hc hu hControl
    rcases hc with rfl | rfl
    · obtain rfl := Option.some.inj (hAct.symm.trans hu)
      exact absurd hControl
        ((Control.of_holder hHolder).2.1 d v)
    · obtain rfl := Option.some.inj (hActB.symm.trans hu)
      exact hSpawned d v hControl

/- Without a pending sync there are no spawned children. -/
theorem no_children
    (h : Simulates main L t s)
    {act : Activation Worker} {x : Task}
    (hGet : t.get a = some x)
    (hGood : Good t a act x)
    (hPending : x.pending = none) :
    act.children = [] := by
  refine List.eq_nil_iff_forall_not_mem.mpr fun c hc => ?_
  rcases ((hGood.children c).mp hc).1 with
    ⟨z, hz, hParent, hHelper⟩
  rcases h.sound.tree.child c z a hz hParent with
    ⟨u, hu, hChild⟩
  obtain rfl := Option.some.inj (hGet.symm.trans hu)
  exact hChild.spawned hHelper hPending

/- The parent of a helper. -/
theorem parent_of_helper
    (h : Simulates main L t s)
    {x : Task}
    (hGet : t.get a = some x)
    (hHelper : x.rest.isHelper = true) :
    ∃ b y q, x.parent = some b ∧ b ≠ a ∧
      (s.see L t).Link a true b y ∧ y.pending = some q := by
  cases hParent : x.parent with
  | none =>
      have hFalse := h.sound.tree.root a x hGet hParent
      rw [hHelper] at hFalse
      cases hFalse
  | some b =>
      rcases h.sound.tree.child a x b hGet hParent with
        ⟨y, hy, hChild⟩
      rcases Option.ne_none_iff_exists'.mp
        (hChild.spawned hHelper) with ⟨q, hq⟩
      exact ⟨b, y, q, rfl, Nat.ne_of_lt hChild.lt,
        ⟨⟨x, hGet, hParent, hHelper⟩, hy⟩, hq⟩

------------------------------------------------------------
-- Returns
------------------------------------------------------------

variable [DecidableEq Worker]

/- The first function returns. -/
theorem returnFromCall_root
    (h : Simulates main L t s)
    (hPc : (s.workers w).pc = .running a)
    {act : Activation Worker}
    (hAct : s.acts.get a = some act)
    (hRest : act.rest = .ret)
    (hRoot : act.parent = none) :
    ∃ s' t', s.returnFromCall w a act = some s' ∧
      Simulates main L t' s' := by
  rcases h.running hPc with
    ⟨u, x, f, fs, hu, hControl, hGood, hReady, hGone, hRunning⟩
  obtain rfl := Option.some.inj (hAct.symm.trans hu)
  clear hu
  rcases h.strand_of hGood hReady hGone hRunning with
    ⟨new, hStrand, hLeaf, hNew⟩
  have hGet : t.get a = some x := hRunning.get
  have hRestX : x.rest = .ret := hGood.rest.symm.trans hRest
  have hRootX : x.parent = none :=
    hGood.parent.symm.trans hRoot
  have hPending : x.pending = none :=
    (h.sound.tree.ok a x hGet).closed (by simp [hReady])
      (by simp [hRestX])
  have hCounter : act.joinCounter = 1 := by
    rw [hGood.counter, h.no_children hGet hGood hPending,
      hControl]
    rfl
  rcases hRunning.own.of_root hGet hRootX with ⟨rfl, hDeque⟩
  have hHook := State.popHook_leave_last
    (s := { s with strands := s.strands ++ [new] })
    hRunning.frames
  obtain ⟨s', hEq, hAfter⟩ :
      ∃ s', s.returnFromCall w a act = some s' ∧
        After s s' w
          { s.workers w with
            frames := [f]
            pc := .idle }
          (s.acts.free a) (s.strands ++ [new]) := by
    unfold State.returnFromCall
    rw [hStrand, Option.bind_some]
    dsimp only
    rw [if_neg (by simp [hCounter]), hHook, Option.map_some]
    simp only [hRoot]
    refine ⟨_, rfl, rfl, rfl, ?_, ?_, rfl⟩
    · simp [State.setPc, State.setWorker, State.setFrames,
        State.free]
    · intro u hu
      simp [State.setPc, State.setWorker, State.setFrames,
        State.free, hu]
  have hActs : ∀ b, s'.acts.get b =
      if b = a then none else s.acts.get b := by
    intro b
    rw [hAfter.acts, Heap.get_free]
  have hStep := Tasks.Step.ret hGet hReady hRestX
  have hTasks := Tasks.get_ret_of_root (t := t) (a := a) hRootX
  have hHolder : act.control.holder = some w := by
    rw [hControl]
    rfl
  refine ⟨s', t.ret a x, hEq, h.stay (M := (· = w)) (i := a)
    (j := a) hAfter.orders ?_⟩
  exact
    { reach := hStep.reachable h.reach
      touches :=
        { acts := fun b hi _ => by
            rw [State.see, State.see, hActs, if_neg hi]
          tasks := fun b hi _ => by
            rw [State.see, State.see, hTasks, if_neg hi]
          old := fun b u hb hu => by
            obtain rfl : b = a := hb.elim id id
            obtain rfl := Option.some.inj (hAct.symm.trans hu)
            rw [hControl]
            refine Or.inr ⟨?_, by simp, by simp⟩
            intro v hv
            exact (Option.some.inj hv).symm
          new := fun b u hb hu => by
            obtain rfl : b = a := hb.elim id id
            rw [State.see, hActs, if_pos rfl] at hu
            cases hu }
      carried := hStep.carried h.sound.tree
      next := by
        rw [hAfter.acts, Heap.next_free, h.acts.next]
        simp [Tasks.ret, hRootX]
      good := fun b u hb hu => by
        obtain rfl : b = a := hb.elim id id
        rw [hActs, if_pos rfl] at hu
        cases hu
      live := fun b u hb hu => by
        obtain rfl : b = a := hb.elim id id
        rw [hTasks, if_pos rfl] at hu
        cases hu
      helpers := fun b c _ _ => by
        unfold Tasks.HelperOf
        rw [hTasks]
        split
        · next hc =>
            subst hc
            simp [hGet, hRestX, Rest.isHelper]
        · exact Iff.rfl
      workers := fun u hu => hAfter.other u hu
      before := fun u b k hu hHolds => by
        subst hu
        rw [hPc] at hHolds
        cases hHolds
        exact Or.inl rfl
      holder := fun b u v hb hu hv => by
        obtain rfl : b = a := hb.elim id id
        rw [hActs, if_pos rfl] at hu
        cases hu
      holds := fun u b k hu hHolds => by
        subst hu
        rw [hAfter.self] at hHolds
        cases hHolds
      shadows := fun u hu => by
        subst hu
        rw [hAfter.self]
        simpa [View.Stack] using hDeque
      opens := fun b u hb hu => by
        obtain rfl : b = a := hb.elim id id
        rw [hTasks, if_pos rfl] at hu
        cases hu
      strands := strands_of hAfter.orders hAfter.strands rfl
        hLeaf hNew }

/- A function returns to its caller. -/
theorem returnFromCall_parent
    (h : Simulates main L t s)
    (hPc : (s.workers w).pc = .running a)
    {act : Activation Worker}
    (hAct : s.acts.get a = some act)
    (hRest : act.rest = .ret)
    (hParent : act.parent = some b) :
    ∃ s' t', s.returnFromCall w a act = some s' ∧
      Simulates main L t' s' := by
  rcases h.running hPc with
    ⟨u, x, f, fs, hu, hControl, hGood, hReady, hGone, hRunning⟩
  obtain rfl := Option.some.inj (hAct.symm.trans hu)
  clear hu
  rcases h.strand_of hGood hReady hGone hRunning with
    ⟨new, hStrand, hLeaf, hNew⟩
  have hGet : t.get a = some x := hRunning.get
  have hRestX : x.rest = .ret := hGood.rest.symm.trans hRest
  have hParentX : x.parent = some b :=
    hGood.parent.symm.trans hParent
  have hHelper : x.rest.isHelper = false := by
    rw [hRestX]
    rfl
  have hPending : x.pending = none :=
    (h.sound.tree.ok a x hGet).closed (by simp [hReady])
      (by simp [hRestX])
  have hCounter : act.joinCounter = 1 := by
    rw [hGood.counter, h.no_children hGet hGood hPending,
      hControl]
    rfl
  rcases h.sound.tree.child a x b hGet hParentX with
    ⟨y, hy, hChild⟩
  have hCalling := hChild.calling hHelper
  have hPath : x.path = y.path := by
    have hLast := hChild.last hHelper
    rw [hRestX] at hLast
    exact hLast
  have hba : b ≠ a := Nat.ne_of_lt hChild.lt
  have hLink : (s.see L t).Link a false b y :=
    ⟨⟨x, hGet, hParentX, hHelper⟩, hy⟩
  rcases hRunning.own.pop_call hLink with
    ⟨f₀, fs', current, rfl, hFrameB, hOwnB⟩
  rcases h.acts.live b y hy with ⟨actB, hActB⟩
  rcases h.acts.good b actB hActB with ⟨y', hy', hGoodB⟩
  obtain rfl := Option.some.inj (hy.symm.trans hy')
  have hControlB : actB.control = .calling a := by
    have hStatus := hGoodB.status.trans hCalling
    cases hKind : actB.control <;>
      simp [hKind, Control.status] at hStatus
    rw [hStatus]
  have hTop := hRunning.frame
  rw [hPending, hHelper] at hTop
  rcases State.hook_leave_call
    (s := { s with strands := s.strands ++ [new] })
    hRunning.frames hTop hFrameB with ⟨g, hHook, hFrame⟩
  have hPop := State.popHook_of_hook
    (s := { s with strands := s.strands ++ [new] })
    hRunning.frames hRunning.own.tail_le hHook
  obtain ⟨s', hEq, hAfter⟩ :
      ∃ s', s.returnFromCall w a act = some s' ∧
        After s s' w
          { s.workers w with
            frames := g :: fs'
            tail := min (s.workers w).tail fs'.length
            pc := .running b }
          ((s.acts.free a).modify b fun r =>
            { r with control := .running w })
          (s.strands ++ [new]) := by
    unfold State.returnFromCall
    rw [hStrand, Option.bind_some]
    dsimp only
    rw [if_neg (by simp [hCounter]), hPop, Option.map_some]
    simp only [hParent]
    refine ⟨_, rfl, rfl, rfl, ?_, ?_, rfl⟩
    · simp [State.setPc, State.setWorker, State.free,
        State.modify]
    · intro u hu
      simp [State.setPc, State.setWorker, State.free,
        State.modify, hu]
  have hActs : ∀ c, s'.acts.get c =
      if c = b then some
        ({ actB with control := .running w } :
          Activation Worker)
      else if c = a then none else s.acts.get c := by
    intro c
    have hFree : (s.acts.free a).get b = some actB := by
      rw [Heap.get_free, if_neg hba, hActB]
    rw [hAfter.acts, get_change_act hFree, Heap.get_free]
  obtain ⟨t', hStep, hTasks, hNextT, hLog⟩ :
      ∃ t' : Tasks, t.Step t' ∧
        (∀ c, t'.get c =
          if c = b then some { y with status := .ready }
          else if c = a then none else t.get c) ∧
        t'.heap.next = t.heap.next ∧
        t'.log = t.log ++ [x.leaf] :=
    ⟨_, Tasks.Step.ret hGet hReady hRestX,
      Tasks.get_ret_of_parent hParentX hy hba,
      by simp [Tasks.ret, hParentX], rfl⟩
  have hCarried := hStep.carried h.sound.tree
  have hHelpers : ∀ c d, t'.HelperOf d c ↔ t.HelperOf d c := by
    intro c d
    unfold Tasks.HelperOf
    rw [hTasks]
    split
    · next hd =>
        subst hd
        simp [hy]
    · split
      · next hd =>
          subst hd
          simp [hGet, hHelper]
      · exact Iff.rfl
  have hHolder : act.control.holder = some w := by
    rw [hControl]
    rfl
  have hTouches := touches_join (L := L) (M := (· = w)) hAct
    hHolder rfl hba hActB hActs hTasks (Or.inr (by
      rw [hControlB]
      refine ⟨⟨(fun _ h => by cases h), by simp, ?_⟩, ?_, by simp⟩
      · intro c hc
        cases hc
        rfl
      · intro v hv
        cases hv
        rfl))
  have hKeeps := keeps_join hTouches hAfter.orders hCarried
    hAct hHolder hActB (by rw [hControlB]; simp) w
  have hTaskB := hTasks b
  rw [if_pos rfl] at hTaskB
  have hActB' := hActs b
  rw [if_pos rfl] at hActB'
  have hGood' : Good t' b
      ({ actB with control := .running w } :
        Activation Worker)
      { y with status := .ready } := by
    have hCounterB := hGoodB.counter
    have hChildren := hGoodB.children
    have hGoneB := hGoodB.gone
    rw [hControlB] at hCounterB hChildren hGoneB
    exact
      { rest := hGoodB.rest
        leaf := hGoodB.leaf
        parent := hGoodB.parent
        status := rfl
        gone := by simpa using hGoneB
        counter := hCounterB
        nodup := hGoodB.nodup
        children := fun c => by
          rw [hHelpers, hChildren c]
          simp
        spawned := fun _ _ hEq => by cases hEq
        stolen := hGoodB.stolen
        suspended := fun hEq => by cases hEq
        waiting := fun hEq => by cases hEq
        unsynched := hGoodB.unsynched }
  refine ⟨s', t', hEq, h.stay hAfter.orders (h.moves_join hba
    hTouches ?_ (hStep.reachable h.reach) hCarried hActs
    (by rw [hAfter.acts]; rfl) hTasks hNextT
    (fun c d _ _ => hHelpers c d) hGood' hAfter.other ?_ ?_ ?_
    ?_ (strands_of hAfter.orders hAfter.strands hLog hLeaf
      hNew))⟩
  · rintro v c k rfl hHolds
    rw [hPc] at hHolds
    cases hHolds
    rfl
  · intro v hv
    cases hv
    rw [hAfter.self]
    rfl
  · rintro v c k rfl hHolds
    rw [hAfter.self] at hHolds
    cases hHolds
    exact ⟨rfl, rfl⟩
  · rintro v rfl
    rw [hAfter.self]
    refine ⟨_, g, fs', hTaskB, rfl, ?_, ?_⟩
    · have hFrame' := hFrame.congr
        (congrArg ShadowStack.english hAfter.orders)
        (congrArg ShadowStack.hebrew hAfter.orders)
      rw [hPath] at hFrame'
      exact hFrame'
    · exact hOwnB.carry hKeeps ⟨by simp [State.see, hTaskB],
        actB, _, hActB, hActB', id⟩
  · refine ⟨(h.opens b y hy).1, fun _ _ => ?_⟩
    exact hPath ▸ (h.opens a x hGet).2
      (Task.runs_of_ready hReady hGone) hReady

/- A helper returns, and the continuation was stolen. -/
theorem leave_stolen
    (h : Simulates main L t s)
    (hPc : (s.workers w).pc = .running a)
    {act : Activation Worker}
    (hAct : s.acts.get a = some act)
    (hRest : act.rest = .leave)
    (hDeque : (s.workers w).deque = []) :
    ∃ s' t', s.leave w a act = some s' ∧
      Simulates main L t' s' := by
  rcases h.running hPc with
    ⟨u, x, f, fs, hu, hControl, hGood, hReady, hGone, hRunning⟩
  obtain rfl := Option.some.inj (hAct.symm.trans hu)
  clear hu
  rcases h.strand_of hGood hReady hGone hRunning with
    ⟨new, hStrand, hLeaf, hNew⟩
  have hGet : t.get a = some x := hRunning.get
  have hRestX : x.rest = .leave := hGood.rest.symm.trans hRest
  have hHelper : x.rest.isHelper = true := by
    rw [hRestX]
    rfl
  rcases h.parent_of_helper hGet hHelper with
    ⟨b, y, q, hParent, hba, hLink, hPendingY⟩
  have hOwn := hRunning.own
  rw [hDeque] at hOwn
  rcases hOwn.pop_stolen hLink with
    ⟨f₀, fs', cont, rfl, hStolen, hFrameB, hBelow, hTail⟩
  rw [hPendingY] at hFrameB
  have hTop : f.helper = true :=
    hRunning.frame.helper.trans hHelper
  rcases State.hook_leave_stolen
    (s := { s with strands := s.strands ++ [new] })
    hRunning.frames hTop hFrameB with ⟨g, hHook, hFrame⟩
  have hPop := State.popHook_of_hook
    (s := { s with strands := s.strands ++ [new] })
    hRunning.frames hRunning.own.tail_le hHook
  obtain ⟨s', hEq, hAfter⟩ :
      ∃ s', s.leave w a act = some s' ∧
        After s s' w
          { s.workers w with
            frames := g :: fs'
            tail := min (s.workers w).tail fs'.length
            pc := .returning a }
          (s.acts.modify a fun r =>
            { r with
              rest := .gone
              leaf := act.leaf + 1
              control := .returning w })
          (s.strands ++ [new]) := by
    unfold State.leave
    rw [hStrand, Option.bind_some]
    dsimp only
    rw [if_pos hDeque, hPop, Option.map_some]
    refine ⟨_, rfl, rfl, rfl, ?_, ?_, rfl⟩
    · simp [State.setPc, State.setWorker, State.modify]
    · intro u hu
      simp [State.setPc, State.setWorker, State.modify, hu]
  have hActs : ∀ c, s'.acts.get c =
      if c = a then some
        ({ act with
          rest := .gone
          leaf := act.leaf + 1
          control := .returning w } : Activation Worker)
      else s.acts.get c := by
    intro c
    rw [hAfter.acts, get_change_act hAct]
  obtain ⟨t', hStep, hTasks, hHelpers, hNextT, hLog⟩ :
      ∃ t' : Tasks, t.Step t' ∧
        (∀ c, t'.get c =
          if c = a then some x.left else t.get c) ∧
        (∀ c d, t'.HelperOf d c ↔ t.HelperOf d c) ∧
        t'.heap.next = t.heap.next ∧
        t'.log = t.log ++ [x.leaf] := by
    refine ⟨_, Tasks.Step.leave hGet hReady hRestX,
      Tasks.get_change hGet, ?_, rfl, rfl⟩
    intro c d
    exact Tasks.helperOf_change x.left hGet rfl
      (by rw [hRestX]; rfl)
  have hCarried := hStep.carried h.sound.tree
  have hPending : x.pending = none :=
    (h.sound.tree.ok a x hGet).helper hHelper
  have hEmpty := h.no_children hGet hGood hPending
  have hHolder : act.control.holder = some w := by
    rw [hControl]
    rfl
  have hGood' : Good t' a
      ({ act with
        rest := .gone
        leaf := act.leaf + 1
        control := .returning w } : Activation Worker)
      x.left := by
    have hCounter := hGood.counter
    have hChildren := hGood.children
    rw [hControl] at hCounter hChildren
    exact
      { rest := rfl
        leaf := by simp [Task.left, hGood.leaf]
        parent := hGood.parent
        status := hReady.symm
        gone := by simp [Task.left]
        counter := hCounter
        nodup := hGood.nodup
        children := fun c => by
          rw [hHelpers, hChildren c]
          simp
        spawned := fun _ _ hEq => by cases hEq
        stolen := hGood.stolen
        suspended := fun hEq => by cases hEq
        waiting := fun hEq => by
          simp [Task.left, hReady] at hEq
        unsynched := hGood.unsynched }
  have hTouches := touches_own (L := L) L (M := (· = w)) hAct
    hHolder rfl hActs hTasks
    (fun v hv => (Option.some.inj hv).symm) (by simp)
  have hKeeps := keeps_own hTouches hAfter.orders hCarried
    hAct hHolder (Or.inl rfl) w
  have hTaskA := hTasks a
  rw [if_pos rfl] at hTaskA
  have hTaskB : t'.get b = some y := by
    rw [hTasks, if_neg hba]
    exact hLink.2
  refine ⟨s', t', hEq, h.stay hAfter.orders (h.moves_own
    hTouches ?_ (hStep.reachable h.reach) hCarried hActs
    (by rw [hAfter.acts, Heap.next_modify]) hTasks hNextT
    hHelpers hGood' hAfter.other ?_ ?_ ?_ ?_
    (strands_of hAfter.orders hAfter.strands hLog hLeaf
      hNew))⟩
  · rintro v c k rfl hHolds
    rw [hPc] at hHolds
    cases hHolds
    rfl
  · intro v hv
    cases hv
    rw [hAfter.self]
    rfl
  · rintro v c k rfl hHolds
    rw [hAfter.self] at hHolds
    cases hHolds
    exact ⟨rfl, rfl⟩
  · rintro v rfl
    rw [hAfter.self]
    refine ⟨b, y, q, g, fs', ⟨⟨_, hTaskA, hParent, rfl⟩,
      hTaskB⟩, hPendingY, ?_, rfl, ?_, ?_, hDeque⟩
    · intro u v hu
      rw [State.see, hActs, if_neg hba] at hu
      exact hStolen u v hu
    · exact hFrame.congr
        (congrArg ShadowStack.english hAfter.orders)
        (congrArg ShadowStack.hebrew hAfter.orders)
    · have hMin : min (s.workers v).tail fs'.length =
          fs'.length := by
        rw [hTail]
        omega
      rw [hMin]
      exact View.Own.bottom (hBelow.carry hKeeps.toCopies
        (by simp [State.see, hTaskB]))
  · refine ⟨fun q hq => ?_, fun hRuns => absurd rfl hRuns.1⟩
    rw [show x.left.pending = x.pending from rfl, hPending]
      at hq
    cases hq

/- A helper returns to the continuation. -/
theorem leave_spawn
    (h : Simulates main L t s)
    (hPc : (s.workers w).pc = .running a)
    {act : Activation Worker}
    (hAct : s.acts.get a = some act)
    (hRest : act.rest = .leave)
    (hDeque : (s.workers w).deque ≠ []) :
    ∃ s' t', s.leave w a act = some s' ∧
      Simulates main L t' s' := by
  rcases h.running hPc with
    ⟨u, x, f, fs, hu, hControl, hGood, hReady, hGone, hRunning⟩
  obtain rfl := Option.some.inj (hAct.symm.trans hu)
  clear hu
  rcases h.strand_of hGood hReady hGone hRunning with
    ⟨new, hStrand, hLeaf, hNew⟩
  have hGet : t.get a = some x := hRunning.get
  have hRestX : x.rest = .leave := hGood.rest.symm.trans hRest
  have hHelper : x.rest.isHelper = true := by
    rw [hRestX]
    rfl
  rcases h.parent_of_helper hGet hHelper with
    ⟨b, y, q, hParent, hba, hLink, hPendingY⟩
  rcases List.eq_nil_or_concat' (s.workers w).deque with
    hNil | ⟨dq, b', hSplit⟩
  · exact absurd hNil hDeque
  have hOwn := hRunning.own
  rw [hSplit, List.reverse_append] at hOwn
  rcases hOwn.pop_spawn hGet hHelper with
    ⟨y', f₀, fs', actB, rfl, hLink', hActB, hControlB, hFrameB,
      hOwnB⟩
  rcases hLink.unique hLink' with ⟨-, rfl, rfl⟩
  rw [hPendingY] at hFrameB
  have hTop : f.helper = true :=
    hRunning.frame.helper.trans hHelper
  rcases State.hook_leave_spawn
    (s := { s with strands := s.strands ++ [new] })
    hRunning.frames hTop hFrameB with ⟨g, hHook, hFrame⟩
  have hPop := State.popHook_of_hook
    (s := { s with strands := s.strands ++ [new] })
    hRunning.frames hRunning.own.tail_le hHook
  have hParentAct : act.parent = some b :=
    hGood.parent.trans hParent
  obtain ⟨s', hEq, hAfter⟩ :
      ∃ s', s.leave w a act = some s' ∧
        After s s' w
          { frames := g :: fs'
            tail := min (s.workers w).tail fs'.length
            deque := dq
            pc := .running b }
          ((s.acts.free a).modify b fun r =>
            { r with control := .running w })
          (s.strands ++ [new]) := by
    unfold State.leave
    rw [hStrand, Option.bind_some]
    dsimp only
    rw [if_neg hDeque, hParentAct, Option.bind_some, hPop,
      Option.map_some]
    refine ⟨_, rfl, rfl, rfl, ?_, ?_, rfl⟩
    · simp [State.setWorker, State.free, State.modify, hSplit]
    · intro u hu
      simp [State.setWorker, State.free, State.modify, hu]
  have hActs : ∀ c, s'.acts.get c =
      if c = b then some
        ({ actB with control := .running w } :
          Activation Worker)
      else if c = a then none else s.acts.get c := by
    intro c
    have hFree : (s.acts.free a).get b = some actB := by
      rw [Heap.get_free, if_neg hba]
      exact hActB
    rw [hAfter.acts, get_change_act hFree, Heap.get_free]
  -- The helper leaves and is joined at once.
  have hTree := h.sound.tree
  obtain ⟨t', hReach, hCarried, hTasks, hHelpers, hNextT,
      hLog⟩ :
      ∃ t' : Tasks, (taskSystem main).Reachable t' ∧
        t.Carried t' ∧
        (∀ c, t'.get c =
          if c = b then some y
          else if c = a then none else t.get c) ∧
        (∀ c d, t'.HelperOf d c ↔ d ≠ a ∧ t.HelperOf d c) ∧
        t'.heap.next = t.heap.next ∧
        t'.log = t.log ++ [x.leaf] := by
    have hLeave := Tasks.Step.leave hGet hReady hRestX
    have hSoundLeft := h.sound.step hLeave
    have hGetLeft : (t.change a x.left [x.leaf]).get a =
        some x.left := by
      rw [Tasks.get_change hGet, if_pos rfl]
    have hJoin := Tasks.Step.join hGetLeft hReady rfl
    refine ⟨_, hJoin.reachable (hLeave.reachable h.reach),
      (hLeave.carried hTree).trans
        (hJoin.carried hSoundLeft.tree), ?_, ?_, rfl, rfl⟩
    · intro c
      rw [Tasks.get_join, Tasks.get_change hGet]
      by_cases hcb : c = b
      · rw [if_pos hcb, hcb, if_neg hba, if_neg hba]
        exact hLink.2
      · rw [if_neg hcb]
        by_cases hca : c = a <;> simp [hca]
    · intro c d
      rw [Tasks.helperOf_join,
        Tasks.helperOf_change x.left hGet rfl
          (by rw [hRestX]; rfl)]
  rcases h.acts.good b actB hActB with ⟨z, hz, hGoodB⟩
  have hy : t.get b = some y := hLink.2
  obtain rfl := Option.some.inj (hy.symm.trans hz)
  have hHolder : act.control.holder = some w := by
    rw [hControl]
    rfl
  have hTaskA := hTasks a
  rw [if_neg (Ne.symm hba), if_pos rfl] at hTaskA
  have hTouches := touches_join (L := L) (M := (· = w)) hAct
    hHolder rfl hba hActB hActs hTasks (Or.inr (by
      rw [hControlB]
      refine ⟨⟨(fun _ h => by cases h), ?_, by simp⟩, ?_, by simp⟩
      · intro c v hc
        cases hc
        rfl
      · intro v hv
        cases hv
        rfl))
  have hKeeps := keeps_join hTouches hAfter.orders hCarried
    hAct hHolder hActB (by
      intro c v hc
      rw [hControlB] at hc
      cases hc
      exact hTaskA) w
  have hTaskB := hTasks b
  rw [if_pos rfl] at hTaskB
  have hActB' := hActs b
  rw [if_pos rfl] at hActB'
  have hGood' : Good t' b
      ({ actB with control := .running w } :
        Activation Worker) y := by
    have hCounterB := hGoodB.counter
    have hChildren := hGoodB.children
    have hGoneB := hGoodB.gone
    have hStatusB := hGoodB.status
    rw [hControlB] at hCounterB hChildren hGoneB hStatusB
    exact
      { rest := hGoodB.rest
        leaf := hGoodB.leaf
        parent := hGoodB.parent
        status := hStatusB
        gone := by simpa using hGoneB
        counter := hCounterB
        nodup := hGoodB.nodup
        children := fun c => by
          rw [hHelpers, hChildren c]
          constructor
          · rintro ⟨hOld, hNot⟩
            refine ⟨⟨?_, hOld⟩, by simp⟩
            rintro rfl
            exact hNot w rfl
          · rintro ⟨⟨hca, hOld⟩, -⟩
            refine ⟨hOld, ?_⟩
            rintro v hc
            cases hc
            exact hca rfl
        spawned := fun _ _ hEq => by cases hEq
        stolen := hGoodB.stolen
        suspended := fun hEq => by cases hEq
        waiting := hGoodB.waiting
        unsynched := hGoodB.unsynched }
  refine ⟨s', t', hEq, h.stay hAfter.orders (h.moves_join hba
    hTouches ?_ hReach hCarried hActs
    (by rw [hAfter.acts]; rfl) hTasks hNextT ?_ hGood'
    hAfter.other ?_ ?_ ?_ (h.opens b y hy)
    (strands_of hAfter.orders hAfter.strands hLog hLeaf
      hNew))⟩
  · rintro v c k rfl hHolds
    rw [hPc] at hHolds
    cases hHolds
    rfl
  · intro c d _ hcb
    rw [hHelpers, and_iff_right_iff_imp]
    rintro ⟨z, hz, hParentZ, -⟩ rfl
    obtain rfl := Option.some.inj (hGet.symm.trans hz)
    exact hcb (Option.some.inj (hParentZ.symm.trans hParent))
  · intro v hv
    cases hv
    rw [hAfter.self]
    rfl
  · rintro v c k rfl hHolds
    rw [hAfter.self] at hHolds
    cases hHolds
    exact ⟨rfl, rfl⟩
  · rintro v rfl
    rw [hAfter.self]
    refine ⟨_, g, fs', hTaskB, rfl, ?_, ?_⟩
    · have hFrame' := hFrame.congr
        (congrArg ShadowStack.english hAfter.orders)
        (congrArg ShadowStack.hebrew hAfter.orders)
      rw [← hPendingY, ← hLink.not_helper hTree] at hFrame'
      exact hFrame'
    · have hMin : min (s.workers v).tail fs'.length =
          (s.workers v).tail := Nat.min_eq_left hOwnB.tail_le
      rw [hMin]
      exact hOwnB.carry hKeeps ⟨by simp [State.see, hTaskB],
        actB, _, hActB, hActB', id⟩

end Simulates

end WorkStealing

end PRacer
