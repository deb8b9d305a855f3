import PRacer.WorkStealing.Returns

/-
  The steps in the runtime: a sync of a stolen frame, and the
  return of a helper whose continuation was stolen.

  Main declarations:
    * `Resumed`, `Simulates.resumed`
    * `Simulates.sync`, `Simulates.returnFromSpawn`
-/

------------------------------------------------------------
-- Who Goes On
------------------------------------------------------------

namespace PRacer

open Foundations

namespace WorkStealing

variable {Worker : Type}

/- The workers when `u` goes on with the frames of `w`. -/
structure Resumed
    (s s' : State Worker) (w u : Worker) (a : Nat) : Prop where
  self :
    s'.workers u =
      { s.workers w with
        deque := (s.workers u).deque
        pc := .running a }
  idle :
    u ≠ w → s'.workers w = { s.workers w with pc := .idle }
  other :
    ∀ v, ¬ (v = w ∨ v = u) → s'.workers v = s.workers v

namespace Resumed

variable {s s' : State Worker} {w u v : Worker} {a b : Nat}
variable {k : Control Worker}

theorem holds
    (h : Resumed s s' w u a)
    (hv : v = w ∨ v = u)
    (hHolds : (s'.workers v).pc.holds v = some (b, k)) :
    b = a ∧ k = .running u := by
  by_cases hvu : v = u
  · subst hvu
    rw [h.self] at hHolds
    cases hHolds
    exact ⟨rfl, rfl⟩
  · obtain rfl : v = w := hv.resolve_right hvu
    rw [h.idle (Ne.symm hvu)] at hHolds
    cases hHolds

/- What the frames of both stand for. -/
theorem stack
    {V : View Worker} {x : Task} {f : FrameData}
    {fs : List FrameData}
    (h : Resumed s s' w u a)
    (hDequeW : (s.workers w).deque = [])
    (hDequeU : (s.workers u).deque = [])
    (hFrames : (s.workers w).frames = f :: fs)
    (hGet : V.tasks.get a = some x)
    (hFrame :
      V.FrameAt f (some x.path) none x.pending x.rest.isHelper)
    (hOwn : V.Own u a [] (s.workers w).tail fs)
    (hv : v = w ∨ v = u) :
    V.Stack v (s'.workers v) := by
  by_cases hvu : v = u
  · subst hvu
    rw [h.self]
    refine ⟨x, f, fs, hGet, hFrames, hFrame, ?_⟩
    dsimp only
    rw [hDequeU]
    exact hOwn
  · obtain rfl : v = w := hv.resolve_right hvu
    rw [h.idle (Ne.symm hvu)]
    exact hDequeW

end Resumed

namespace Simulates

variable {main : Code} {L : Layout} {t : Tasks}
variable {s : State Worker} {a b : Nat} {w : Worker}

/- A master that waits has no deque, and holds nothing. -/
theorem master_idle
    (h : Simulates main L t s)
    {u : Worker}
    (hIdle : (s.workers u).pc = .idle) :
    (s.workers u).deque = [] ∧
      (s.workers u).pc.holds u = none := by
  have hStack := h.shadows u
  unfold View.Stack at hStack
  rw [hIdle] at hStack
  rw [hIdle]
  exact ⟨hStack, rfl⟩

theorem master_getD
    {master : Option Worker}
    (hMaster : MasterWaits s w master) :
    master.getD w = w ∨
      (s.workers (master.getD w)).pc = .idle := by
  cases master with
  | none => exact Or.inl rfl
  | some u => exact hMaster u rfl

variable [DecidableEq Worker]

theorem resumed
    (s : State Worker) (w : Worker) (master : Option Worker)
    (a : Nat) :
    Resumed s (s.resume w master a) w (master.getD w) a := by
  refine ⟨?_, ?_, ?_⟩
  · unfold State.resume
    by_cases hu : master.getD w = w
    · simp [State.setWorker, State.setPc, State.modify, hu]
    · simp [State.setWorker, State.setPc, State.modify, hu]
  · intro hu
    unfold State.resume
    simp [State.setWorker, State.setPc, State.modify,
      Function.update_of_ne (Ne.symm hu)]
  · intro v hv
    rw [not_or] at hv
    unfold State.resume
    simp [State.setWorker, State.setPc, State.modify, hv.1,
      hv.2]

------------------------------------------------------------
-- Syncs
------------------------------------------------------------

/- A sync without children goes on. -/
theorem sync_resume
    (h : Simulates main L t s)
    (hPc : (s.workers w).pc = .syncing a)
    {master : Option Worker}
    (hMaster : MasterWaits s w master)
    {act : Activation Worker}
    (hAct : s.acts.get a = some act)
    (hEmpty : act.children = []) :
    ∃ t', Simulates main L t' (s.resume w master a) := by
  have hStack := h.shadows w
  unfold View.Stack at hStack
  rw [hPc] at hStack
  rcases hStack with ⟨x, f, fs, hGet, hBehind⟩
  replace hGet : t.get a = some x := hGet
  rcases h.held_by (w := w) (a := a) (k := .syncing w)
    (by rw [hPc]; rfl) with
    ⟨v, y, hv, hControl, hy, hGood⟩
  obtain rfl := Option.some.inj (hAct.symm.trans hv)
  obtain rfl := Option.some.inj (hGet.symm.trans hy)
  clear hv hy
  have hWaiting : x.status = .waiting := by
    rw [← hGood.status, hControl]
    rfl
  have hTree := h.sound.tree
  have hChildless := h.childless hGet hGood
    (by rw [hControl]; simp) (by rw [hWaiting]; simp) hEmpty
  have hHelper : x.rest.isHelper = false := by
    by_contra hNot
    have hOk := hTree.ok a x hGet
    have hNone := hOk.helper (by simpa using hNot)
    rw [hOk.waits hWaiting] at hNone
    cases hNone
  have hu := master_getD hMaster
  generalize hMasterU : master.getD w = u at hu
  have hResumed := resumed s w master a
  rw [hMasterU] at hResumed
  have hOrders : (s.resume w master a).orders = s.orders := rfl
  have hActs : ∀ c, (s.resume w master a).acts.get c =
      if c = a then some
        ({ act with
          joinCounter := 1
          unsynched := false
          control := .running u } : Activation Worker)
      else s.acts.get c := by
    intro c
    rw [← hMasterU]
    exact get_change_act hAct c
  have hNextA : (s.resume w master a).acts.next =
      s.acts.next := rfl
  have hStrands : (s.resume w master a).strands =
      s.strands := rfl
  generalize s.resume w master a = s' at *
  obtain ⟨t', hStep, hTasks, hHelpers, hNextT, hLog⟩ :
      ∃ t' : Tasks, t.Step t' ∧
        (∀ c, t'.get c =
          if c = a then some x.woken else t.get c) ∧
        (∀ c d, t'.HelperOf d c ↔ t.HelperOf d c) ∧
        t'.heap.next = t.heap.next ∧ t'.log = t.log := by
    refine ⟨_, Tasks.Step.wake hGet hWaiting hChildless,
      Tasks.get_change hGet, ?_, rfl, List.append_nil _⟩
    intro c d
    exact Tasks.helperOf_change x.woken hGet rfl rfl
  have hCarried := hStep.carried hTree
  have hHolder : act.control.holder = some w := by
    rw [hControl]
    rfl
  have hGood' : Good t' a
      ({ act with
        joinCounter := 1
        unsynched := false
        control := .running u } : Activation Worker)
      x.woken := by
    have hChildren := hGood.children
    have hGone := hGood.gone
    rw [hControl] at hChildren hGone
    exact
      { rest := hGood.rest
        leaf := hGood.leaf
        parent := hGood.parent
        status := rfl
        gone := by simpa [Task.woken] using hGone
        counter := by simp [hEmpty, Control.self]
        nodup := hGood.nodup
        children := fun c => by
          rw [hHelpers, hChildren c]
          simp
        spawned := fun _ _ hEq => by cases hEq
        stolen := fun hNe => absurd hEmpty hNe
        suspended := fun hEq => by cases hEq
        waiting := fun hEq => by cases hEq
        unsynched := fun hEq => by cases hEq }
  have hTouches := touches_own (L := L) L
    (M := fun v => v = w ∨ v = u) hAct hHolder (Or.inl rfl)
    hActs hTasks
    (fun v hv => Or.inr (Option.some.inj hv).symm) (by simp)
  have hKeeps := keeps_own hTouches hOrders hCarried
    hAct hHolder (Or.inl rfl) w
  have hActA := hActs a
  rw [if_pos rfl] at hActA
  have hTaskA := hTasks a
  rw [if_pos rfl] at hTaskA
  have hDequeU : (s.workers u).deque = [] := by
    rcases hu with rfl | hIdle
    · exact hBehind.deque
    · exact (h.master_idle hIdle).1
  refine ⟨t', h.stay hOrders (h.moves_own hTouches ?_
    (hStep.reachable h.reach) hCarried hActs hNextA hTasks hNextT
    hHelpers hGood' hResumed.other ?_ ?_ ?_ ?_ ?_)⟩
  · intro v c k hv hHolds
    have hvw : v = w ∨ (s.workers v).pc = .idle := by
      rcases hv with rfl | rfl
      · exact Or.inl rfl
      · exact hu
    rcases hvw with rfl | hIdle
    · rw [hPc] at hHolds
      cases hHolds
      rfl
    · rw [(h.master_idle hIdle).2] at hHolds
      cases hHolds
  · intro v hv
    cases hv
    rw [hResumed.self]
    rfl
  · intro v c k hv hHolds
    exact hResumed.holds hv hHolds
  · intro v hv
    refine hResumed.stack hBehind.deque hDequeU hBehind.frames
      hTaskA ?_ ?_ hv
    · have hFrame := hBehind.frame.keep hKeeps.toCopies
      rw [← hHelper] at hFrame
      exact hFrame
    · exact hBehind.own.give hKeeps
        (by simp [State.see, hTaskA])
        (fun _ _ => by simp [State.see, hActA])
  · refine ⟨(fun _ h => by cases h), fun _ _ => ?_⟩
    have hWaits := (hTree.ok a x hGet).waits hWaiting
    exact (h.opens a x hGet).1 x.path hWaits
  · exact ⟨[], by simp [hStrands], by simp [hLog], by simp⟩

/- A sync with children is suspended. -/
theorem sync_suspend
    (h : Simulates main L t s)
    (hPc : (s.workers w).pc = .syncing a)
    {act : Activation Worker}
    (hAct : s.acts.get a = some act)
    (hChildren : act.children ≠ []) :
    Simulates main L t ((s.modify a fun r =>
      { r with
        joinCounter := act.joinCounter - 1
        control := .suspended }).setPc w .idle) := by
  have hStack := h.shadows w
  unfold View.Stack at hStack
  rw [hPc] at hStack
  rcases hStack with ⟨x, f, fs, hGet, hBehind⟩
  replace hGet : t.get a = some x := hGet
  rcases h.held_by (w := w) (a := a) (k := .syncing w)
    (by rw [hPc]; rfl) with
    ⟨v, y, hv, hControl, hy, hGood⟩
  obtain rfl := Option.some.inj (hAct.symm.trans hv)
  obtain rfl := Option.some.inj (hGet.symm.trans hy)
  clear hv hy
  obtain ⟨s', hs', hAfter⟩ :
      ∃ s', (s.modify a fun r =>
        { r with
          joinCounter := act.joinCounter - 1
          control := .suspended }).setPc w .idle = s' ∧
        After s s' w { s.workers w with pc := .idle }
          (s.acts.modify a fun r =>
            { r with
              joinCounter := act.joinCounter - 1
              control := .suspended }) s.strands := by
    refine ⟨_, rfl, rfl, rfl, ?_, ?_, rfl⟩
    · simp [State.setPc, State.setWorker, State.modify]
    · intro u hu
      simp [State.setPc, State.setWorker, State.modify, hu]
  rw [hs']
  have hActs : ∀ c, s'.acts.get c =
      if c = a then some
        ({ act with
          joinCounter := act.joinCounter - 1
          control := .suspended } : Activation Worker)
      else s.acts.get c := by
    intro c
    rw [hAfter.acts, get_change_act hAct]
  have hTasks : ∀ c, t.get c =
      if c = a then some x else t.get c := by
    intro c
    split
    · next hc => rw [hc, hGet]
    · rfl
  have hHolder : act.control.holder = some w := by
    rw [hControl]
    rfl
  have hGood' : Good t a
      ({ act with
        joinCounter := act.joinCounter - 1
        control := .suspended } : Activation Worker) x := by
    have hCounter := hGood.counter
    have hMem := hGood.children
    have hGone := hGood.gone
    have hStatus := hGood.status
    rw [hControl] at hCounter hMem hGone hStatus
    exact
      { rest := hGood.rest
        leaf := hGood.leaf
        parent := hGood.parent
        status := hStatus
        gone := by simpa using hGone
        counter := by simp [hCounter, Control.self]
        nodup := hGood.nodup
        children := fun c => by
          rw [hMem c]
          simp
        spawned := fun _ _ hEq => by cases hEq
        stolen := hGood.stolen
        suspended := fun _ => hChildren
        waiting := hGood.waiting
        unsynched := hGood.unsynched }
  have hTouches := touches_own (L := L) L (M := (· = w)) hAct
    hHolder rfl hActs hTasks (fun _ h => by cases h) (by simp)
  have hCarried := Tasks.Carried.refl h.sound.tree
  refine h.stay hAfter.orders (h.moves_own hTouches ?_ h.reach
    hCarried hActs (by rw [hAfter.acts, Heap.next_modify])
    hTasks rfl (fun _ _ => Iff.rfl) hGood' hAfter.other
    (fun _ h => by cases h) ?_ ?_ (h.opens a x hGet) ?_)
  · rintro v c k rfl hHolds
    rw [hPc] at hHolds
    cases hHolds
    rfl
  · rintro v c k rfl hHolds
    rw [hAfter.self] at hHolds
    cases hHolds
  · rintro v rfl
    rw [hAfter.self]
    exact hBehind.deque
  · exact ⟨[], by simp [hAfter.strands], by simp, by simp⟩

/- `do_sync` -/
theorem sync
    (h : Simulates main L t s)
    (hPc : (s.workers w).pc = .syncing a)
    {master : Option Worker}
    (hMaster : MasterWaits s w master) :
    ∃ s' t', s.sync w master = some s' ∧
      Simulates main L t' s' := by
  rcases h.held_by (w := w) (a := a) (k := .syncing w)
    (by rw [hPc]; rfl) with
    ⟨act, x, hAct, hControl, -, hGood⟩
  have hCounter := hGood.counter
  rw [hControl] at hCounter
  have hPos : act.joinCounter ≠ 0 := by
    simp [hCounter, Control.self]
  unfold State.sync
  rw [hPc]
  simp only [hAct, Option.bind_some, if_neg hPos]
  by_cases hEmpty : act.children = []
  · have hOne : act.joinCounter = 1 := by
      simp [hCounter, hEmpty, Control.self]
    rcases h.sync_resume hPc hMaster hAct hEmpty with
      ⟨t', hSimulates⟩
    rw [if_pos hOne]
    exact ⟨_, t', rfl, hSimulates⟩
  · have hMore : act.joinCounter ≠ 1 := by
      simp [hCounter, hEmpty, Control.self]
    rw [if_neg hMore]
    exact ⟨_, t, rfl, h.sync_suspend hPc hAct hEmpty⟩

------------------------------------------------------------
-- Returns From Spawns
------------------------------------------------------------

/- A helper whose parent still waits for others. -/
theorem return_wait
    (h : Simulates main L t s)
    (hPc : (s.workers w).pc = .returning a)
    {actB : Activation Worker} {x : Task} {q : Path}
    {f : FrameData} {fs : List FrameData}
    (hLink : (s.see L t).Link a true b x)
    (hActB : s.acts.get b = some actB)
    (hMem : a ∈ actB.children)
    (hBehind : (s.see L t).Behind w (s.workers w) b q f fs)
    (hMore : actB.joinCounter ≠ 1) :
    ∃ t', Simulates main L t' (((s.free a).modify b fun r =>
      { r with
        joinCounter := actB.joinCounter - 1
        children := actB.children.erase a }).setPc w .idle) := by
  rcases h.held_by (w := w) (a := a) (k := .returning w)
    (by rw [hPc]; rfl) with
    ⟨act, z, hAct, hControl, hGet, hGood⟩
  have hGone : z.rest = .gone := hGood.gone.mpr ⟨w, hControl⟩
  have hReady : z.status = .ready := by
    rw [← hGood.status, hControl]
    rfl
  have hx : t.get b = some x := hLink.2
  rcases h.acts.good b actB hActB with ⟨y, hy, hGoodB⟩
  obtain rfl := Option.some.inj (hx.symm.trans hy)
  clear hy
  have hTree := h.sound.tree
  have hParent := (hLink.eq hGet).1
  have hba : b ≠ a := by
    rcases hTree.child a z b hGet hParent with ⟨_, -, hChild⟩
    exact Nat.ne_of_lt hChild.lt
  obtain ⟨s', hs', hAfter⟩ :
      ∃ s', ((s.free a).modify b fun r =>
        { r with
          joinCounter := actB.joinCounter - 1
          children := actB.children.erase a }).setPc w .idle =
            s' ∧
        After s s' w { s.workers w with pc := .idle }
          ((s.acts.free a).modify b fun r =>
            { r with
              joinCounter := actB.joinCounter - 1
              children := actB.children.erase a })
          s.strands := by
    refine ⟨_, rfl, rfl, rfl, ?_, ?_, rfl⟩
    · simp [State.setPc, State.setWorker, State.modify,
        State.free]
    · intro u hu
      simp [State.setPc, State.setWorker, State.modify,
        State.free, hu]
  rw [hs']
  have hActs : ∀ c, s'.acts.get c =
      if c = b then some
        ({ actB with
          joinCounter := actB.joinCounter - 1
          children := actB.children.erase a } :
            Activation Worker)
      else if c = a then none else s.acts.get c := by
    intro c
    have hFree : (s.acts.free a).get b = some actB := by
      rw [Heap.get_free, if_neg hba]
      exact hActB
    rw [hAfter.acts, get_change_act hFree, Heap.get_free]
  have hStep := Tasks.Step.join hGet hReady hGone
  have hCarried := hStep.carried hTree
  have hTasks : ∀ c, (t.join a).get c =
      if c = b then some x
      else if c = a then none else t.get c := by
    intro c
    rw [Tasks.get_join]
    by_cases hcb : c = b
    · rw [if_pos hcb, hcb, if_neg hba, hx]
    · rw [if_neg hcb]
  have hHolder : act.control.holder = some w := by
    rw [hControl]
    rfl
  have hTouches := touches_join (L := L) (M := (· = w)) hAct
    hHolder rfl hba hActB hActs hTasks
    (Or.inl ⟨rfl, rfl, hx⟩)
  have hLength := List.length_erase_of_mem hMem
  have hPos := List.length_pos_of_mem hMem
  have hCounter := hGoodB.counter
  have hGood' : Good (t.join a) b
      ({ actB with
        joinCounter := actB.joinCounter - 1
        children := actB.children.erase a } :
          Activation Worker) x :=
    { rest := hGoodB.rest
      leaf := hGoodB.leaf
      parent := hGoodB.parent
      status := hGoodB.status
      gone := hGoodB.gone
      counter := by
        simp only
        omega
      nodup := hGoodB.nodup.erase a
      children := fun c => by
        rw [hGoodB.nodup.mem_erase_iff, hGoodB.children c,
          Tasks.helperOf_join, and_assoc]
      spawned := fun c v hc => by
        rw [Tasks.helperOf_join]
        refine ⟨?_, hGoodB.spawned c v hc⟩
        rintro rfl
        exact ((hGoodB.children c).mp hMem).2 v hc
      stolen := fun _ =>
        hGoodB.stolen (List.ne_nil_of_mem hMem)
      suspended := fun hc hNil => by
        simp only at hc hNil
        rw [hc] at hCounter
        rw [hNil, List.length_nil] at hLength
        simp only [Control.self] at hCounter
        omega
      waiting := hGoodB.waiting
      unsynched := hGoodB.unsynched }
  refine ⟨_, h.stay hAfter.orders (h.moves_join hba hTouches ?_
    (hStep.reachable h.reach) hCarried hActs (by rw [hAfter.acts]; rfl)
    hTasks rfl ?_ hGood' hAfter.other ?_ ?_ ?_ (h.opens b x hx)
    ?_)⟩
  · rintro v c k rfl hHolds
    rw [hPc] at hHolds
    cases hHolds
    rfl
  · intro c d _ hcb
    rw [Tasks.helperOf_join, and_iff_right_iff_imp]
    rintro ⟨u, hu, hParentU, -⟩ rfl
    obtain rfl := Option.some.inj (hGet.symm.trans hu)
    exact hcb (Option.some.inj (hParentU.symm.trans hParent))
  · intro v hv
    have hOld := h.held.holder b actB v hActB hv
    have hvw : v ≠ w := by
      rintro rfl
      rw [hPc] at hOld
      simp only [WorkerPc.holds, Option.some.injEq,
        Prod.mk.injEq] at hOld
      exact hba hOld.1.symm
    rw [hAfter.other v hvw]
    exact hOld
  · rintro v c k rfl hHolds
    rw [hAfter.self] at hHolds
    cases hHolds
  · rintro v rfl
    rw [hAfter.self]
    exact hBehind.deque
  · exact ⟨[], by simp [hAfter.strands], by simp [Tasks.join],
      by simp⟩

/- The last helper of a suspended parent. -/
theorem return_last
    (h : Simulates main L t s)
    (hPc : (s.workers w).pc = .returning a)
    {master : Option Worker}
    (hMaster : MasterWaits s w master)
    {actB : Activation Worker} {x : Task} {q : Path}
    {f : FrameData} {fs : List FrameData}
    (hLink : (s.see L t).Link a true b x)
    (hPending : x.pending = some q)
    (hActB : s.acts.get b = some actB)
    (hMem : a ∈ actB.children)
    (hBehind : (s.see L t).Behind w (s.workers w) b q f fs)
    (hOne : actB.joinCounter = 1) :
    ∃ t', Simulates main L t' (((s.free a).modify b fun r =>
      { r with
        joinCounter := actB.joinCounter - 1
        children := actB.children.erase a }).resume w master
          b) := by
  rcases h.held_by (w := w) (a := a) (k := .returning w)
    (by rw [hPc]; rfl) with
    ⟨act, z, hAct, hControl, hGet, hGood⟩
  have hGone : z.rest = .gone := hGood.gone.mpr ⟨w, hControl⟩
  have hReady : z.status = .ready := by
    rw [← hGood.status, hControl]
    rfl
  have hx : t.get b = some x := hLink.2
  rcases h.acts.good b actB hActB with ⟨y, hy, hGoodB⟩
  obtain rfl := Option.some.inj (hx.symm.trans hy)
  clear hy
  have hTree := h.sound.tree
  have hParent := (hLink.eq hGet).1
  have hba : b ≠ a := by
    rcases hTree.child a z b hGet hParent with ⟨_, -, hChild⟩
    exact Nat.ne_of_lt hChild.lt
  -- The parent is suspended, and has no other child.
  have hLength := List.length_erase_of_mem hMem
  have hPos := List.length_pos_of_mem hMem
  have hCounter := hGoodB.counter
  have hControlB : actB.control = .suspended := by
    by_contra hNot
    have hSelf : actB.control.self = 1 := by
      cases hKind : actB.control with
      | suspended => exact absurd hKind hNot
      | _ => rfl
    omega
  have hEmpty : actB.children.erase a = [] := by
    rw [hControlB] at hCounter
    simp only [Control.self] at hCounter
    exact List.eq_nil_of_length_eq_zero (by omega)
  have hWaiting : x.status = .waiting := by
    rw [← hGoodB.status, hControlB]
    rfl
  have hOk := hTree.ok b x hx
  have hPath : x.path = q := by
    have hWaits := hOk.waits hWaiting
    rw [hPending] at hWaits
    exact (Option.some.inj hWaits).symm
  have hHelper := hLink.not_helper hTree
  have hu := master_getD hMaster
  let s₁ := (s.free a).modify b fun r =>
    { r with
      joinCounter := actB.joinCounter - 1
      children := actB.children.erase a }
  show ∃ t', Simulates main L t' (s₁.resume w master b)
  have hResumed₁ := resumed s₁ w master b
  have hResumed : Resumed s (s₁.resume w master b) w
      (master.getD w) b :=
    ⟨hResumed₁.self, hResumed₁.idle, hResumed₁.other⟩
  have hOrders : (s₁.resume w master b).orders = s.orders := rfl
  have hNextA : (s₁.resume w master b).acts.next =
      s.acts.next := rfl
  have hStrands : (s₁.resume w master b).strands =
      s.strands := rfl
  have hActs : ∀ c, (s₁.resume w master b).acts.get c =
      if c = b then some
        ({ actB with
          joinCounter := 1
          unsynched := false
          children := actB.children.erase a
          control := .running (master.getD w) } :
            Activation Worker)
      else if c = a then none else s.acts.get c := by
    intro c
    have hFree : (s.acts.free a).get b = some actB := by
      rw [Heap.get_free, if_neg hba]
      exact hActB
    have hMid : s₁.acts.get b = some
        ({ actB with
          joinCounter := actB.joinCounter - 1
          children := actB.children.erase a } :
            Activation Worker) :=
      Heap.get_modify_self _ hFree
    refine (get_change_act hMid c).trans ?_
    by_cases hcb : c = b
    · simp [hcb]
    · rw [if_neg hcb, if_neg hcb]
      refine (get_change_act hFree c).trans ?_
      rw [if_neg hcb, Heap.get_free]
  generalize master.getD w = u at hu hResumed hActs
  generalize s₁.resume w master b = s' at *
  -- The helper is joined, and the parent goes on at once.
  have hJoin := Tasks.Step.join hGet hReady hGone
  have hSoundJoin := h.sound.step hJoin
  have hGetJoin : (t.join a).get b = some x := by
    rw [Tasks.get_join, if_neg hba, hx]
  have hChildless : (t.join a).Childless b := by
    intro c y hc hParentC
    rcases hSoundJoin.tree.child c y b hc hParentC with
      ⟨v, hv, hChild⟩
    obtain rfl := Option.some.inj (hGetJoin.symm.trans hv)
    cases hHelperC : y.rest.isHelper with
    | false =>
        have hCalling := hChild.calling hHelperC
        rw [hWaiting] at hCalling
        cases hCalling
    | true =>
        have hHelperOf : (t.join a).HelperOf c b :=
          ⟨y, hc, hParentC, hHelperC⟩
        rw [Tasks.helperOf_join] at hHelperOf
        have hMemC := (hGoodB.children c).mpr
          ⟨hHelperOf.2, by rw [hControlB]; simp⟩
        have hErase := hGoodB.nodup.mem_erase_iff.mpr
          ⟨hHelperOf.1, hMemC⟩
        rw [hEmpty] at hErase
        cases hErase
  obtain ⟨t', hStep, hTasks, hHelpers, hNextT, hLog⟩ :
      ∃ t' : Tasks, (t.join a).Step t' ∧
        (∀ c, t'.get c =
          if c = b then some x.woken
          else if c = a then none else t.get c) ∧
        (∀ c d, t'.HelperOf d c ↔ d ≠ a ∧ t.HelperOf d c) ∧
        t'.heap.next = t.heap.next ∧ t'.log = t.log := by
    refine ⟨_, Tasks.Step.wake hGetJoin hWaiting hChildless,
      ?_, ?_, rfl, List.append_nil _⟩
    · intro c
      rw [Tasks.get_change hGetJoin, Tasks.get_join]
    · intro c d
      rw [Tasks.helperOf_change x.woken hGetJoin rfl rfl,
        Tasks.helperOf_join]
  have hCarried := (hJoin.carried hTree).trans
    (hStep.carried hSoundJoin.tree)
  have hHolder : act.control.holder = some w := by
    rw [hControl]
    rfl
  have hTouches := touches_join (L := L)
    (M := fun v => v = w ∨ v = u) hAct hHolder (Or.inl rfl)
    hba hActB hActs hTasks (Or.inr (by
      rw [hControlB]
      refine ⟨⟨(fun _ h => by cases h), by simp, by simp⟩, ?_, by simp⟩
      intro v hv
      exact Or.inr (Option.some.inj hv).symm))
  have hKeeps := keeps_join hTouches hOrders hCarried hAct
    hHolder hActB (by rw [hControlB]; simp) w
  have hTaskB := hTasks b
  rw [if_pos rfl] at hTaskB
  have hActB' := hActs b
  rw [if_pos rfl] at hActB'
  have hGood' : Good t' b
      ({ actB with
        joinCounter := 1
        unsynched := false
        children := actB.children.erase a
        control := .running u } : Activation Worker)
      x.woken := by
    have hGoneB := hGoodB.gone
    rw [hControlB] at hGoneB
    exact
      { rest := hGoodB.rest
        leaf := hGoodB.leaf
        parent := hGoodB.parent
        status := rfl
        gone := by simpa [Task.woken] using hGoneB
        counter := by simp [hEmpty, Control.self]
        nodup := hGoodB.nodup.erase a
        children := fun c => by
          rw [hGoodB.nodup.mem_erase_iff, hGoodB.children c,
            hHelpers, hControlB]
          simp
        spawned := fun _ _ hEq => by cases hEq
        stolen := fun hNe => absurd hEmpty hNe
        suspended := fun hEq => by cases hEq
        waiting := fun hEq => by cases hEq
        unsynched := fun hEq => by cases hEq }
  have hDequeU : (s.workers u).deque = [] := by
    rcases hu with rfl | hIdle
    · exact hBehind.deque
    · exact (h.master_idle hIdle).1
  refine ⟨t', h.stay hOrders (h.moves_join hba hTouches ?_
    (hStep.reachable (hJoin.reachable h.reach)) hCarried hActs
    hNextA hTasks hNextT
    ?_ hGood' hResumed.other ?_ ?_ ?_ ?_ ?_)⟩
  · intro v c k hv hHolds
    have hvw : v = w ∨ (s.workers v).pc = .idle := by
      rcases hv with rfl | rfl
      · exact Or.inl rfl
      · exact hu
    rcases hvw with rfl | hIdle
    · rw [hPc] at hHolds
      cases hHolds
      rfl
    · rw [(h.master_idle hIdle).2] at hHolds
      cases hHolds
  · intro c d _ hcb
    rw [hHelpers, and_iff_right_iff_imp]
    rintro ⟨v, hv, hParentV, -⟩ rfl
    obtain rfl := Option.some.inj (hGet.symm.trans hv)
    exact hcb (Option.some.inj (hParentV.symm.trans hParent))
  · intro v hv
    cases hv
    rw [hResumed.self]
    rfl
  · intro v c k hv hHolds
    exact hResumed.holds hv hHolds
  · intro v hv
    refine hResumed.stack hBehind.deque hDequeU hBehind.frames
      hTaskB ?_ ?_ hv
    · have hFrame := hBehind.frame.keep hKeeps.toCopies
      rw [← hPath, ← hHelper] at hFrame
      exact hFrame
    · exact hBehind.own.give hKeeps
        (by simp [State.see, hTaskB])
        (fun _ _ => by simp [State.see, hActB'])
  · refine ⟨(fun _ h => by cases h), fun _ _ => ?_⟩
    exact (h.opens b x hx).1 x.path (hOk.waits hWaiting)
  · exact ⟨[], by simp [hStrands], by simp [hLog], by simp⟩

/- `do_return_from_spawn` -/
theorem returnFromSpawn
    (h : Simulates main L t s)
    (hPc : (s.workers w).pc = .returning a)
    {master : Option Worker}
    (hMaster : MasterWaits s w master) :
    ∃ s' t', s.returnFromSpawn w master = some s' ∧
      Simulates main L t' s' := by
  have hStack := h.shadows w
  unfold View.Stack at hStack
  rw [hPc] at hStack
  rcases hStack with
    ⟨b, x, q, f, fs, hLink, hPending, hStolen, hBehind⟩
  rcases h.held_by (w := w) (a := a) (k := .returning w)
    (by rw [hPc]; rfl) with ⟨act, z, hAct, -, hGet, hGood⟩
  have hParent : act.parent = some b :=
    hGood.parent.trans (hLink.eq hGet).1
  rcases h.acts.live b x hLink.2 with ⟨actB, hActB⟩
  rcases h.acts.good b actB hActB with ⟨y, hy, hGoodB⟩
  have hMem : a ∈ actB.children :=
    (hGoodB.children a).mpr
      ⟨hLink.1, fun v => hStolen actB v hActB⟩
  have hPos : actB.joinCounter ≠ 0 := by
    have hLength := List.length_pos_of_mem hMem
    have hCounter := hGoodB.counter
    omega
  unfold State.returnFromSpawn
  rw [hPc]
  simp only [hAct, Option.bind_some, hParent, hActB,
    if_neg hPos]
  by_cases hOne : actB.joinCounter = 1
  · rcases h.return_last hPc hMaster hLink hPending hActB hMem
      hBehind hOne with ⟨t', hSimulates⟩
    rw [if_pos hOne]
    exact ⟨_, t', rfl, hSimulates⟩
  · rcases h.return_wait hPc hLink hActB hMem hBehind hOne with
      ⟨t', hSimulates⟩
    rw [if_neg hOne]
    exact ⟨_, t', rfl, hSimulates⟩

end Simulates

end WorkStealing

end PRacer
