import Mathlib.Tactic.Common
import PRacer.Piper.Completion

/-
  The steps of the worker that executes the control frame
  keep the invariant while the current iteration is its
  attached child.

  Main declarations:
    * `Inv.of_control`, `Positions.moveCurrent`
    * `Inv.initIter`, `Inv.pop`, `Inv.exitMove`,
      `Inv.exitFreeLeft`, `Inv.exitFreeOwn`
-/

------------------------------------------------------------
-- The Worker of the Control Frame
------------------------------------------------------------

namespace PRacer

namespace Piper

open PipeState

variable {W P R : Type} {K : ℕ}
variable {s t : PipeState W P R K}

/- Who executes the control frame is the only one to have it. -/
theorem Inv.of_task_control
    {w : W}
    (h : Inv s)
    (hTask : (s.worker w).task = .control) :
    (∀ w', w' ≠ w → ¬ s.HoldsControl w') ∧
      (∀ w', ¬ s.Resumes w') ∧
      s.control.resumeFlags = .normalCilk ∧
      s.control.pc ≠ .suspended ∧ s.control.pc ≠ .synced := by
  have hCpc := (h.tasks.task w).control hTask
  refine ⟨h.tasks.others_control (Or.inl hTask),
    h.not_resumes hCpc.1, h.flags.executing w hTask, hCpc⟩

/-
  The current iteration, which is an attached child before or
  after the step, moves on together with the control frame.
-/
theorem Positions.moveCurrent
    {p : IterPc}
    (h : Positions s)
    (hPc : t.pc = Function.update s.pc s.cur p)
    (hCur : t.cur = s.cur)
    (hFull :
      s.control.hasFullFrame = true →
        t.control.hasFullFrame = true)
    (hAhead :
      p = .notStarted ↔ t.control.pc.ahead = true)
    (hChild :
      ∀ b, t.control.pc = .child b → p.place = .executing)
    (hPopped :
      t.control.pc = .popped ↔ p.place = .exiting)
    (hEnd :
      t.control.hasFullFrame = false → p ≠ .notStarted →
        t.control.pc.attached = false → p = .finished)
    (hOwn :
      (s.pc s.cur).freedOwn = true → p.freedOwn = true)
    (hLeft :
      (s.pc s.cur).freedLeft = true → p.freedLeft = true)
    (hPassing : t.control.pc ≠ .passing) :
    Positions t := by
  have hApply : ∀ j,
      t.pc j = if j = s.cur then p else s.pc j := by
    intro j
    rw [hPc, Function.update_apply]
  have hFreed : ∀ j, s.Freed j → t.Freed j := by
    intro j hFreed
    unfold Freed rightFreed at hFreed ⊢
    rw [hApply, hApply]
    constructor
    · split
      · rename_i hEq
        exact hOwn (hEq ▸ hFreed.1)
      · exact hFreed.1
    · split
      · rename_i hEq
        exact hLeft (hEq ▸ hFreed.2)
      · exact hFreed.2
  have hPos := h.curPos
  constructor
  · exact h.ring
  · rw [hCur]
    exact hPos
  · intro j hJ
    rw [hApply, if_neg (by omega)]
    exact h.before j hJ
  · intro j hJ
    rw [hCur] at hJ
    rw [hApply, if_neg (by omega)]
    exact h.after j hJ
  · intro j hJ
    rw [hCur] at hJ
    rw [hApply, if_neg (by omega)]
    exact h.started j hJ
  · rw [hCur, hApply, if_pos rfl]
    exact hAhead
  · intro b hB
    rw [hCur, hApply, if_pos rfl]
    exact hChild b hB
  · intro hB
    rw [hCur, hApply, if_pos rfl]
    exact hPopped.mp hB
  · intro j hJ
    rw [hApply] at hJ
    rw [hCur]
    split at hJ
    · rename_i hEq
      exact ⟨hEq, hPopped.mpr hJ⟩
    · rename_i hNe
      exact absurd (h.exiting j hJ).1 hNe
  · intro hNone j hJ hStarted hAtt
    have hOld : s.control.hasFullFrame = false := by
      by_contra hNot
      rw [Bool.not_eq_false] at hNot
      rw [hFull hNot] at hNone
      exact Bool.noConfusion hNone
    rw [hCur] at hJ
    rw [hApply] at hStarted ⊢
    split
    · rename_i hEq
      rw [if_pos hEq] at hStarted
      apply hEnd hNone hStarted
      simpa [attachedAt, hCur, hEq] using hAtt
    · rename_i hNe
      rw [if_neg hNe] at hStarted
      apply h.unstolen hOld j hJ hStarted
      simp [attachedAt, hNe]
  · intro j hJ
    rw [hCur] at hJ
    exact hFreed j (h.window j hJ)
  · intro hB
    exact absurd hB hPassing

variable [DecidableEq W]

/-
  A step of the worker that executes the control frame, after
  which it still does.
-/
theorem Inv.of_control
    {w : W}
    (h : Inv s)
    (hTask : (s.worker w).task = .control)
    (hCore : Core t)
    (hWorker : t.worker = s.worker)
    (hPc : ∀ j,
      t.pc j = s.pc j ∨ s.attachedAt j = true ∨
        s.pc j = .notStarted)
    (hAtt : ∀ j,
      t.attachedAt j = s.attachedAt j ∨
        s.attachedAt j = true ∨ s.pc j = .notStarted)
    (hCpc :
      t.control.pc ≠ .suspended ∧ t.control.pc ≠ .synced)
    (hFlags :
      t.control.resumeFlags = s.control.resumeFlags)
    (hJoin :
      t.control.joinCounter =
        t.control.children.card + 1)
    (hContinues :
      t.control.pc = .passing →
        (t.blk (t.cur + 1 - K)).zeroedBy =
          [t.control.continuedBy]) :
    Inv t := by
  rcases h.of_task_control hTask with
    ⟨hHeld, hNoResume, hNormal, -⟩
  have hFlag := h.flags.flag w
  have hNone := hFlag.noParent (Or.inr (Or.inl hTask))
  have hNotHeld : ∀ w' j, s.HoldsIter w' j →
      s.attachedAt j ≠ true ∧ s.pc j ≠ .notStarted := by
    intro w' j hHolds
    constructor
    · intro hEq
      exact h.tasks.not_holds_attached h.core.positions hEq
        w' hHolds
    · intro hEq
      apply h.tasks.not_holds _ _ _ w' hHolds <;>
        simp [hEq, IterPc.place]
  apply h.of_holder (w := w) (v := s.worker w) hCore
  · rw [hWorker, Function.update_eq_self]
  · intro w' j _ hHolds
    have hNot := hNotHeld w' j hHolds
    constructor
    · rcases hPc j with hEq | hEq | hEq
      · exact hEq
      · exact absurd hEq hNot.1
      · exact absurd hEq hNot.2
    · rcases hAtt j with hEq | hEq | hEq
      · exact hEq
      · exact absurd hEq hNot.1
      · exact absurd hEq hNot.2
  · simp [hTask, Task.iters]
  · rw [hTask]
    constructor
    · simp
    · simp
    · simp
    · simp
    · intro _
      exact hCpc
    · simp
  · exact hHeld
  · intro w' _
    exact hNoResume w'
  · exact FlagOk.of_noParent hNone hFlag.onTop hFlag.offTop
  · constructor
    · rw [hFlags, hNormal]
      simpa using hCpc.1
    · rw [hFlags, hNormal]
      simp
    · rw [hFlags, hNormal]
      simp
    · intro _
      rw [hFlags, hNormal]
    · simp [hTask]
    · intro _
      exact hJoin
    · intro hEq
      exact absurd hEq hCpc.2
  · constructor
    · intro hEq
      exact absurd hEq hCpc.1
    · exact hContinues

------------------------------------------------------------
-- Starting an Iteration
------------------------------------------------------------

/- `__cilkrts_piper_init_iter_frame`. -/
theorem Inv.initIter
    {w : W}
    (h : Inv s)
    (hTask : (s.worker w).task = .control)
    (hCpc : s.control.pc = .loopHead) :
    Inv (s.initIterFrame w) ∧
      (s.initIterFrame w).failure = s.failure := by
  have hPos := h.core.positions
  have hK := hPos.ring
  have hCurPos := hPos.curPos
  have hPc : s.pc s.cur = .notStarted :=
    hPos.current.mpr (by rw [hCpc]; rfl)
  have hRing : s.InRing s.cur := ⟨by omega, le_rfl⟩
  have hOk := h.core.blocks _ hRing
  have hRight : s.rightFreed s.cur = false := by
    unfold rightFreed
    rw [hPos.after (s.cur + 1) (by omega)]
    rfl
  have hThr : s.throttledAt s.cur = false := by
    simp [throttledAt, hCpc, ControlPc.throttled]
  rw [hPc, hRight, hThr] at hOk
  have hInUse : (s.blk s.cur).blockStatus = .inUse := by
    cases hStatus : (s.blk s.cur).blockStatus with
    | available =>
        have hBoth := hOk.available.mp hStatus
        simp at hBoth
    | inUse => rfl
  have hStatus := hOk.done (Or.inl rfl)
  have hReset : (s.blk s.cur).isReset = true := by
    apply decide_eq_true
    rw [hOk.counter]
    rfl
  unfold initIterFrame
  dsimp only
  rw [check_eq ⟨hInUse, hStatus, hReset⟩]
  refine ⟨?_, rfl⟩
  generalize hT : setPc _ _ _ = t
  have hControl :
      t.control =
        { s.control with
          parentPedigree := (s.worker w).pedigree
          pc := .child false } := by
    rw [← hT]
    rfl
  have hCur : t.cur = s.cur := by
    unfold cur
    rw [hControl]
  have hAttT : ∀ j,
      t.attachedAt j = decide (j = s.cur) := by
    intro j
    simp [attachedAt, hCur, hControl, ControlPc.attached]
  have hThrT : ∀ j, t.throttledAt j = false := by
    intro j
    simp [throttledAt, hControl, ControlPc.throttled]
  have hChange : Change s t s.cur .body
      { s.blk s.cur with
        iterStatus := .standardExec
        iterNum := s.cur
        stage := stageUserToSys 0
        cachedLeftStage := stageUserToSys 0 } := by
    constructor
    · rw [← hT]
      rfl
    · intro j hJ
      rw [← hT, blk_setPc, blk_setControl]
      exact blk_setBlock_of_inRing hRing hJ _
    · exact hCur
    · intro j hNe
      rw [hAttT, decide_eq_false hNe]
      simp [attachedAt, hCpc, ControlPc.attached]
    · intro j _
      rw [hThrT]
      simp [throttledAt, hCpc, ControlPc.throttled]
  have hRunning := h.flags.running (by simp [hCpc])
  apply h.of_control (t := t) hTask
  · apply h.core.change _ hChange
    · rw [hPc]
      rfl
    · intro _
      rw [hRight, hThrT, hAttT, decide_eq_true rfl]
      constructor
      · exact hOk.counter
      · simp [hInUse, IterPc.freedOwn]
      · exact hOk.marks
      · intro _
        exact hOk.unzeroed rfl
      · simp [IterPc.freedOwn]
      · simp [IterPc.freedOwn]
      · simp [IterPc.isMarked]
      · simp
      · simp
      · simp
      · simp [IterPc.place]
      · simp
      · simp
      · simp
      · intro _ _ _ _
        exact zero_lt_final.le
      · simp [IterPc.posted]
      · simp [IterPc.moved]
    · intro _ _
      have hLeft := (h.core.blocks (s.cur - 1)
        ⟨by omega, by omega⟩).started (by omega)
          (hPos.started _ (by omega))
      exact ⟨hLeft, by simp [IterPc.isMarked]⟩
    · intro hStarted
      exact absurd (hPos.after (s.cur + 1) (by omega))
        hStarted
    · intro j
      rw [hChange.pc_apply, hControl, h.core.children j,
        hAttT]
      split
      · rename_i hEq
        simp [hEq, hPc, IterPc.joined]
      · rename_i hNe
        simp [hNe, attachedAt]
    · apply hPos.moveCurrent hChange.pc hCur
      · rw [hControl]
        exact id
      · simp [hControl, ControlPc.ahead]
      · simp [IterPc.place]
      · simp [hControl, IterPc.place]
      · simp [hControl, ControlPc.attached]
      · simp [hPc, IterPc.freedOwn]
      · simp [hPc, IterPc.freedLeft]
      · simp [hControl]
  · rw [← hT]
    rfl
  · intro j
    rw [hChange.pc_apply]
    split
    · rename_i hEq
      rw [hEq]
      exact Or.inr (Or.inr hPc)
    · exact Or.inl rfl
  · intro j
    by_cases hEq : j = s.cur
    · rw [hEq]
      exact Or.inr (Or.inr hPc)
    · exact Or.inl (hChange.attached j hEq)
  · simp [hControl]
  · rw [hControl]
  · rw [hControl]
    exact hRunning
  · simp [hControl]

------------------------------------------------------------
-- The Attached Exit
------------------------------------------------------------

omit [DecidableEq W] in
/- The control frame is not at a throttle point. -/
theorem PipeState.throttledAt_eq_false
    (hCpc : s.control.pc.throttled = false) (j : ℤ) :
    s.throttledAt j = false := by
  unfold throttledAt
  rw [hCpc]
  rfl

/- `leave_frame` pops the unstolen control frame. -/
theorem Inv.pop
    {w : W}
    (h : Inv s)
    (hTask : (s.worker w).task = .control)
    (hCpc : s.control.pc = .child true)
    (hPc : s.pc s.cur = .leaving) :
    Inv (s.popControl s.cur) := by
  have hPos := h.core.positions
  have hCurPos := hPos.curPos
  have hStarted : s.pc s.cur ≠ .notStarted := by simp [hPc]
  have hRunning := h.flags.running (by simp [hCpc])
  have hAtt : ∀ j, s.attachedAt j = decide (j = s.cur) := by
    intro j
    simp [attachedAt, hCpc, ControlPc.attached]
  have hAttT : ∀ j, (s.popControl s.cur).attachedAt j =
      s.attachedAt j := by
    intro j
    rw [hAtt]
    rfl
  have hThrT : ∀ j, (s.popControl s.cur).throttledAt j =
      s.throttledAt j := by
    intro j
    rw [throttledAt_eq_false (s := s) (by rw [hCpc]; rfl),
      throttledAt_eq_false]
    rfl
  have hChange : Change s (s.popControl s.cur) s.cur
      (.exiting .move) (s.blk s.cur) := by
    constructor
    · rfl
    · intro j _
      split
      · rename_i hEq
        rw [hEq]
        rfl
      · rfl
    · rfl
    · intro j _
      exact hAttT j
    · intro j _
      exact hThrT j
  apply h.of_control (t := s.popControl s.cur) hTask
  · apply h.core.alike hChange
    · apply hPos.moveCurrent hChange.pc rfl id
      · simp [popControl, ControlPc.ahead]
      · simp [popControl]
      · simp [popControl, IterPc.place]
      · simp [popControl, ControlPc.attached]
      · simp [hPc, IterPc.freedOwn]
      · simp [hPc, IterPc.freedLeft]
      · simp [popControl]
    · rw [hPc]
      constructor <;> simp [IterPc.isMarked, IterPc.posted,
        IterPc.moved, IterPc.joined, IterPc.place]
    · rw [hPc]
      rfl
    · rw [hPc]
      rfl
    · exact hAttT _
    · exact hThrT _
    · rfl
    · right
      rw [hPos.after (s.cur + 1) (by omega)]
      simp [IterPc.isMarked]
    · intro j
      rw [hChange.pc_apply, hAttT]
      change j ∈ s.control.children ↔ _
      rw [h.core.children j]
      split
      · rename_i hEq
        rw [hEq, hAtt]
        simp
      · rfl
  · rfl
  · intro j
    rw [hChange.pc_apply]
    split
    · rename_i hEq
      right
      left
      rw [hEq, hAtt, decide_eq_true rfl]
    · exact Or.inl rfl
  · intro j
    exact Or.inl (hAttT j)
  · simp [popControl]
  · rfl
  · exact hRunning
  · simp [popControl]

/- `piper_move_iter_stage_to_done` of an attached child. -/
theorem Inv.exitMove
    {w : W}
    (h : Inv s)
    (hTask : (s.worker w).task = .control)
    (hCpc : s.control.pc = .popped)
    (hPc : s.pc s.cur = .exiting .move) :
    Inv (s.exitMove s.cur) ∧
      (s.exitMove s.cur).failure = s.failure := by
  have hPos := h.core.positions
  have hCurPos := hPos.curPos
  have hK := hPos.ring
  have hStarted : s.pc s.cur ≠ .notStarted := by simp [hPc]
  have hRing : s.InRing s.cur := ⟨by omega, le_rfl⟩
  have hPosted : (s.pc s.cur).posted = true := by
    rw [hPc]
    rfl
  have hStage := (h.core.blocks _ hRing).posted hPosted
  have hRunning := h.flags.running (by simp [hCpc])
  have hState : s.exitMove s.cur =
      (s.setBlock s.cur
        { s.blk s.cur with
          stage := runtimeFinishIterStage
          dataLock := (s.blk s.cur).dataLock }).setPc
            s.cur (.exiting .freeLeft) := by
    unfold PipeState.exitMove moveIterStageToDone
    rw [check_eq hStage]
  rw [hState]
  refine ⟨?_, rfl⟩
  have hChange := change_setBlock_setPc s hRing
    (.exiting .freeLeft)
    { s.blk s.cur with
      stage := runtimeFinishIterStage
      dataLock := (s.blk s.cur).dataLock }
  apply h.of_control hTask
  · apply h.core.movedOn _ hChange rfl hPosted
      (by rw [hPc]; rfl) (by rw [hPc]; rfl) rfl rfl rfl rfl
      rfl (by simp [IterPc.place]) (by simp)
      (by rw [hPc]; rfl) (by rw [hPc]; rfl)
    · right
      rw [hPos.after (s.cur + 1) (by omega)]
      rfl
    · apply hPos.move hChange.pc rfl (Or.inl rfl) rfl hStarted
        (by simp [hPc]) (by simp)
      · simp [hPc, IterPc.freedOwn]
      · simp [hPc, IterPc.freedLeft]
      · left
        rw [hPc]
        rfl
  · rfl
  · intro j
    rw [hChange.pc_apply]
    split
    · rename_i hEq
      right
      left
      rw [hEq]
      simp [attachedAt, hCpc, ControlPc.attached]
    · exact Or.inl rfl
  · intro j
    exact Or.inl rfl
  · simp [hCpc]
  · rfl
  · exact hRunning
  · simp [hCpc]

/- The decrement of the left block in an attached exit. -/
theorem Inv.exitFreeLeft
    {w : W}
    (h : Inv s)
    (hTask : (s.worker w).task = .control)
    (hCpc : s.control.pc = .popped)
    (hPc : s.pc s.cur = .exiting .freeLeft) :
    Keeps s (s.exitFreeLeft s.cur) := by
  have hPos := h.core.positions
  have hCurPos := hPos.curPos
  have hStarted : s.pc s.cur ≠ .notStarted := by simp [hPc]
  have hFinished : s.pc s.cur ≠ .finished := by simp [hPc]
  have hO : (s.pc s.cur).freedLeft = false := by
    rw [hPc]
    rfl
  have hRing := hPos.inRing_left hStarted hO
  have hRunning := h.flags.running (by simp [hCpc])
  have hThr : ∀ j, s.throttledAt j = false :=
    throttledAt_eq_false (by rw [hCpc]; rfl)
  unfold PipeState.exitFreeLeft
  rcases h.core.tryFreeLeft (w := none)
    (q := .attachedExit s.cur) hCurPos hStarted hO
    (fun _ => hThr _) with hFail | ⟨hLeft, hFree⟩
  · rw [hFail]
    exact Or.inl ⟨rfl, rfl⟩
  · rw [hFree]
    right
    refine ⟨?_, freeBlock_failure _ _ _ _⟩
    generalize hT : setPc _ _ _ = t
    have hPcT : t.pc =
        Function.update s.pc s.cur (.exiting .freeOwn) := by
      rw [← hT]
      unfold setPc
      rw [freeBlock_pc]
    have hControl : t.control = s.control := by
      rw [← hT]
      exact freeBlock_control _ _ _ _
    have hCur : t.cur = s.cur := by
      unfold cur
      rw [hControl]
    have hAttT : ∀ j, t.attachedAt j = s.attachedAt j := by
      intro j
      unfold attachedAt
      rw [hCur, hControl]
    apply h.of_control hTask
    · apply h.core.freeLeft (i := s.cur)
        (p := .exiting .freeOwn) (q := .attachedExit s.cur)
        _ hPcT
      · intro j hJ
        rw [← hT, blk_setPc, freeBlock_blk hRing hJ]
        split
        · rename_i hEq
          rw [hEq]
        · rfl
      · exact hControl
      · rw [hPc]
        constructor <;> simp [IterPc.isMarked,
          IterPc.posted, IterPc.moved, IterPc.joined,
          IterPc.place]
      · rw [hPc]
        rfl
      · rw [hPc]
        rfl
      · exact hO
      · rfl
      · right
        rw [hPos.after (s.cur + 1) (by omega)]
        rfl
      · exact hLeft
      · simp [hThr]
      · apply hPos.move hPcT hCur (Or.inl (by rw [hControl]))
          (by rw [hControl]) hStarted hFinished (by simp)
        · simp [hPc, IterPc.freedOwn]
        · simp [hPc, IterPc.freedLeft]
        · left
          rw [hPc]
          rfl
    · rw [← hT]
      rfl
    · intro j
      rw [hPcT, Function.update_apply]
      split
      · rename_i hEq
        right
        left
        rw [hEq]
        simp [attachedAt, hCpc, ControlPc.attached]
      · exact Or.inl rfl
    · intro j
      exact Or.inl (hAttT j)
    · simp [hControl, hCpc]
    · rw [hControl]
    · rw [hControl]
      exact hRunning
    · simp [hControl, hCpc]

/- The decrement of its own block, and the loop goes on. -/
theorem Inv.exitFreeOwn
    {w : W}
    (h : Inv s)
    (hTask : (s.worker w).task = .control)
    (hCpc : s.control.pc = .popped)
    (hPc : s.pc s.cur = .exiting .freeOwn) :
    Keeps s (s.exitFreeOwn s.cur) := by
  have hPos := h.core.positions
  have hCurPos := hPos.curPos
  have hK := hPos.ring
  have hStarted : s.pc s.cur ≠ .notStarted := by simp [hPc]
  have hO : (s.pc s.cur).freedOwn = false := by
    rw [hPc]
    rfl
  have hRing : s.InRing s.cur := ⟨by omega, le_rfl⟩
  have hOk := h.core.blocks _ hRing
  have hRunning := h.flags.running (by simp [hCpc])
  have hThr : ∀ j, s.throttledAt j = false :=
    throttledAt_eq_false (by rw [hCpc]; rfl)
  have hSpec := tryFree_spec (s := s) (j := s.cur)
    (w := none) (q := .attachedExit s.cur) hOk hStarted
    (by rw [hPc]; intro _; rfl) (by simp [hO])
    (fun _ => hThr _)
  unfold PipeState.exitFreeOwn
  rcases hSpec with hFail | ⟨-, hFree⟩
  · rw [hFail]
    exact Or.inl ⟨rfl, rfl⟩
  · rw [hFree]
    right
    refine ⟨?_, freeBlock_failure _ _ _ _⟩
    dsimp only
    generalize hT : setControl _ _ = t
    have hControl : t.control =
        { s.control with pc := .continuation } := by
      rw [← hT]
      simp
    have hCur : t.cur = s.cur := by
      unfold cur
      rw [hControl]
    have hAttT : ∀ j, t.attachedAt j = false := by
      intro j
      unfold attachedAt
      rw [hControl]
      rfl
    have hChange : Change s t s.cur .finished
        { (s.blk s.cur).freed (.attachedExit s.cur) with
          dataLock := (s.blk s.cur).dataLock } := by
      constructor
      · rw [← hT]
        unfold setControl setPc
        rw [freeBlock_pc]
      · intro j hJ
        rw [← hT, blk_setControl, blk_setPc,
          freeBlock_blk hRing hJ,
          ← (Block.freed_rest (s.blk s.cur)
            (.attachedExit s.cur)).2.2.2.2]
      · exact hCur
      · intro j hNe
        rw [hAttT]
        simp [attachedAt, hNe]
      · intro j _
        rw [hThr, throttledAt_eq_false]
        rw [hControl]
        rfl
    apply h.of_control hTask
    · apply h.core.freeOwn _ hChange
      · rw [hPc]
        constructor <;> simp [IterPc.isMarked,
          IterPc.posted, IterPc.moved, IterPc.joined,
          IterPc.place]
      · exact IterPc.alike_self (Or.inr rfl)
      · rfl
      · rw [hPc]
        rfl
      · rfl
      · exact hO
      · rfl
      · rw [hPc]
        rfl
      · exact hAttT _
      · rw [hThr, throttledAt_eq_false]
        rw [hControl]
        rfl
      · simp [hThr]
      · intro j
        rw [hControl, hChange.pc_apply, hAttT]
        dsimp only
        rw [h.core.children j]
        split
        · rename_i hEq
          simp [hEq, hPc, IterPc.joined]
        · rename_i hNe
          simp [attachedAt, hNe]
      · apply hPos.moveCurrent hChange.pc hCur
        · rw [hControl]
          exact id
        · simp [hControl, ControlPc.ahead]
        · simp [hControl]
        · simp [hControl, IterPc.place]
        · simp
        · simp [IterPc.freedOwn]
        · simp [IterPc.freedLeft]
        · simp [hControl]
    · rw [← hT]
      rfl
    · intro j
      rw [hChange.pc_apply]
      split
      · rename_i hEq
        right
        left
        rw [hEq]
        simp [attachedAt, hCpc, ControlPc.attached]
      · exact Or.inl rfl
    · intro j
      by_cases hEq : j = s.cur
      · right
        left
        rw [hEq]
        simp [attachedAt, hCpc, ControlPc.attached]
      · exact Or.inl (hChange.attached j hEq)
    · simp [hControl]
    · rw [hControl]
    · rw [hControl]
      exact hRunning
    · simp [hControl]

end Piper

end PRacer
