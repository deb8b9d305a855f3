import PRacer.Foundations.TransitionSystem
import PRacer.Piper.Model

/-
  The steps of the pipeline runtime.

  Each section that the code protects by a block's lock is
  one step, and so is each unprotected access to a stage
  counter.  A worker that keeps a block's lock over several
  steps marks the block as locked.

  Main declarations:
    * `PipeState.initial`
    * `Action`, `PipeState.enabled`, `PipeState.exec`
    * `pipeSystem`
-/

------------------------------------------------------------
-- The Initial State
------------------------------------------------------------

namespace PRacer

open Foundations

namespace Piper

variable {W P R : Type} {K : ℕ}

namespace PipeState

/-
  `pipe_control_frame_init_data_structures`.  Block 0 is the
  sentinel iteration, block 1 is reserved for the first
  iteration, and the others are available.  The iterations up
  to 0 count as finished.  The remaining fields of the blocks
  are arbitrary.
-/
def initBlock (x : ZMod K) (b : Block) : Block :=
  if x = 0 then
    { b with
      iterNum := 0
      stage := runtimeFinishIterStage
      cleanupCounter :=
        cleanupThrottleVal + cleanupFinishIterVal
      iterStatus := .standardExec
      blockStatus := .inUse
      resumeFlags := .normalCilk
      dataLock := false
      marks := 0
      zeroedBy := [] }
  else if x = 1 then
    { b with
      cleanupCounter := cleanupInitialVal
      iterStatus := .finished
      blockStatus := .inUse
      resumeFlags := .normalCilk
      dataLock := false
      marks := 0
      zeroedBy := [] }
  else
    { b with
      cleanupCounter := cleanupThrottleVal
      iterStatus := .finished
      blockStatus := .available
      resumeFlags := .normalCilk
      dataLock := false
      marks := 1
      zeroedBy := [] }

/- Worker `w₀` enters the loop; the others look for work. -/
def initial [DecidableEq W]
    (garbage : ZMod K → Block) (w₀ : W)
    (pedigree : W → Pedigree P) (reducerMap : W → Option R) :
    PipeState W P R K where
  block x := initBlock x (garbage x)
  control :=
    { currentIter := 1
      hasFullFrame := false
      resumeFlags := .normalCilk
      joinCounter := 1
      children := ∅
      parentPedigree := pedigree w₀
      pedigreeUnsynched := false
      savedReducerMap := none
      pc := .loopHead
      continuedBy := .control
      atSuspend := (pedigree w₀, none)
      events := [] }
  worker w :=
    { task := if w = w₀ then .control else .idle
      parentResume := .noParent
      iterFfOnTop := false
      workStolen := false
      pedigree := pedigree w
      reducerMap := reducerMap w
      flagSetBy := .control }
  pc i := if i ≤ 0 then .finished else .notStarted
  failure := none
  suspensions _ := 0
  resumptions _ := 0

------------------------------------------------------------
-- Iterations
------------------------------------------------------------

variable [DecidableEq W]

/-
  `CILK_STAGE_ADVANCE_BODY`: publish the stage and, the first
  time, push the control frame on the deque.
-/
def stageAdvance
    (s : PipeState W P R K) (i stage : ℤ) :
    PipeState W P R K :=
  let s := s.setBlock i { s.blk i with stage := stage }
  if s.control.pc = .child false then
    s.setControl { s.control with pc := .child true }
  else s

/- `CILK_PIPE_FAKE_FINAL_STAGE_WAIT`. -/
def finalStageWait
    (s : PipeState W P R K) (i : ℤ) : PipeState W P R K :=
  if (s.blk i).stage < finalUserStage then
    (s.stageAdvance i (stageUserToSys finalUserStage)).setPc
      i (.wait true .cache)
  else s.setPc i .final

/- The first test of the wait macro. -/
def testCachedStage
    (s : PipeState W P R K) (i : ℤ) (final : Bool) :
    PipeState W P R K :=
  if (s.blk i).stage < (s.blk i).cachedLeftStage then
    s.setPc i (.afterWait final)
  else s.setPc i (.wait final .left)

/- The second test of the wait macro. -/
def testLeftStage
    (s : PipeState W P R K) (i : ℤ) (final : Bool) :
    PipeState W P R K :=
  let left := (s.block (leftOf i)).stage
  let s := s.setBlock i
    { s.blk i with cachedLeftStage := left }
  if (s.blk i).stage < left then
    s.setPc i (.afterWait final)
  else s.setPc i (.wait final .check)

/- The tests of `__cilkrts_piper_stage_wait`. -/
def stageWaitTest
    (s : PipeState W P R K) (i : ℤ) (final : Bool) :
    PipeState W P R K :=
  if s.needToStall i then s.setPc i (.wait final .stall)
  else s.setPc i (.wait final .cache)

/-
  `piper_install_iteration_frame`: the current iteration,
  whose continuation `thief` takes, becomes a full frame on
  the victim.
-/
def installIterationFrame
    (s : PipeState W P R K) (thief victim : W) :
    PipeState W P R K :=
  let c := s.control
  let v := s.worker victim
  let s := s.check
    ((s.blk c.currentIter).iterStatus = .standardExec ∧
      v.parentResume = .noParent ∧
      v.iterFfOnTop = false)
  let s := s.setBlock c.currentIter
    { s.blk c.currentIter with
      iterStatus := .promotedActive
      resumeFlags := .normalCilk }
  let s := s.setWorker victim
    { v with
      task := .iter c.currentIter
      iterFfOnTop := true
      parentResume :=
        if thief = victim then .selfSteal
        else v.parentResume }
  s.setControl
    { c with
      hasFullFrame := true
      joinCounter := c.joinCounter + 1
      children := insert c.currentIter c.children
      pc := .continuation }

/- `piper_sched_promote_rightmost_iter`. -/
def promoteRightmostIter
    (s : PipeState W P R K) (w : W) : PipeState W P R K :=
  let s := s.installIterationFrame w w
  s.setControl
    { s.control with
      events := .selfStolen :: s.control.events }

/- `detach_for_steal` of the control frame. -/
def stealControl
    (s : PipeState W P R K) (thief victim : W) :
    PipeState W P R K :=
  let s := s.installIterationFrame thief victim
  let s := s.setWorker thief
    { s.worker thief with
      task := .nextControl
      workStolen := true }
  s.setControl
    { s.control with
      events :=
        .obtained thief s.control.resumeFlags ::
          .stolen :: s.control.events }

/- `piper_sched_suspend_pipe_iter_frame`. -/
def suspendPipeIterFrame
    (s : PipeState W P R K) (w : W) (i : ℤ) (final : Bool) :
    PipeState W P R K :=
  (s.setWorker w
    { s.worker w with task := .runtime i none }).setPc
      i (.wait final .switching)

/-
  `piper_try_suspend_at_stage_wait`, up to the point where it
  looks for another frame.
-/
def trySuspendAtStageWait
    (s : PipeState W P R K) (w : W) (i : ℤ) (final : Bool) :
    PipeState W P R K :=
  let b := s.blk i
  if s.needToStall i then
    let s := s.check (b.iterStatus = .promotedActive)
    let s := s.setBlock i
      { b with
        iterStatus := .promotedSuspended
        resumeFlags := .suspendedIter
        dataLock := true }
    let s := s.setPc i (.wait final .marked)
    { s with
      suspensions :=
        Function.update s.suspensions i
          (s.suspensions i + 1) }
  else
    let s := s.setBlock i
      { b with resumeFlags := .resumingIter }
    let s := s.setPc i (.wait final .queued)
    s.setWorker w { s.worker w with task := .nextIter i }

/-
  `piper_try_resume_next_iteration_helper`, run while holding
  the lock of the block to the right of `x`.
-/
def tryResumeNextIteration
    (s : PipeState W P R K) (x : ZMod K) :
    PipeState W P R K × Option ℤ :=
  let next := rightOf x
  let b := s.block next
  if b.iterStatus = .promotedSuspended ∧
      s.needToStall next = false then
    let s := s.check (b.resumeFlags = .suspendedIter)
    let s := s.setBlock next
      { b with
        iterStatus := .promotedActive
        resumeFlags := .resumingIter }
    let s := s.setPc b.iterNum
      (match s.pc b.iterNum with
        | .wait final _ => .wait final .queued
        | p => p)
    ({ s with
      resumptions :=
        Function.update s.resumptions b.iterNum
          (s.resumptions b.iterNum + 1) }, some b.iterNum)
  else (s, none)

/- Hand the control frame to a worker. -/
def handControl
    (s : PipeState W P R K) (w : W) : PipeState W P R K :=
  let s := s.setWorker w
    { s.worker w with task := .nextControl }
  s.setControl
    { s.control with
      events :=
        .obtained w s.control.resumeFlags ::
          s.control.events }

/- `piper_try_resume_next_iter_on_suspend`. -/
def tryResumeNextIterOnSuspend
    (s : PipeState W P R K) (w : W) (i : ℤ) (final : Bool) :
    PipeState W P R K :=
  let s := s.setBlock i { s.blk i with dataLock := false }
  let s := s.setPc i (.wait final .suspended)
  let r := s.tryResumeNextIteration i
  let v : Worker P R :=
    { r.1.worker w with iterFfOnTop := false }
  match r.2 with
  | some j => r.1.setWorker w { v with task := .nextIter j }
  | none =>
      if v.parentResume = .noParent then
        r.1.setWorker w { v with task := .idle }
      else
        (r.1.setWorker w
          { v with parentResume := .noParent }).handControl w

/- `piper_finish_final_user_stage`. -/
def finishFinalUserStage
    (s : PipeState W P R K) (i : ℤ) : PipeState W P R K :=
  if (s.blk i).stage = stageUserToSys finalUserStage then
    (s.setBlock i
      { s.blk i with
        stage := stageUserToSys postIterCleanupStage }).setPc
          i .leaving
  else s.fail .stage

/- `piper_move_iter_stage_to_done`. -/
def moveIterStageToDone
    (s : PipeState W P R K) (i : ℤ) : PipeState W P R K :=
  (s.check
    ((s.blk i).stage =
      stageUserToSys postIterCleanupStage)).setBlock i
    { s.blk i with stage := runtimeFinishIterStage }

/-
  `piper_try_free_iter_data_block_common` of block `x`; `w` is
  the worker that may mark the parent for resumption.
-/
def tryFreeIterDataBlock
    (s : PipeState W P R K) (x : ZMod K) (w : Option W)
    (party : Party) : PipeState W P R K :=
  if stageUserToSys postIterCleanupStage ≤
      (s.block x).stage then
    let b := (s.block x).finishIter party
    let s := s.check
      (b.blockStatus ≠ .available ∧ 0 ≤ b.cleanupCounter ∧
        (w = none → b.readyToResumeAfterThrottle = false) ∧
        (b.readyForReuse = true →
          b.iterStatus = .promotedActive ∨
            b.iterStatus = .standardExec))
    let s := s.setBlock x
      (if b.readyForReuse then b.markFrameAsDone else b)
    match w with
    | none => s
    | some w =>
        if b.readyToResumeAfterThrottle then
          s.setWorker w
            { s.worker w with
              parentResume := .throttleSuspend
              flagSetBy := party }
        else s
  else s.fail .stage

------------------------------------------------------------
-- Finishing an Iteration
------------------------------------------------------------

/-
  `piper_leave_iter_frame_attached_exit`: `leave_frame` has
  popped the unstolen control frame.
-/
def popControl
    (s : PipeState W P R K) (i : ℤ) : PipeState W P R K :=
  (s.setControl { s.control with pc := .popped }).setPc
    i (.exiting .move)

def exitMove
    (s : PipeState W P R K) (i : ℤ) : PipeState W P R K :=
  (s.moveIterStageToDone i).setPc i (.exiting .freeLeft)

def exitFreeLeft
    (s : PipeState W P R K) (i : ℤ) : PipeState W P R K :=
  (s.tryFreeIterDataBlock (leftOf i) none
    (.attachedExit i)).setPc i (.exiting .freeOwn)

def exitFreeOwn
    (s : PipeState W P R K) (i : ℤ) : PipeState W P R K :=
  let s := (s.tryFreeIterDataBlock i none
    (.attachedExit i)).setPc i .finished
  s.setControl { s.control with pc := .continuation }

/- The iteration returns to its stolen parent. -/
def enterFinish
    (s : PipeState W P R K) (w : W) (i : ℤ) :
    PipeState W P R K :=
  (s.setWorker w
    { s.worker w with task := .runtime i none }).setPc
      i (.finishing .enter)

/-
  `pipe_iter_finish`: the last child of a control frame that
  waits at its sync resumes it; otherwise the iteration
  cleans up.
-/
def pipeIterFinish
    (s : PipeState W P R K) (w : W) (i : ℤ) :
    PipeState W P R K :=
  let v := s.worker w
  let s := s.check (v.iterFfOnTop = true)
  let c : ControlFrame W P R :=
    { s.control with
      joinCounter := s.control.joinCounter - 1
      children := s.control.children.erase i }
  if c.joinCounter = 0 then
    let s := s.check
      (v.parentResume = .noParent ∧
        c.resumeFlags ≠ .suspendedControl ∧ c.pc = .synced)
    let s := s.setControl
      { c with joinCounter := c.joinCounter + 1 }
    let s := s.setWorker w { v with iterFfOnTop := false }
    (s.handControl w).setPc i .lastAtSync
  else (s.setControl c).setPc i (.finishing .freeLeft)

/- The first step of `piper_finish_iter_and_get_next`. -/
def finishFreeLeft
    (s : PipeState W P R K) (w : W) (i : ℤ) :
    PipeState W P R K :=
  (s.tryFreeIterDataBlock (leftOf i) (some w)
    (.finish i)).setPc i (.finishing .move)

/- The lock of its own block is taken. -/
def finishMove
    (s : PipeState W P R K) (i : ℤ) : PipeState W P R K :=
  let s := s.moveIterStageToDone i
  (s.setBlock i { s.blk i with dataLock := true }).setPc
    i (.finishing .resumeNext)

def finishResumeNext
    (s : PipeState W P R K) (w : W) (i : ℤ) :
    PipeState W P R K :=
  let r := s.tryResumeNextIteration i
  (r.1.setWorker w
    { r.1.worker w with task := .runtime i r.2 }).setPc
      i (.finishing .freeOwn)

/- The lock of its own block is released. -/
def finishFreeOwn
    (s : PipeState W P R K) (w : W) (i : ℤ) :
    PipeState W P R K :=
  let s := s.tryFreeIterDataBlock i (some w) (.finish i)
  (s.setBlock i { s.blk i with dataLock := false }).setPc
    i (.finishing .getNext)

/-
  `piper_try_remove_implicit_parent`: take the parent that
  worker `v` has implicitly on its deque, for worker `w`.
-/
def tryRemoveImplicitParent
    (s : PipeState W P R K) (v : W) :
    PipeState W P R K × Bool :=
  let flag := (s.worker v).parentResume
  let setBy := (s.worker v).flagSetBy
  let s := s.setWorker v
    { s.worker v with parentResume := .noParent }
  match flag with
  | .noParent => (s, false)
  | .selfSteal =>
      (s.check (s.control.resumeFlags = .normalCilk), true)
  | .throttleSuspend =>
      if s.control.resumeFlags = .suspendedControl then
        (s.setControl
          { s.control with
            resumeFlags := .resumingControl
            pc := .passing
            continuedBy := setBy }, true)
      else (s, false)

/- The last steps of `piper_finish_iter_and_get_next`. -/
def finishGetNext
    (s : PipeState W P R K) (w : W) (i : ℤ)
    (resume : Option ℤ) : PipeState W P R K :=
  let s := (s.setWorker w
    { s.worker w with
      iterFfOnTop := false
      task := .idle }).setPc i .finished
  match resume with
  | some j =>
      s.setWorker w { s.worker w with task := .nextIter j }
  | none =>
      let r := s.tryRemoveImplicitParent w
      if r.2 then r.1.handControl w
      else
        r.1.check ((r.1.worker w).parentResume = .noParent)

------------------------------------------------------------
-- The Control Frame
------------------------------------------------------------

/-
  `__cilkrts_piper_init_iter_frame`, and the helper is entered
  (`__cilk_pipe_fake_iter_helper_enter`), which saves the
  worker's pedigree in the control frame.  What becomes of the
  worker's own is left to `work`.
-/
def initIterFrame
    (s : PipeState W P R K) (w : W) : PipeState W P R K :=
  let i := s.control.currentIter
  let b := s.blk i
  let s := s.check
    (b.blockStatus = .inUse ∧ b.iterStatus = .finished ∧
      b.isReset = true)
  let s := s.setBlock i
    { b with
      iterStatus := .standardExec
      iterNum := i
      stage := stageUserToSys 0
      cachedLeftStage := stageUserToSys 0 }
  (s.setControl
    { s.control with
      parentPedigree := (s.worker w).pedigree
      pc := .child false }).setPc i .body

/- The block after the one of the current iteration. -/
def nextBlock (s : PipeState W P R K) : ZMod K :=
  rightOf s.control.currentIter

/- The locked section of `__cilkrts_piper_throttle`. -/
def throttle
    (s : PipeState W P R K) : PipeState W P R K :=
  let b := s.block s.nextBlock
  if b.readyForReuse then
    let b := b.startThrottlePoint
    let s := s.check
      (0 ≤ b.cleanupCounter ∧
        b.readyToResumeAfterThrottle = true)
    (s.setBlock s.nextBlock b).setControl
      { s.control with
        pc := .passing
        continuedBy := .control }
  else
    (s.check (s.control.hasFullFrame = true)).setControl
      { s.control with pc := .slowPath }

/- `piper_save_worker_state_for_suspend_control`. -/
def saveWorkerStateForSuspendControl
    (s : PipeState W P R K) (w : W) : PipeState W P R K :=
  let v := s.worker w
  let s := s.check (s.control.savedReducerMap = none)
  let s := s.setControl
    { s.control with
      parentPedigree := v.pedigree
      savedReducerMap := v.reducerMap
      atSuspend := (v.pedigree, v.reducerMap)
      events := .suspended :: s.control.events }
  s.setWorker w { v with reducerMap := none, task := .idle }

/- `piper_try_suspend_control_frame_at_throttle`. -/
def trySuspendControlFrameAtThrottle
    (s : PipeState W P R K) (w : W) : PipeState W P R K :=
  let b := (s.block s.nextBlock).startThrottlePoint
  let s := s.check (0 ≤ b.cleanupCounter)
  let s := s.setBlock s.nextBlock b
  if b.readyForReuse = false then
    s.setControl
      { s.control with
        resumeFlags := .suspendedControl
        pc := .suspended }
  else
    let s := s.check (b.blockStatus = .available)
    (s.setControl
      { s.control with
        resumeFlags := .resumingControl
        pc := .passing
        continuedBy := .control }).handControl w

/- `do_suspend_pipe_control_frame`. -/
def suspendControlFrame
    (s : PipeState W P R K) (w : W) : PipeState W P R K :=
  (s.saveWorkerStateForSuspendControl
    w).trySuspendControlFrameAtThrottle w

/-
  The rest of `__cilkrts_piper_throttle`, and the next
  iteration becomes the current one.
-/
def passThrottle
    (s : PipeState W P R K) : PipeState W P R K :=
  let c := s.control
  let b := s.block s.nextBlock
  let s := s.check
    (b.blockStatus = .available ∧ b.cleanupCounter = 0 ∧
      (c.hasFullFrame = true → c.joinCounter < K))
  let s := s.setBlock s.nextBlock
    { b.resetForNewIter with blockStatus := .inUse }
  s.setControl
    { c with
      currentIter := c.currentIter + 1
      pc := .loopHead }

/- The loop ends, and the control frame comes to its sync. -/
def sync
    (s : PipeState W P R K) (w : W) : PipeState W P R K :=
  if s.control.joinCounter - 1 = 0 then
    s.setControl { s.control with pc := .exited }
  else
    (s.setControl
      { s.control with
        joinCounter := s.control.joinCounter - 1
        parentPedigree := (s.worker w).pedigree
        pedigreeUnsynched := true
        events := .synced :: s.control.events
        pc := .synced }).setWorker w
      { s.worker w with task := .idle }

------------------------------------------------------------
-- Scheduling
------------------------------------------------------------

/-
  `piper_restore_worker_state_from_suspend_control`, for a
  frame that resumes from a suspension.
-/
def restoreControl
    (s : PipeState W P R K) (w : W) : PipeState W P R K :=
  let v : Worker P R :=
    { s.worker w with
      task := .control
      iterFfOnTop := false }
  let c : ControlFrame W P R :=
    { s.control with
      pc :=
        if s.control.pc = .synced then .exited
        else s.control.pc }
  if c.resumeFlags = .resumingControl then
    (s.setWorker w
      { v with
        pedigree := c.parentPedigree
        reducerMap := c.savedReducerMap }).setControl
      { c with
        resumeFlags := .normalCilk
        savedReducerMap := none }
  else (s.setWorker w v).setControl c

/-
  `setup_for_execution_pedigree`.  The rank grows after every
  successful steal, also when the frame was suspended.
-/
def setupForExecutionPedigree
    (s : PipeState W P R K) (w : W) : PipeState W P R K :=
  let v := s.worker w
  let c := s.control
  let rank :=
    if v.workStolen then c.parentPedigree.rank + 1
    else if c.pedigreeUnsynched then c.parentPedigree.rank
    else v.pedigree.rank
  (s.setWorker w
    { v with
      pedigree := ⟨rank, c.parentPedigree.parent⟩
      workStolen := false }).setControl
    { c with pedigreeUnsynched := false }

/- `setup_for_execution` of the control frame. -/
def setupControl
    (s : PipeState W P R K) (w : W) : PipeState W P R K :=
  (s.restoreControl w).setupForExecutionPedigree w

/- Only the worker and the control frame change. -/
theorem setupControl_eq
    (s : PipeState W P R K) (w : W) :
    s.setupControl w =
      { s with
        worker := (s.setupControl w).worker
        control := (s.setupControl w).control } := by
  unfold setupControl restoreControl
  dsimp only
  split <;> rfl

/- Where the control frame goes on, and what it keeps. -/
theorem setupControl_control
    (s : PipeState W P R K) (w : W) :
    (s.setupControl w).control.pc =
        (if s.control.pc = .synced then .exited
          else s.control.pc) ∧
      (s.setupControl w).control.currentIter =
        s.control.currentIter ∧
      (s.setupControl w).control.events =
        s.control.events := by
  unfold setupControl restoreControl
  dsimp only
  split <;> exact ⟨rfl, rfl, rfl⟩

theorem setupControl_worker_of_ne
    (s : PipeState W P R K) {w w' : W}
    (hNe : w' ≠ w) :
    (s.setupControl w).worker w' = s.worker w' := by
  unfold setupControl restoreControl
  dsimp only
  split <;> simp [setupForExecutionPedigree, hNe]

/- `piper_sched_iter_setup_for_execution`. -/
def iterSetup
    (s : PipeState W P R K) (w : W) (i : ℤ) (final : Bool) :
    PipeState W P R K :=
  let s := s.check
    ((s.blk i).resumeFlags = .resumingIter)
  let s := s.setBlock i
    { s.blk i with resumeFlags := .normalCilk }
  (s.setWorker w
    { s.worker w with
      task := .iter i
      iterFfOnTop := true
      workStolen := false }).setPc i (.wait final .check)

/- `random_steal` notes that it has found a frame. -/
def foundWork
    (s : PipeState W P R K) (w : W) : PipeState W P R K :=
  s.setWorker w { s.worker w with workStolen := true }

@[simp] theorem foundWork_control
    (s : PipeState W P R K) (w : W) :
    (s.foundWork w).control = s.control := rfl

/-
  The first half of `piper_try_implicit_steals`: the thief
  looks at the victim's parent flag.
-/
def stealParent
    (s : PipeState W P R K) (thief victim : W) :
    PipeState W P R K :=
  let r := s.tryRemoveImplicitParent victim
  if r.2 then (r.1.foundWork thief).handControl thief
  else r.1

/-
  The second half: the thief looks at the iteration after
  the victim's.
-/
def stealNext
    (s : PipeState W P R K) (thief : W) (i : ℤ) :
    PipeState W P R K :=
  let r := s.tryResumeNextIteration i
  match r.2 with
  | some j =>
      r.1.setWorker thief
        { r.1.worker thief with
          task := .nextIter j
          workStolen := true }
  | none => r.1

/- The code of worker `w` changes its own state. -/
def work
    (s : PipeState W P R K) (w : W)
    (pedigree : Pedigree P) (reducerMap : Option R) :
    PipeState W P R K :=
  s.setWorker w
    { s.worker w with
      pedigree := pedigree
      reducerMap := reducerMap }

end PipeState

------------------------------------------------------------
-- The System
------------------------------------------------------------

/-
  The steps: those of iteration `i` on worker `w`, those of
  the control frame on `w`, and those of the scheduler.
-/
inductive Action (W P R : Type) where
| stage (w : W) (i stage : ℤ)
| stageWait (w : W) (i stage : ℤ)
| endBody (w : W) (i : ℤ)
| testCached (w : W) (i : ℤ) (final : Bool)
| testLeft (w : W) (i : ℤ) (final : Bool)
| testStall (w : W) (i : ℤ) (final : Bool)
| pause (w : W) (i : ℤ) (final : Bool)
| promote (w : W) (i : ℤ) (final : Bool)
| switch (w : W) (i : ℤ) (final : Bool)
| trySuspend (w : W) (i : ℤ) (final : Bool)
| resumeOnSuspend (w : W) (i : ℤ) (final : Bool)
| finishStage (w : W) (i : ℤ)
| pop (w : W) (i : ℤ)
| exitMove (w : W) (i : ℤ)
| exitFreeLeft (w : W) (i : ℤ)
| exitFreeOwn (w : W) (i : ℤ)
| enterFinish (w : W) (i : ℤ)
| pipeIterFinish (w : W) (i : ℤ)
| finishFreeLeft (w : W) (i : ℤ)
| finishMove (w : W) (i : ℤ)
| finishResumeNext (w : W) (i : ℤ)
| finishFreeOwn (w : W) (i : ℤ) (resume : Option ℤ)
| finishGetNext (w : W) (i : ℤ) (resume : Option ℤ)
| initIter (w : W)
| throttle (w : W)
| suspendControl (w : W)
| passThrottle (w : W)
| sync (w : W)
| steal (thief victim : W)
| stealParent (thief victim : W) (i : ℤ)
| stealNext (thief victim : W) (i : ℤ)
| setupControl (w : W)
| iterSetup (w : W) (i : ℤ) (final : Bool)
| work (w : W) (pedigree : Pedigree P) (reducerMap : Option R)

namespace PipeState

variable [DecidableEq W]

/- When a step can be taken. -/
def enabled
    (s : PipeState W P R K) (a : Action W P R) : Bool :=
  let c := s.control.currentIter
  match a with
  | .stage w i v =>
      s.Executes w i ∧ s.pc i = .body ∧
        (s.blk i).stage ≤ v ∧
        v ≤ stageUserToSys finalUserStage
  | .stageWait w i v =>
      s.Executes w i ∧ s.pc i = .body ∧
        (s.blk i).stage ≤ v ∧
        v ≤ stageUserToSys finalUserStage
  | .endBody w i => s.Executes w i ∧ s.pc i = .body
  | .testCached w i f =>
      s.Executes w i ∧ s.pc i = .wait f .cache
  | .testLeft w i f =>
      s.Executes w i ∧ s.pc i = .wait f .left
  | .testStall w i f =>
      s.Executes w i ∧ s.pc i = .wait f .check
  | .pause w i f => s.Executes w i ∧ s.pc i = .wait f .stall
  | .promote w i f =>
      (s.worker w).task = .control ∧
        s.control.pc = .child true ∧ c = i ∧
        s.pc i = .wait f .stall ∧
        (s.blk i).dataLock = false
  | .switch w i f =>
      (s.worker w).task = .iter i ∧ s.pc i = .wait f .stall
  | .trySuspend w i f =>
      (s.worker w).task = .runtime i none ∧
        s.pc i = .wait f .switching ∧
        (s.blk i).dataLock = false
  | .resumeOnSuspend w i f =>
      (s.worker w).task = .runtime i none ∧
        s.pc i = .wait f .marked ∧
        (s.block (rightOf i)).dataLock = false
  | .finishStage w i => s.Executes w i ∧ s.pc i = .final
  | .pop w i =>
      (s.worker w).task = .control ∧
        s.control.pc = .child true ∧ c = i ∧
        s.pc i = .leaving
  | .exitMove w i =>
      (s.worker w).task = .control ∧
        s.control.pc = .popped ∧ c = i ∧
        s.pc i = .exiting .move
  | .exitFreeLeft w i =>
      (s.worker w).task = .control ∧
        s.control.pc = .popped ∧ c = i ∧
        s.pc i = .exiting .freeLeft ∧
        (s.block (leftOf i)).dataLock = false
  | .exitFreeOwn w i =>
      (s.worker w).task = .control ∧
        s.control.pc = .popped ∧ c = i ∧
        s.pc i = .exiting .freeOwn ∧
        (s.blk i).dataLock = false
  | .enterFinish w i =>
      (s.worker w).task = .iter i ∧ s.pc i = .leaving
  | .pipeIterFinish w i =>
      (s.worker w).task = .runtime i none ∧
        s.pc i = .finishing .enter
  | .finishFreeLeft w i =>
      (s.worker w).task = .runtime i none ∧
        s.pc i = .finishing .freeLeft ∧
        (s.block (leftOf i)).dataLock = false
  | .finishMove w i =>
      (s.worker w).task = .runtime i none ∧
        s.pc i = .finishing .move ∧
        (s.blk i).dataLock = false
  | .finishResumeNext w i =>
      (s.worker w).task = .runtime i none ∧
        s.pc i = .finishing .resumeNext ∧
        (s.block (rightOf i)).dataLock = false
  | .finishFreeOwn w i r =>
      (s.worker w).task = .runtime i r ∧
        s.pc i = .finishing .freeOwn
  | .finishGetNext w i r =>
      (s.worker w).task = .runtime i r ∧
        s.pc i = .finishing .getNext
  | .initIter w =>
      (s.worker w).task = .control ∧
        s.control.pc = .loopHead
  | .throttle w =>
      (s.worker w).task = .control ∧
        s.control.pc = .continuation ∧
        (s.block s.nextBlock).dataLock = false
  | .suspendControl w =>
      (s.worker w).task = .control ∧
        s.control.pc = .slowPath ∧
        (s.block s.nextBlock).dataLock = false
  | .passThrottle w =>
      (s.worker w).task = .control ∧
        s.control.pc = .passing
  | .sync w =>
      (s.worker w).task = .control ∧
        s.control.pc = .loopHead
  | .steal u w =>
      (s.worker u).task = .idle ∧
        (s.worker w).task = .control ∧
        s.control.pc = .child true ∧
        (s.blk c).dataLock = false
  | .stealParent u w i =>
      (s.worker u).task = .idle ∧
        (s.worker w).task = .iter i ∧
        (s.worker w).parentResume ≠ .noParent
  | .stealNext u w i =>
      (s.worker u).task = .idle ∧
        (s.worker w).task = .iter i ∧
        (s.worker w).parentResume = .noParent ∧
        (s.worker w).iterFfOnTop = true ∧
        (s.block (rightOf i)).dataLock = false
  | .setupControl w => (s.worker w).task = .nextControl
  | .iterSetup w i f =>
      (s.worker w).task = .nextIter i ∧
        s.pc i = .wait f .queued
  | .work _ _ _ => true

/- What a step does. -/
def exec
    (s : PipeState W P R K) (a : Action W P R) :
    PipeState W P R K :=
  match a with
  | .stage _ i v => s.stageAdvance i v
  | .stageWait _ i v =>
      (s.stageAdvance i v).setPc i (.wait false .cache)
  | .endBody _ i => s.finalStageWait i
  | .testCached _ i f => s.testCachedStage i f
  | .testLeft _ i f => s.testLeftStage i f
  | .testStall _ i f => s.stageWaitTest i f
  | .pause _ i f => s.setPc i (.wait f .check)
  | .promote w _ _ => s.promoteRightmostIter w
  | .switch w i f => s.suspendPipeIterFrame w i f
  | .trySuspend w i f => s.trySuspendAtStageWait w i f
  | .resumeOnSuspend w i f =>
      s.tryResumeNextIterOnSuspend w i f
  | .finishStage _ i => s.finishFinalUserStage i
  | .pop _ i => s.popControl i
  | .exitMove _ i => s.exitMove i
  | .exitFreeLeft _ i => s.exitFreeLeft i
  | .exitFreeOwn _ i => s.exitFreeOwn i
  | .enterFinish w i => s.enterFinish w i
  | .pipeIterFinish w i => s.pipeIterFinish w i
  | .finishFreeLeft w i => s.finishFreeLeft w i
  | .finishMove _ i => s.finishMove i
  | .finishResumeNext w i => s.finishResumeNext w i
  | .finishFreeOwn w i _ => s.finishFreeOwn w i
  | .finishGetNext w i r => s.finishGetNext w i r
  | .initIter w => s.initIterFrame w
  | .throttle _ => s.throttle
  | .suspendControl w => s.suspendControlFrame w
  | .passThrottle _ => s.passThrottle
  | .sync w => s.sync w
  | .steal u w => s.stealControl u w
  | .stealParent u w _ => s.stealParent u w
  | .stealNext u _ i => s.stealNext u i
  | .setupControl w => s.setupControl w
  | .iterSetup w i f => s.iterSetup w i f
  | .work w p r => s.work w p r

end PipeState

/-
  The pipeline with a ring of `K` blocks.  A failed assertion
  stops it.
-/
def pipeSystem (W P R : Type) (K : ℕ) [DecidableEq W] :
    TransitionSystem (PipeState W P R K) (Action W P R) where
  init s :=
    ∃ garbage w₀ pedigree reducerMap,
      s = .initial garbage w₀ pedigree reducerMap
  step s a t :=
    s.failure = none ∧ s.enabled a = true ∧ t = s.exec a

end Piper

end PRacer
