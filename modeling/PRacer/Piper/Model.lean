import Mathlib.Data.ZMod.Basic

/-
  Data of the pipeline runtime: the ring of data blocks, the
  control frame, the workers and where each of them stands
  in the code.

  Main declarations:
    * `Block` and the operations on its cleanup counter
    * `ControlFrame`, `Worker`, `IterPc`, `ControlPc`
    * `PipeState`
-/

------------------------------------------------------------
-- Flags and Stage Numbers
------------------------------------------------------------

namespace PRacer

namespace Piper

/- The values of `pipe_iter_status_t`. -/
inductive IterStatus where
| standardExec
| promotedActive
| promotedSuspended
| finished
deriving DecidableEq, Repr

/- The values of `pipe_data_block_status_t`. -/
inductive BlockStatus where
| available
| inUse
deriving DecidableEq, Repr

/- The values of `ff_flags_t`. -/
inductive ResumeFlags where
| normalCilk
| resumingIter
| resumingControl
| suspendedIter
| suspendedControl
deriving DecidableEq, Repr

/- The values of `cilk_pipe_parent_resume_t`. -/
inductive ParentResume where
| noParent
| selfSteal
| throttleSuspend
deriving DecidableEq, Repr

def initialStageOffset : ℤ := 4

/- `CILK_STAGE_USER_TO_SYS`. -/
def stageUserToSys (userStage : ℤ) : ℤ :=
  userStage + initialStageOffset

/- `CILK_PIPE_FINAL_USER_STAGE`, a user stage number. -/
def finalUserStage : ℤ := 2 ^ 62 - initialStageOffset

/- `CILK_PIPE_POST_ITER_CLEANUP_STAGE`, a user stage number. -/
def postIterCleanupStage : ℤ := finalUserStage + 1

/- `CILK_PIPE_RUNTIME_FINISH_ITER_STAGE`. -/
def runtimeFinishIterStage : ℤ :=
  stageUserToSys (finalUserStage + 2)

theorem zero_lt_final :
    stageUserToSys 0 < stageUserToSys finalUserStage := by
  decide

theorem final_lt_post :
    stageUserToSys finalUserStage <
      stageUserToSys postIterCleanupStage := by
  decide

theorem post_lt_finish :
    stageUserToSys postIterCleanupStage <
      runtimeFinishIterStage := by
  decide

------------------------------------------------------------
-- Data Blocks
------------------------------------------------------------

/-
  Who decrements a cleanup counter: the control frame at a
  throttle point, an iteration that finishes in the runtime,
  or one that returns to its unstolen parent.
-/
inductive Party where
| control
| finish (iter : ℤ)
| attachedExit (iter : ℤ)
deriving DecidableEq, Repr

/-
  A `__cilkrts_pipe_iter_data` together with its
  `pipe_iter_full_frame`.  The last two fields are history:
  how often the block was marked available since it was last
  reset, and who has taken its counter to 0 since then.
-/
structure Block where
  iterNum : ℤ
  stage : ℤ
  cachedLeftStage : ℤ
  cleanupCounter : ℤ
  iterStatus : IterStatus
  blockStatus : BlockStatus
  resumeFlags : ResumeFlags
  dataLock : Bool
  marks : ℕ
  zeroedBy : List Party
deriving DecidableEq, Repr

def cleanupFinishIterVal : ℤ := 16

def cleanupThrottleVal : ℤ := 1

def cleanupInitialVal : ℤ :=
  2 * cleanupFinishIterVal + cleanupThrottleVal

namespace Block

/- `cleanup_counter_ready_for_reuse`. -/
def readyForReuse (b : Block) : Bool :=
  b.cleanupCounter ≤ cleanupThrottleVal

/- `cleanup_counter_ready_to_resume_after_throttle`. -/
def readyToResumeAfterThrottle (b : Block) : Bool :=
  b.cleanupCounter ≤ 0

/- `cleanup_counter_is_reset`. -/
def isReset (b : Block) : Bool :=
  b.cleanupCounter = cleanupInitialVal

/- Lower the counter, and note who took it to 0. -/
def lower (b : Block) (party : Party) (n : ℤ) : Block :=
  { b with
    cleanupCounter := b.cleanupCounter - n
    zeroedBy :=
      if b.cleanupCounter - n ≤ 0 then party :: b.zeroedBy
      else b.zeroedBy }

/- `cleanup_counter_finish_iter`. -/
def finishIter (b : Block) (party : Party) : Block :=
  b.lower party cleanupFinishIterVal

/- `cleanup_counter_start_throttle_point`. -/
def startThrottlePoint (b : Block) : Block :=
  b.lower .control cleanupThrottleVal

/- `cleanup_counter_reset_for_new_iter`. -/
def resetForNewIter (b : Block) : Block :=
  { b with
    cleanupCounter := cleanupInitialVal
    marks := 0
    zeroedBy := [] }

/- `piper_mark_frame_as_done_helper`. -/
def markFrameAsDone (b : Block) : Block :=
  { b with
    iterStatus := .finished
    blockStatus := .available
    marks := b.marks + 1 }

end Block

------------------------------------------------------------
-- Positions in the Code
------------------------------------------------------------

/-
  Positions in a stage wait: the loop of the macro reads the
  cached and then the real counter, `__cilkrts_piper_stage_wait`
  tests again and stalls, and the runtime suspends the
  iteration in two locked sections.
-/
inductive WaitPc where
| cache
| left
| check
| stall
| switching
| marked
| suspended
| queued
deriving DecidableEq, Repr

/- Positions in `piper_leave_iter_frame_attached_exit`. -/
inductive ExitPc where
| move
| freeLeft
| freeOwn
deriving DecidableEq, Repr

/-
  Positions in `pipe_iter_finish` and
  `piper_finish_iter_and_get_next`.
-/
inductive FinishPc where
| enter
| freeLeft
| move
| resumeNext
| freeOwn
| getNext
deriving DecidableEq, Repr

/-
  Where an iteration stands.  A wait is the final one of its
  iteration or a user's.
-/
inductive IterPc where
| notStarted
| body
| wait (final : Bool) (p : WaitPc)
| final
| leaving
| exiting (p : ExitPc)
| finishing (p : FinishPc)
| finished
| lastAtSync
deriving DecidableEq, Repr

/-
  Where the control frame stands in
  `__cilk_pipe_while_execute_loop`.  While the current
  iteration is an attached child, the continuation may be on
  the worker's deque.
-/
inductive ControlPc where
| loopHead
| child (onDeque : Bool)
| popped
| continuation
| slowPath
| suspended
| passing
| synced
| exited
deriving DecidableEq, Repr

namespace IterPc

/- Where a wait goes on. -/
def afterWait (final : Bool) : IterPc :=
  if final then .final else .body

/- The iteration has decremented its left block. -/
def freedLeft : IterPc → Bool
| .exiting .freeOwn => true
| .finishing .move => true
| .finishing .resumeNext => true
| .finishing .freeOwn => true
| .finishing .getNext => true
| .finished => true
| _ => false

/- The iteration has decremented its own block. -/
def freedOwn : IterPc → Bool
| .finishing .getNext => true
| .finished => true
| _ => false

end IterPc

------------------------------------------------------------
-- Control Frame, Workers, States
------------------------------------------------------------

/-
  A `__cilkrts_pedigree`: a 64-bit rank, and the pedigree of
  the parent.
-/
@[ext]
structure Pedigree (P : Type) where
  rank : BitVec 64
  parent : P
deriving DecidableEq, Repr

/-
  How the control frame leaves a worker, and which worker
  obtains it for scheduling with which flags.
-/
inductive ControlEvent (W : Type) where
| stolen
| selfStolen
| suspended
| synced
| obtained (w : W) (flags : ResumeFlags)
deriving DecidableEq, Repr

/-
  The pipe control frame and its full frame.  `children` are
  the iterations among the full frame's children, and
  `pedigreeUnsynched` is `CILK_FRAME_SF_PEDIGREE_UNSYNCHED`.
  The last three fields are history.
-/
structure ControlFrame (W P R : Type) where
  currentIter : ℤ
  hasFullFrame : Bool
  resumeFlags : ResumeFlags
  joinCounter : ℤ
  children : Finset ℤ
  parentPedigree : Pedigree P
  pedigreeUnsynched : Bool
  savedReducerMap : Option R
  pc : ControlPc
  continuedBy : Party
  atSuspend : Pedigree P × Option R
  events : List (ControlEvent W)

/-
  Which frame a worker has: the one it executes
  (`core_frame_ff`), the one in its queue (`next_frame_ff`),
  or an iteration that it suspends or finishes in the runtime
  while it holds its own lock, with the next iteration it has
  taken to resume.
-/
inductive Task where
| idle
| control
| iter (i : ℤ)
| nextControl
| nextIter (i : ℤ)
| runtime (i : ℤ) (resume : Option ℤ)
deriving DecidableEq, Repr

/-
  A worker with its implicit deque flags.  `workStolen` is
  `work_stolen`: it has found its next frame by stealing.
  `flagSetBy` is history: who set the parent flag at a
  throttle suspension.
-/
structure Worker (P R : Type) where
  task : Task
  parentResume : ParentResume
  iterFfOnTop : Bool
  workStolen : Bool
  pedigree : Pedigree P
  reducerMap : Option R
  flagSetBy : Party

/-
  The assertions that stop the runtime: those about the
  user's stage numbers, and all others.
-/
inductive Failure where
| stage
| internal
deriving DecidableEq, Repr

/-
  A state of the pipeline.  `suspensions` and `resumptions`
  count, for each iteration, how often it was suspended and
  taken for resumption.
-/
structure PipeState (W P R : Type) (K : ℕ) where
  block : ZMod K → Block
  control : ControlFrame W P R
  worker : W → Worker P R
  pc : ℤ → IterPc
  failure : Option Failure
  suspensions : ℤ → ℕ
  resumptions : ℤ → ℕ

namespace PipeState

variable {W P R : Type} {K : ℕ}

/- The data block of an iteration, `iter_num % buffer_size`. -/
def blk (s : PipeState W P R K) (i : ℤ) : Block :=
  s.block i

/- `iter_data->left` and `iter_data->right` in the ring. -/
def leftOf (x : ZMod K) : ZMod K := x - 1

def rightOf (x : ZMod K) : ZMod K := x + 1

@[simps]
def setBlock
    (s : PipeState W P R K) (x : ZMod K) (b : Block) :
    PipeState W P R K :=
  { s with block := Function.update s.block x b }

@[simps]
def setControl
    (s : PipeState W P R K) (c : ControlFrame W P R) :
    PipeState W P R K :=
  { s with control := c }

@[simps]
def setWorker [DecidableEq W]
    (s : PipeState W P R K) (w : W) (v : Worker P R) :
    PipeState W P R K :=
  { s with worker := Function.update s.worker w v }

@[simps]
def setPc
    (s : PipeState W P R K) (i : ℤ) (p : IterPc) :
    PipeState W P R K :=
  { s with pc := Function.update s.pc i p }

/- Stop with a failed assertion. -/
@[simps]
def fail
    (s : PipeState W P R K) (f : Failure) :
    PipeState W P R K :=
  { s with failure := some f }

/- `CILK_ASSERT`. -/
def check
    (s : PipeState W P R K) (cond : Prop) [Decidable cond] :
    PipeState W P R K :=
  if cond then s else s.fail .internal

/- The worker executes the code of the iteration. -/
def Executes
    (s : PipeState W P R K) (w : W) (i : ℤ) : Prop :=
  (s.worker w).task = .iter i ∨
    ((s.worker w).task = .control ∧
      (s.control.pc = .child false ∨
        s.control.pc = .child true) ∧
      s.control.currentIter = i)

instance
    (s : PipeState W P R K) (w : W) (i : ℤ) :
    Decidable (s.Executes w i) :=
  inferInstanceAs (Decidable (_ ∨ _))

/- `piper_need_to_stall_at_stage_wait`. -/
def needToStall (s : PipeState W P R K) (x : ZMod K) : Bool :=
  (s.block (leftOf x)).stage ≤ (s.block x).stage

end PipeState

end Piper

end PRacer
