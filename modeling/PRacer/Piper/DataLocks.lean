import PRacer.Foundations.LockTable
import PRacer.Piper.FrameLock

/-
  The locks of the data blocks, with every lock and unlock
  step, and the marks that the steps leave on the blocks.

  Main declarations:
    * `PipeState.lockOf`, `Action.outerLock`
    * `LockState`, `lockSystem`
    * `exec_dataLocks`
-/

------------------------------------------------------------
-- Lock and Unlock Steps
------------------------------------------------------------

namespace PRacer

namespace Piper

open Foundations
open PipeState

variable {W P R : Type} {K : ℕ}
variable {s t : PipeState W P R K}

/-
  The lock that a step takes with `BEGIN_WITH_PIPE_DATA_LOCK`
  before it does what it protects.
-/
def PipeState.lockOf
    (s : PipeState W P R K) :
    Action W P R → Option (ZMod K)
| .promote _ i _ => some i
| .steal _ _ => some s.control.currentIter
| .trySuspend _ i _ => some i
| .resumeOnSuspend _ i _ => some (rightOf i)
| .exitFreeLeft _ i => some (leftOf i)
| .exitFreeOwn _ i => some i
| .finishFreeLeft _ i => some (leftOf i)
| .finishMove _ i => some i
| .finishResumeNext _ i => some (rightOf i)
| .throttle _ => some s.nextBlock
| .suspendControl _ => some s.nextBlock
| .stealNext _ _ i => some (rightOf i)
| _ => none

/-
  The lock that the worker has kept from an earlier step and
  inside which the step is taken.
-/
def Action.outerLock : Action W P R → Option (ZMod K)
| .resumeOnSuspend _ i _ => some i
| .finishResumeNext _ i => some i
| .finishFreeOwn _ i _ => some i
| _ => none

/- The state without the marks on the blocks' locks. -/
def PipeState.unlocked
    (s : PipeState W P R K) : PipeState W P R K :=
  { s with
    block := fun x => { s.block x with dataLock := false } }

/- The pipeline and the locks of its blocks. -/
structure LockState (W P R : Type) (K : ℕ) where
  pipe : PipeState W P R K
  table : LockTable (ZMod K) W

/-
  A worker asks for the lock of a step, gets a lock, takes a
  step of the pipeline, or gives a lock back.
-/
inductive LockAction (W P R : Type) (K : ℕ) where
| request (a : Action W P R)
| acquire (w : W) (x : ZMod K)
| run (a : Action W P R)
| release (w : W) (x : ZMod K)

namespace LockState

variable [DecidableEq W]

/-
  When a step can be taken.  A worker asks for a lock where
  the code does, holding nothing but what an outer section of
  the code has locked, and it gives back every lock but the
  one that its block is marked to keep.
-/
def Enabled
    (st : LockState W P R K) :
    LockAction W P R K → Prop
| .request a =>
    st.pipe.unlocked.enabled a = true ∧
      (st.pipe.lockOf a).isSome = true ∧
      st.table.wants a.worker = none ∧
      ∀ x, st.table.owner x = some a.worker ↔
        a.outerLock = some x
| .acquire w x =>
    st.table.wants w = some x ∧ st.table.owner x = none
| .run a =>
    st.pipe.unlocked.enabled a = true ∧
      st.table.wants a.worker = none ∧
      (∀ x, st.pipe.lockOf a = some x →
        st.table.owner x = some a.worker) ∧
      ∀ x, a.outerLock = some x →
        st.table.owner x = some a.worker
| .release w x =>
    st.table.wants w = none ∧
      st.table.owner x = some w ∧
      (st.pipe.block x).dataLock = false

instance [NeZero K]
    (st : LockState W P R K) (l : LockAction W P R K) :
    Decidable (st.Enabled l) := by
  cases l <;> unfold Enabled <;> infer_instance

/- What a step does. -/
def exec
    (st : LockState W P R K) :
    LockAction W P R K → LockState W P R K
| .request a =>
    match st.pipe.lockOf a with
    | some x =>
        { st with table := st.table.request a.worker x }
    | none => st
| .acquire w x =>
    { st with table := st.table.acquire w x }
| .run a => { st with pipe := st.pipe.exec a }
| .release _ x => { st with table := st.table.release x }

end LockState

/-
  The pipeline with its locks.  A failed assertion stops it,
  and the lock of the control frame is observed.
-/
def lockSystem (W P R : Type) (K : ℕ) [DecidableEq W] :
    TransitionSystem (LockState W P R K)
      (LockAction W P R K) where
  init st :=
    (pipeSystem W P R K).init st.pipe ∧ st.table = .free
  step st l st' :=
    st.pipe.failure = none ∧ st.Enabled l ∧
      (∀ a, l = .run a → a.takesFrame = true →
        st.pipe.FrameFree) ∧
      st' = st.exec l

------------------------------------------------------------
-- Marks on the Blocks
------------------------------------------------------------

/- Which blocks are marked as locked. -/
def PipeState.dataLocks
    (s : PipeState W P R K) (x : ZMod K) : Bool :=
  (s.block x).dataLock

/- The steps that mark a block as locked or unlocked. -/
def Action.marksLock : Action W P R → Bool
| .trySuspend _ _ _ => true
| .resumeOnSuspend _ _ _ => true
| .finishMove _ _ => true
| .finishFreeOwn _ _ _ => true
| _ => false

/- The worker of the iteration keeps its block's lock. -/
def IterPc.keepsLock : IterPc → Bool
| .wait _ .marked => true
| .finishing .resumeNext => true
| .finishing .freeOwn => true
| _ => false

/- It is about to take the next block's lock as well. -/
def IterPc.nests : IterPc → Bool
| .wait _ .marked => true
| .finishing .resumeNext => true
| _ => false

theorem dataLocks_setBlock
    (s : PipeState W P R K) (x : ZMod K) (b : Block) :
    (s.setBlock x b).dataLocks =
      Function.update s.dataLocks x b.dataLock := by
  funext y
  unfold dataLocks
  rw [setBlock_block]
  by_cases hY : y = x
  · rw [hY, Function.update_self, Function.update_self]
  · rw [Function.update_of_ne hY, Function.update_of_ne hY]

/- A change of a block's other fields. -/
theorem dataLocks_of_same
    (s : PipeState W P R K) (x : ZMod K) {b : Block}
    (hSame : b.dataLock = (s.block x).dataLock) :
    (s.setBlock x b).dataLocks = s.dataLocks := by
  rw [dataLocks_setBlock, hSame]
  exact Function.update_eq_self x s.dataLocks

@[simp] theorem dataLocks_setPc
    (s : PipeState W P R K) (i : ℤ) (p : IterPc) :
    (s.setPc i p).dataLocks = s.dataLocks := rfl

@[simp] theorem dataLocks_setControl
    (s : PipeState W P R K) (c : ControlFrame W P R) :
    (s.setControl c).dataLocks = s.dataLocks := rfl

@[simp] theorem dataLocks_fail
    (s : PipeState W P R K) (f : Failure) :
    (s.fail f).dataLocks = s.dataLocks := rfl

@[simp] theorem dataLocks_check
    (s : PipeState W P R K) (c : Prop) [Decidable c] :
    (s.check c).dataLocks = s.dataLocks := by
  unfold check
  split <;> rfl

@[simp] theorem PipeState.check_block
    (s : PipeState W P R K) (c : Prop) [Decidable c] :
    (s.check c).block = s.block := by
  unfold check
  split <;> rfl

@[simp] theorem PipeState.check_nextBlock
    (s : PipeState W P R K) (c : Prop) [Decidable c] :
    (s.check c).nextBlock = s.nextBlock := by
  unfold nextBlock
  rw [check_control]

/- An assertion and a change of a block's other fields. -/
theorem dataLocks_check_setBlock
    (s : PipeState W P R K) (c : Prop) [Decidable c]
    (x : ZMod K) {b : Block}
    (hSame : b.dataLock = (s.block x).dataLock) :
    ((s.check c).setBlock x b).dataLocks =
      s.dataLocks := by
  rw [← dataLocks_check s c]
  apply dataLocks_of_same
  rw [check_block]
  exact hSame

@[simp] theorem dataLocks_stageAdvance
    (s : PipeState W P R K) (i v : ℤ) :
    (s.stageAdvance i v).dataLocks = s.dataLocks := by
  have hSet := dataLocks_of_same s i
    (b := { s.blk i with stage := v }) rfl
  unfold stageAdvance
  dsimp only
  split <;> exact hSet

@[simp] theorem dataLocks_tryResume
    (s : PipeState W P R K) (x : ZMod K) :
    (s.tryResumeNextIteration x).1.dataLocks =
      s.dataLocks := by
  unfold tryResumeNextIteration
  dsimp only
  split
  · exact dataLocks_check_setBlock s _ _ rfl
  · rfl

@[simp] theorem dataLocks_moveToDone
    (s : PipeState W P R K) (i : ℤ) :
    (s.moveIterStageToDone i).dataLocks = s.dataLocks := by
  unfold moveIterStageToDone
  exact dataLocks_check_setBlock s _ _ rfl

variable [DecidableEq W]

@[simp] theorem dataLocks_setWorker
    (s : PipeState W P R K) (w : W) (v : Worker P R) :
    (s.setWorker w v).dataLocks = s.dataLocks := rfl

@[simp] theorem dataLocks_handControl
    (s : PipeState W P R K) (w : W) :
    (s.handControl w).dataLocks = s.dataLocks := rfl

@[simp] theorem dataLocks_tryRemove
    (s : PipeState W P R K) (w : W) :
    (s.tryRemoveImplicitParent w).1.dataLocks =
      s.dataLocks := by
  unfold tryRemoveImplicitParent
  dsimp only
  split
  · rfl
  · simp
  · split <;> rfl

@[simp] theorem dataLocks_tryFree
    (s : PipeState W P R K) (x : ZMod K) (w : Option W)
    (q : Party) :
    (s.tryFreeIterDataBlock x w q).dataLocks =
      s.dataLocks := by
  unfold tryFreeIterDataBlock
  dsimp only
  split
  · have hSet : ∀ c : Prop, ∀ _ : Decidable c,
        ((s.check c).setBlock x
          (if ((s.block x).finishIter q).readyForReuse then
            ((s.block x).finishIter q).markFrameAsDone
          else (s.block x).finishIter q)).dataLocks =
          s.dataLocks := by
      intro c _
      apply dataLocks_check_setBlock
      split <;> rfl
    cases w with
    | none => exact hSet _ _
    | some w =>
        dsimp only
        split
        · rw [dataLocks_setWorker]
          exact hSet _ _
        · exact hSet _ _
  · rfl

@[simp] theorem dataLocks_install
    (s : PipeState W P R K) (u w : W) :
    (s.installIterationFrame u w).dataLocks =
      s.dataLocks := by
  unfold installIterationFrame
  dsimp only
  rw [dataLocks_setControl, dataLocks_setWorker]
  apply dataLocks_check_setBlock
  unfold blk
  rw [check_block]

/- Most steps leave the marks as they are. -/
theorem exec_dataLocks
    {a : Action W P R}
    (hPlain : a.marksLock = false) :
    (s.exec a).dataLocks = s.dataLocks := by
  cases a with
  | stage w i v => simp [PipeState.exec]
  | stageWait w i v => simp [PipeState.exec]
  | endBody w i =>
      simp only [PipeState.exec, finalStageWait]
      split <;> simp
  | testCached w i f =>
      simp only [PipeState.exec, testCachedStage]
      split <;> rfl
  | testLeft w i f =>
      have hSet := dataLocks_of_same s i
        (b := { s.blk i with
          cachedLeftStage :=
            (s.block (leftOf i)).stage }) rfl
      simp only [PipeState.exec, testLeftStage]
      split <;> exact hSet
  | testStall w i f =>
      simp only [PipeState.exec, stageWaitTest]
      split <;> rfl
  | promote w i f =>
      simp [PipeState.exec, promoteRightmostIter]
  | finishStage w i =>
      simp only [PipeState.exec, finishFinalUserStage]
      split
      · exact dataLocks_of_same s i rfl
      · rfl
  | exitMove w i =>
      simp [PipeState.exec, PipeState.exitMove]
  | exitFreeLeft w i =>
      simp [PipeState.exec, PipeState.exitFreeLeft]
  | exitFreeOwn w i =>
      simp [PipeState.exec, PipeState.exitFreeOwn]
  | pipeIterFinish w i =>
      simp only [PipeState.exec, PipeState.pipeIterFinish]
      split <;> simp
  | finishFreeLeft w i =>
      simp [PipeState.exec, PipeState.finishFreeLeft]
  | finishResumeNext w i =>
      simp [PipeState.exec, PipeState.finishResumeNext]
  | finishGetNext w i r =>
      simp only [PipeState.exec, PipeState.finishGetNext]
      split
      · rfl
      · split <;> simp
  | initIter w =>
      simp only [PipeState.exec, initIterFrame]
      rw [dataLocks_setPc, dataLocks_setControl]
      exact dataLocks_check_setBlock s _ _ rfl
  | throttle w =>
      simp only [PipeState.exec, PipeState.throttle]
      split
      · rw [dataLocks_setControl, check_nextBlock]
        exact dataLocks_check_setBlock s _ _ rfl
      · simp
  | suspendControl w =>
      have hSave : (s.saveWorkerStateForSuspendControl
          w).dataLocks = s.dataLocks := by
        simp [saveWorkerStateForSuspendControl]
      simp only [PipeState.exec, suspendControlFrame]
      rw [← hSave]
      generalize s.saveWorkerStateForSuspendControl w = r
      unfold trySuspendControlFrameAtThrottle
      dsimp only
      rw [check_nextBlock]
      split
      · rw [dataLocks_setControl]
        exact dataLocks_check_setBlock r _ _ rfl
      · rw [dataLocks_handControl, dataLocks_setControl,
          dataLocks_check]
        exact dataLocks_check_setBlock r _ _ rfl
  | passThrottle w =>
      simp only [PipeState.exec, PipeState.passThrottle]
      rw [dataLocks_setControl, check_nextBlock]
      exact dataLocks_check_setBlock s _ _ rfl
  | sync w =>
      simp only [PipeState.exec, PipeState.sync]
      split <;> rfl
  | steal u w => simp [PipeState.exec, stealControl]
  | stealParent u w i =>
      simp only [PipeState.exec, PipeState.stealParent,
        foundWork]
      split <;> simp
  | stealNext u w i =>
      simp only [PipeState.exec, PipeState.stealNext]
      split <;> simp
  | setupControl w =>
      simp only [PipeState.exec]
      rw [setupControl_eq]
      rfl
  | iterSetup w i f =>
      simp only [PipeState.exec, PipeState.iterSetup]
      rw [dataLocks_setPc, dataLocks_setWorker]
      apply dataLocks_check_setBlock
      unfold blk
      rw [check_block]
  | pause w i f => rfl
  | switch w i f => rfl
  | pop w i => rfl
  | enterFinish w i => rfl
  | work w p r => rfl
  | _ => cases hPlain

end Piper

end PRacer
