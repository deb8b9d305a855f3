import PRacer.Piper.StageWait
import PRacer.Piper.Handoff

/-
  What one step can change: the positions of iterations, the
  tasks of other workers, and the child of the control frame.

  Main declarations:
    * `IterPc.Step`, `Goes`, `Inv.exec_goes`
    * `exec_task`, `Inv.exec_runtime`
    * `Inv.exec_attached`
-/

------------------------------------------------------------
-- Who Takes a Step
------------------------------------------------------------

namespace PRacer

namespace Piper

open Foundations
open PipeState

variable {W P R : Type} [DecidableEq W] {K : ℕ}
variable {s t : PipeState W P R K}

/- The worker that takes the step; of a steal, the thief. -/
def Action.worker : Action W P R → W
| .stage w _ _ => w
| .stageWait w _ _ => w
| .endBody w _ => w
| .testCached w _ _ => w
| .testLeft w _ _ => w
| .testStall w _ _ => w
| .pause w _ _ => w
| .promote w _ _ => w
| .switch w _ _ => w
| .trySuspend w _ _ => w
| .resumeOnSuspend w _ _ => w
| .finishStage w _ => w
| .pop w _ => w
| .exitMove w _ => w
| .exitFreeLeft w _ => w
| .exitFreeOwn w _ => w
| .enterFinish w _ => w
| .pipeIterFinish w _ => w
| .finishFreeLeft w _ => w
| .finishMove w _ => w
| .finishResumeNext w _ => w
| .finishFreeOwn w _ _ => w
| .finishGetNext w _ _ => w
| .initIter w => w
| .throttle w => w
| .suspendControl w => w
| .passThrottle w => w
| .sync w => w
| .steal u _ => u
| .stealParent u _ _ => u
| .stealNext u _ _ => u
| .setupControl w => w
| .iterSetup w _ _ => w
| .work w _ _ => w

/- The started iteration whose position a step moves. -/
def Action.moves : Action W P R → Option ℤ
| .stageWait _ i _ => some i
| .endBody _ i => some i
| .testCached _ i _ => some i
| .testLeft _ i _ => some i
| .testStall _ i _ => some i
| .pause _ i _ => some i
| .switch _ i _ => some i
| .trySuspend _ i _ => some i
| .resumeOnSuspend _ i _ => some i
| .finishStage _ i => some i
| .pop _ i => some i
| .exitMove _ i => some i
| .exitFreeLeft _ i => some i
| .exitFreeOwn _ i => some i
| .enterFinish _ i => some i
| .pipeIterFinish _ i => some i
| .finishFreeLeft _ i => some i
| .finishMove _ i => some i
| .finishResumeNext _ i => some i
| .finishFreeOwn _ i _ => some i
| .finishGetNext _ i _ => some i
| .iterSetup _ i _ => some i
| _ => none

------------------------------------------------------------
-- Positions
------------------------------------------------------------

/-
  Where an iteration can stand next by a step of its own,
  other than the one that takes the control frame's lock.
-/
inductive IterPc.Step : IterPc → IterPc → Prop
| enterWait : Step .body (.wait false .cache)
| enterLast : Step .body (.wait true .cache)
| skipLast : Step .body .final
| passCached (f : Bool) :
    Step (.wait f .cache) (.afterWait f)
| readLeft (f : Bool) :
    Step (.wait f .cache) (.wait f .left)
| passLeft (f : Bool) :
    Step (.wait f .left) (.afterWait f)
| callWait (f : Bool) :
    Step (.wait f .left) (.wait f .check)
| goStall (f : Bool) :
    Step (.wait f .check) (.wait f .stall)
| goBack (f : Bool) :
    Step (.wait f .check) (.wait f .cache)
| retest (f : Bool) :
    Step (.wait f .stall) (.wait f .check)
| goSwitch (f : Bool) :
    Step (.wait f .stall) (.wait f .switching)
| goMarked (f : Bool) :
    Step (.wait f .switching) (.wait f .marked)
| goQueued (f : Bool) :
    Step (.wait f .switching) (.wait f .queued)
| goAsleep (f : Bool) :
    Step (.wait f .marked) (.wait f .suspended)
| goOn (f : Bool) :
    Step (.wait f .queued) (.wait f .check)
| leave : Step .final .leaving
| pop : Step .leaving (.exiting .move)
| exitMove : Step (.exiting .move) (.exiting .freeLeft)
| exitLeft : Step (.exiting .freeLeft) (.exiting .freeOwn)
| exitOwn : Step (.exiting .freeOwn) .finished
| enterFinish : Step .leaving (.finishing .enter)
| lastAtSync : Step (.finishing .enter) .lastAtSync
| freeLeft : Step (.finishing .freeLeft) (.finishing .move)
| move : Step (.finishing .move) (.finishing .resumeNext)
| resumeNext :
    Step (.finishing .resumeNext) (.finishing .freeOwn)
| freeOwn : Step (.finishing .freeOwn) (.finishing .getNext)
| getNext : Step (.finishing .getNext) .finished

/-
  What a step does to the position of an iteration: it stays,
  it moves by the step, it is woken up, it starts, or it goes
  on to clean up under the control frame's lock.
-/
inductive Goes
    (s t : PipeState W P R K) (a : Action W P R) (j : ℤ) :
    Prop
| stays (hPc : t.pc j = s.pc j)
| steps
    (hMoves : a.moves = some j)
    (hStep : (s.pc j).Step (t.pc j))
| wakes (f : Bool)
    (hOld : s.pc j = .wait f .suspended)
    (hNew : t.pc j = .wait f .queued)
| starts (w : W)
    (hAct : a = .initIter w)
    (hCur : j = s.cur)
    (hOld : s.pc j = .notStarted)
    (hNew : t.pc j = .body)
| cleans (w : W)
    (hAct : a = .pipeIterFinish w j)
    (hOld : s.pc j = .finishing .enter)
    (hNew : t.pc j = .finishing .freeLeft)

section Goes

omit [DecidableEq W]

@[simp] theorem PipeState.check_pc
    (s : PipeState W P R K) (c : Prop) [Decidable c] :
    (s.check c).pc = s.pc := by
  unfold check
  split <;> rfl

variable {a : Action W P R}

theorem goes_of_eq
    (hPaths : t.paths = s.paths) (j : ℤ) :
    Goes s t a j := by
  apply Goes.stays
  exact congrFun (congrArg Prod.fst hPaths) j

theorem goes_of_update
    {i : ℤ} {p : IterPc}
    (hPaths : t.paths = (s.setPc i p).paths)
    (hMoves : a.moves = some i)
    (hStep : (s.pc i).Step p) (j : ℤ) :
    Goes s t a j := by
  have hPc : t.pc = Function.update s.pc i p :=
    congrArg Prod.fst hPaths
  by_cases hJ : j = i
  · subst hJ
    apply Goes.steps hMoves
    rw [hPc, Function.update_self]
    exact hStep
  · apply Goes.stays
    rw [hPc, Function.update_of_ne hJ]

/- A resume step, given what it does to its own iteration. -/
theorem goes_of_resumes
    {i : ℤ}
    (hRight : ResumesRight s t i)
    (hOwn : Goes s t a i) (j : ℤ) :
    Goes s t a j := by
  by_cases hI : j = i
  · rw [hI]
    exact hOwn
  · by_cases hNext : j = i + 1
    · subst hNext
      rcases hRight.right with
        ⟨hPc, -, -⟩ | ⟨f, hOld, -, -, hNew, -, -⟩
      · exact Goes.stays hPc
      · exact Goes.wakes f hOld hNew
    · exact Goes.stays (hRight.others j hI hNext)

end Goes

/- The helper moves no iteration but the next one. -/
theorem Inv.stealNext_pc
    (h : Inv s) {u w : W} {i : ℤ}
    (hEn : s.enabled (.stealNext u w i) = true) :
    (s.stealNext u i).pc i = s.pc i := by
  simp only [enabled, decide_eq_true_eq] at hEn
  rcases hEn with ⟨-, hTask, -, -, hLock⟩
  rcases h.of_task_iter hTask with ⟨hExec, -, -⟩
  have hLive := IterPc.isLive (h.place_of_executes hExec)
  rw [rightOf_cast, block_cast] at hLock
  have hCase := h.resumeCase (t := s) (p := s.pc i)
    hLive.ne_notStarted hLive.freedOwn hLock rfl
    rfl (Function.update_eq_self _ _).symm
  have hPaths := (stealNext_parts s u i).2
  rw [paths_eq_iff] at hPaths
  rw [hPaths.1]
  rcases hCase with hSame | ⟨f, -, -, -, hWake⟩
  · rw [hSame]
  · rw [hWake, wake_pc, Function.update_of_ne (by omega)]

/- The iteration that resumes the next one goes to sleep. -/
theorem Inv.resumeOnSuspend_goes
    (h : Inv s) {w : W} {i : ℤ} {f : Bool}
    (hEn : s.enabled (.resumeOnSuspend w i f) = true) :
    Goes s (s.exec (.resumeOnSuspend w i f))
      (.resumeOnSuspend w i f) i := by
  have hRight := h.resumesRight hEn rfl
  simp only [enabled, decide_eq_true_eq] at hEn
  have hWaiting := hRight.waiting
  have hMarked := hRight.marked
  rw [hEn.2.1] at hWaiting hMarked
  generalize hNew :
    (s.exec (.resumeOnSuspend w i f)).pc i = p
    at hWaiting hMarked
  cases p with
  | wait g q =>
      cases hWaiting
      cases q with
      | marked =>
          apply Goes.stays
          rw [hNew, hEn.2.1]
      | suspended =>
          apply Goes.steps rfl
          rw [hNew, hEn.2.1]
          exact IterPc.Step.goAsleep f
      | _ => cases hMarked
  | _ => cases hWaiting

/- Every step moves the iterations as described. -/
theorem Inv.exec_goes
    (h : Inv s) {a : Action W P R}
    (hEn : s.enabled a = true) (j : ℤ) :
    Goes s (s.exec a) a j := by
  cases a with
  | stage w i v =>
      apply goes_of_eq
      simp [PipeState.exec]
  | stageWait w i v =>
      simp only [enabled, decide_eq_true_eq] at hEn
      apply goes_of_update (i := i)
        (p := .wait false .cache)
      · simp [PipeState.exec]
      · rfl
      · rw [hEn.2.1]
        exact IterPc.Step.enterWait
  | endBody w i =>
      simp only [enabled, decide_eq_true_eq] at hEn
      simp only [PipeState.exec, finalStageWait]
      split
      · apply goes_of_update (i := i)
          (p := .wait true .cache)
        · simp
        · rfl
        · rw [hEn.2]
          exact IterPc.Step.enterLast
      · apply goes_of_update (i := i) (p := .final)
        · rfl
        · rfl
        · rw [hEn.2]
          exact IterPc.Step.skipLast
  | testCached w i f =>
      simp only [enabled, decide_eq_true_eq] at hEn
      simp only [PipeState.exec, testCachedStage]
      split
      · apply goes_of_update (i := i)
        · rfl
        · rfl
        · rw [hEn.2]
          exact IterPc.Step.passCached f
      · apply goes_of_update (i := i)
        · rfl
        · rfl
        · rw [hEn.2]
          exact IterPc.Step.readLeft f
  | testLeft w i f =>
      simp only [enabled, decide_eq_true_eq] at hEn
      simp only [PipeState.exec, testLeftStage]
      split
      · apply goes_of_update (i := i) (p := .afterWait f)
        · rfl
        · rfl
        · rw [hEn.2]
          exact IterPc.Step.passLeft f
      · apply goes_of_update (i := i) (p := .wait f .check)
        · rfl
        · rfl
        · rw [hEn.2]
          exact IterPc.Step.callWait f
  | testStall w i f =>
      simp only [enabled, decide_eq_true_eq] at hEn
      simp only [PipeState.exec, stageWaitTest]
      split
      · apply goes_of_update (i := i)
        · rfl
        · rfl
        · rw [hEn.2]
          exact IterPc.Step.goStall f
      · apply goes_of_update (i := i)
        · rfl
        · rfl
        · rw [hEn.2]
          exact IterPc.Step.goBack f
  | pause w i f =>
      simp only [enabled, decide_eq_true_eq] at hEn
      apply goes_of_update (i := i)
      · rfl
      · rfl
      · rw [hEn.2]
        exact IterPc.Step.retest f
  | promote w i f =>
      apply goes_of_eq
      simp [PipeState.exec, promoteRightmostIter]
  | switch w i f =>
      simp only [enabled, decide_eq_true_eq] at hEn
      apply goes_of_update (i := i) (p := .wait f .switching)
      · rfl
      · rfl
      · rw [hEn.2]
        exact IterPc.Step.goSwitch f
  | trySuspend w i f =>
      simp only [enabled, decide_eq_true_eq] at hEn
      have hStall : ∀ b : Bool,
          s.needToStall i = b →
            (s.trySuspendAtStageWait w i f).pc =
              Function.update s.pc i
                (.wait f (if b then .marked
                  else .queued)) := by
        intro b hB
        unfold trySuspendAtStageWait
        dsimp only
        rw [hB]
        cases b with
        | false => rfl
        | true =>
            change Function.update (s.check _).pc i _ = _
            rw [check_pc]
            rfl
      by_cases hJ : j = i
      · subst hJ
        apply Goes.steps rfl
        rw [hEn.2.1]
        simp only [PipeState.exec]
        rw [hStall _ rfl, Function.update_self]
        split
        · exact IterPc.Step.goMarked f
        · exact IterPc.Step.goQueued f
      · apply Goes.stays
        simp only [PipeState.exec]
        rw [hStall _ rfl, Function.update_of_ne hJ]
  | resumeOnSuspend w i f =>
      exact goes_of_resumes (h.resumesRight hEn rfl)
        (h.resumeOnSuspend_goes hEn) j
  | finishStage w i =>
      simp only [enabled, decide_eq_true_eq] at hEn
      simp only [PipeState.exec, finishFinalUserStage]
      split
      · apply goes_of_update (i := i) (p := .leaving)
        · rfl
        · rfl
        · rw [hEn.2]
          exact IterPc.Step.leave
      · apply goes_of_eq
        rfl
  | pop w i =>
      simp only [enabled, decide_eq_true_eq] at hEn
      apply goes_of_update (i := i) (p := .exiting .move)
      · rfl
      · rfl
      · rw [hEn.2.2.2]
        exact IterPc.Step.pop
  | exitMove w i =>
      simp only [enabled, decide_eq_true_eq] at hEn
      apply goes_of_update (i := i)
        (p := .exiting .freeLeft)
      · simp [PipeState.exec, PipeState.exitMove,
          moveIterStageToDone]
      · rfl
      · rw [hEn.2.2.2]
        exact IterPc.Step.exitMove
  | exitFreeLeft w i =>
      simp only [enabled, decide_eq_true_eq] at hEn
      apply goes_of_update (i := i)
        (p := .exiting .freeOwn)
      · simp [PipeState.exec, PipeState.exitFreeLeft]
      · rfl
      · rw [hEn.2.2.2.1]
        exact IterPc.Step.exitLeft
  | exitFreeOwn w i =>
      simp only [enabled, decide_eq_true_eq] at hEn
      apply goes_of_update (i := i) (p := .finished)
      · simp [PipeState.exec, PipeState.exitFreeOwn]
      · rfl
      · rw [hEn.2.2.2.1]
        exact IterPc.Step.exitOwn
  | enterFinish w i =>
      simp only [enabled, decide_eq_true_eq] at hEn
      apply goes_of_update (i := i) (p := .finishing .enter)
      · rfl
      · rfl
      · rw [hEn.2]
        exact IterPc.Step.enterFinish
  | pipeIterFinish w i =>
      simp only [enabled, decide_eq_true_eq] at hEn
      simp only [PipeState.exec, PipeState.pipeIterFinish]
      split
      · apply goes_of_update (i := i) (p := .lastAtSync)
        · simp
        · rfl
        · rw [hEn.2]
          exact IterPc.Step.lastAtSync
      · by_cases hJ : j = i
        · subst hJ
          apply Goes.cleans w rfl hEn.2
          simp
        · apply Goes.stays
          simp [hJ]
  | finishFreeLeft w i =>
      simp only [enabled, decide_eq_true_eq] at hEn
      apply goes_of_update (i := i) (p := .finishing .move)
      · simp [PipeState.exec, PipeState.finishFreeLeft]
      · rfl
      · rw [hEn.2.1]
        exact IterPc.Step.freeLeft
  | finishMove w i =>
      simp only [enabled, decide_eq_true_eq] at hEn
      apply goes_of_update (i := i)
        (p := .finishing .resumeNext)
      · simp [PipeState.exec, PipeState.finishMove,
          moveIterStageToDone]
      · rfl
      · rw [hEn.2.1]
        exact IterPc.Step.move
  | finishResumeNext w i =>
      have hRight := h.resumesRight hEn rfl
      simp only [enabled, decide_eq_true_eq] at hEn
      apply goes_of_resumes hRight
      apply Goes.steps rfl
      rw [hEn.2.1]
      simp only [PipeState.exec,
        PipeState.finishResumeNext, setPc_pc,
        Function.update_self]
      exact IterPc.Step.resumeNext
  | finishFreeOwn w i r =>
      simp only [enabled, decide_eq_true_eq] at hEn
      apply goes_of_update (i := i)
        (p := .finishing .getNext)
      · simp [PipeState.exec, PipeState.finishFreeOwn]
      · rfl
      · rw [hEn.2]
        exact IterPc.Step.freeOwn
  | finishGetNext w i r =>
      simp only [enabled, decide_eq_true_eq] at hEn
      apply goes_of_update (i := i) (p := .finished)
      · simp only [PipeState.exec, PipeState.finishGetNext]
        split
        · rfl
        · split <;> simp
      · rfl
      · rw [hEn.2]
        exact IterPc.Step.getNext
  | initIter w =>
      simp only [enabled, decide_eq_true_eq] at hEn
      have hNot : s.pc s.cur = .notStarted := by
        rw [h.core.positions.current, hEn.2]
        rfl
      have hPaths : (s.exec (.initIter w)).paths =
          (s.setPc s.cur .body).paths := by
        simp [PipeState.exec, initIterFrame]
      have hPc := congrArg Prod.fst hPaths
      change (s.exec (.initIter w)).pc =
        Function.update s.pc s.cur .body at hPc
      by_cases hJ : j = s.cur
      · apply Goes.starts w rfl hJ
        · rw [hJ]
          exact hNot
        · rw [hPc, hJ, Function.update_self]
      · apply Goes.stays
        rw [hPc, Function.update_of_ne hJ]
  | throttle w =>
      apply goes_of_eq
      simp only [PipeState.exec, PipeState.throttle]
      split <;> simp
  | suspendControl w =>
      apply goes_of_eq
      simp [PipeState.exec, suspendControlFrame,
        saveWorkerStateForSuspendControl]
  | passThrottle w =>
      apply goes_of_eq
      simp [PipeState.exec, PipeState.passThrottle]
  | sync w =>
      apply goes_of_eq
      simp only [PipeState.exec, PipeState.sync]
      split <;> simp
  | steal u w =>
      apply goes_of_eq
      simp [PipeState.exec, stealControl]
  | stealParent u w i =>
      apply goes_of_eq
      simp only [PipeState.exec, PipeState.stealParent,
        foundWork]
      split <;> simp
  | stealNext u w i =>
      apply goes_of_resumes (h.resumesRight hEn rfl)
      apply Goes.stays
      exact h.stealNext_pc hEn
  | setupControl w =>
      apply goes_of_eq
      simp only [PipeState.exec]
      rw [setupControl_eq]
      rfl
  | iterSetup w i f =>
      simp only [enabled, decide_eq_true_eq] at hEn
      apply goes_of_update (i := i) (p := .wait f .check)
      · simp [PipeState.exec, PipeState.iterSetup]
      · rfl
      · rw [hEn.2]
        exact IterPc.Step.goOn f
  | work w p r =>
      apply goes_of_eq
      rfl

------------------------------------------------------------
-- Tasks
------------------------------------------------------------

/- Decrementing a counter gives nobody another task. -/
@[simp] theorem tryFree_task
    (s : PipeState W P R K) (x : ZMod K) (w : Option W)
    (q : Party) (u : W) :
    ((s.tryFreeIterDataBlock x w q).worker u).task =
      (s.worker u).task := by
  unfold tryFreeIterDataBlock
  dsimp only
  split
  · cases w with
    | none => simp
    | some w =>
        dsimp only
        split
        · by_cases hU : u = w
          · rw [hU]
            simp
          · simp [hU]
        · simp
  · rfl

/- Nor does taking the parent from a deque. -/
@[simp] theorem tryRemove_task
    (s : PipeState W P R K) (w u : W) :
    ((s.tryRemoveImplicitParent w).1.worker u).task =
      (s.worker u).task := by
  have hSet : ((s.setWorker w
      { s.worker w with
        parentResume := .noParent }).worker u).task =
      (s.worker u).task := by
    by_cases hU : u = w
    · rw [hU]
      simp
    · simp [hU]
  unfold tryRemoveImplicitParent
  dsimp only
  split
  · exact hSet
  · rw [check_worker]
    exact hSet
  · split
    · exact hSet
    · exact hSet

omit [DecidableEq W] in
@[simp] theorem stageAdvance_worker
    (s : PipeState W P R K) (i v : ℤ) :
    (s.stageAdvance i v).worker = s.worker := by
  unfold stageAdvance
  dsimp only
  split <;> rfl

/- A promotion changes the worker of the iteration only. -/
theorem install_task
    (s : PipeState W P R K) (u : W) {v w : W}
    (hNe : w ≠ v) :
    ((s.installIterationFrame u v).worker w).task =
      (s.worker w).task := by
  simp [installIterationFrame, hNe]

/-
  A worker that does not execute the control frame is left
  alone by the others' steps.
-/
theorem exec_task
    {a : Action W P R} {w : W}
    (hEn : s.enabled a = true)
    (hNe : w ≠ a.worker)
    (hTask : (s.worker w).task ≠ .control) :
    ((s.exec a).worker w).task = (s.worker w).task := by
  cases a with
  | endBody u j =>
      simp only [PipeState.exec, finalStageWait]
      split <;> simp
  | testCached u j f =>
      simp only [PipeState.exec, testCachedStage]
      split <;> simp
  | testLeft u j f =>
      simp only [PipeState.exec, testLeftStage]
      split <;> simp
  | testStall u j f =>
      simp only [PipeState.exec, stageWaitTest]
      split <;> simp
  | promote u j f => exact install_task s u hNe
  | switch u j f =>
      simp only [Action.worker] at hNe
      simp [PipeState.exec, suspendPipeIterFrame, hNe]
  | trySuspend u j f =>
      simp only [Action.worker] at hNe
      simp only [PipeState.exec, trySuspendAtStageWait]
      split
      · simp
      · simp [hNe]
  | resumeOnSuspend u j f =>
      simp only [Action.worker] at hNe
      simp only [PipeState.exec, tryResumeNextIterOnSuspend]
      split
      · simp [hNe]
      · split
        · simp [hNe]
        · simp [PipeState.handControl, hNe]
  | finishStage u j =>
      simp only [PipeState.exec, finishFinalUserStage]
      split <;> simp
  | enterFinish u j =>
      simp only [Action.worker] at hNe
      simp [PipeState.exec, PipeState.enterFinish, hNe]
  | pipeIterFinish u j =>
      simp only [Action.worker] at hNe
      simp only [PipeState.exec, PipeState.pipeIterFinish]
      split
      · simp [PipeState.handControl, hNe]
      · simp
  | finishResumeNext u j =>
      simp only [Action.worker] at hNe
      simp [PipeState.exec, PipeState.finishResumeNext, hNe]
  | finishGetNext u j r' =>
      simp only [Action.worker] at hNe
      simp only [PipeState.exec, PipeState.finishGetNext]
      split
      · simp [hNe]
      · split
        · simp [PipeState.handControl, hNe]
        · simp [hNe]
  | throttle u =>
      simp only [PipeState.exec, PipeState.throttle]
      split <;> simp
  | suspendControl u =>
      simp only [Action.worker] at hNe
      simp only [PipeState.exec, suspendControlFrame,
        trySuspendControlFrameAtThrottle]
      split
      · simp [saveWorkerStateForSuspendControl, hNe]
      · simp [saveWorkerStateForSuspendControl,
          PipeState.handControl, hNe]
  | sync u =>
      simp only [Action.worker] at hNe
      simp only [PipeState.exec, PipeState.sync]
      split
      · simp
      · simp [hNe]
  | steal u v =>
      simp only [Action.worker] at hNe
      simp only [enabled, decide_eq_true_eq] at hEn
      have hVictim : w ≠ v := by
        rintro rfl
        exact hTask hEn.2.1
      have hInstall := install_task s u hVictim
      simpa [PipeState.exec, stealControl, hNe]
        using hInstall
  | stealParent u v j =>
      simp only [Action.worker] at hNe
      simp only [PipeState.exec, PipeState.stealParent]
      split
      · simp [PipeState.handControl, foundWork, hNe]
      · simp
  | stealNext u v j =>
      simp only [Action.worker] at hNe
      simp only [PipeState.exec, PipeState.stealNext]
      split
      · simp [hNe]
      · simp
  | setupControl u =>
      simp only [Action.worker] at hNe
      exact congrArg Worker.task
        (setupControl_worker_of_ne s hNe)
  | iterSetup u j f =>
      simp only [Action.worker] at hNe
      simp [PipeState.exec, PipeState.iterSetup, hNe]
  | work u p r' =>
      simp only [Action.worker] at hNe
      simp [PipeState.exec, PipeState.work, hNe]
  | _ =>
      simp [PipeState.exec, PipeState.popControl,
        PipeState.exitMove, moveIterStageToDone,
        PipeState.exitFreeLeft, PipeState.exitFreeOwn,
        PipeState.finishFreeLeft, PipeState.finishMove,
        PipeState.finishFreeOwn, initIterFrame,
        PipeState.passThrottle]

omit [DecidableEq W] in
/- A step on an iteration in the runtime is its worker's. -/
theorem task_of_moves
    {a : Action W P R} {i : ℤ}
    (hEn : s.enabled a = true)
    (hMoves : a.moves = some i)
    (hPlace : (s.pc i).place = .runtime) :
    ∃ r, (s.worker a.worker).task = .runtime i r := by
  cases a with
  | trySuspend w j f =>
      cases hMoves
      simp only [enabled, decide_eq_true_eq] at hEn
      exact ⟨none, hEn.1⟩
  | resumeOnSuspend w j f =>
      cases hMoves
      simp only [enabled, decide_eq_true_eq] at hEn
      exact ⟨none, hEn.1⟩
  | pipeIterFinish w j =>
      cases hMoves
      simp only [enabled, decide_eq_true_eq] at hEn
      exact ⟨none, hEn.1⟩
  | finishFreeLeft w j =>
      cases hMoves
      simp only [enabled, decide_eq_true_eq] at hEn
      exact ⟨none, hEn.1⟩
  | finishMove w j =>
      cases hMoves
      simp only [enabled, decide_eq_true_eq] at hEn
      exact ⟨none, hEn.1⟩
  | finishResumeNext w j =>
      cases hMoves
      simp only [enabled, decide_eq_true_eq] at hEn
      exact ⟨none, hEn.1⟩
  | finishFreeOwn w j r =>
      cases hMoves
      simp only [enabled, decide_eq_true_eq] at hEn
      exact ⟨r, hEn.1⟩
  | finishGetNext w j r =>
      cases hMoves
      simp only [enabled, decide_eq_true_eq] at hEn
      exact ⟨r, hEn.1⟩
  | _ =>
      -- The iteration is executed, exits or is queued.
      cases hMoves <;>
        simp only [enabled, decide_eq_true_eq] at hEn <;>
        simp [hEn, IterPc.place, WaitPc.place] at hPlace

/-
  The iteration that a worker has in the runtime stays where
  it is while others take steps.
-/
theorem Inv.exec_runtime
    (h : Inv s) {a : Action W P R} {w : W} {i : ℤ}
    {r : Option ℤ}
    (hEn : s.enabled a = true)
    (hNe : w ≠ a.worker)
    (hTask : (s.worker w).task = .runtime i r) :
    ((s.exec a).worker w).task = .runtime i r ∧
      (s.exec a).pc i = s.pc i := by
  have hRuntime := exec_task hEn hNe (by simp [hTask])
  refine ⟨hRuntime.trans hTask, ?_⟩
  have hPlace := (h.tasks.task w).runtime i r hTask
  have hHolds : s.HoldsIter w i := by
    unfold HoldsIter
    rw [hTask]
    simp [Task.iters]
  have hNot : a.moves ≠ some i := by
    intro hMoves
    rcases task_of_moves hEn hMoves hPlace with ⟨r', hOther⟩
    apply hNe
    apply h.tasks.iterUnique w a.worker i hHolds
    unfold HoldsIter
    rw [hOther]
    simp [Task.iters]
  cases h.exec_goes hEn i with
  | stays hPc => exact hPc
  | steps hMoves _ => exact absurd hMoves hNot
  | wakes f hOld _ =>
      rw [hOld] at hPlace
      cases hPlace
  | starts u _ _ hOld _ =>
      rw [hOld] at hPlace
      cases hPlace
  | cleans u hAct _ _ =>
      apply absurd _ hNot
      rw [hAct]
      rfl

------------------------------------------------------------
-- The Attached Child
------------------------------------------------------------

/- The steps that start, promote or end the current child. -/
def Action.seats : Action W P R → Bool
| .initIter _ => true
| .promote _ _ _ => true
| .steal _ _ => true
| .pop _ _ => true
| .exitFreeOwn _ _ => true
| .passThrottle _ => true
| _ => false

/-
  The current iteration, and whether it is an attached
  child.
-/
def PipeState.seat (s : PipeState W P R K) : ℤ × Bool :=
  (s.cur, s.control.pc.attached)

omit [DecidableEq W] in
theorem seat_of_control
    (hControl : t.control = s.control) :
    t.seat = s.seat := by
  unfold seat cur
  rw [hControl]

omit [DecidableEq W] in
theorem seat_stageAdvance
    (s : PipeState W P R K) (i v : ℤ) :
    (s.stageAdvance i v).seat = s.seat := by
  unfold stageAdvance
  dsimp only
  split
  · rename_i hCpc
    unfold seat
    rw [show s.control.pc = .child false from hCpc]
    rfl
  · rfl

theorem seat_trySuspendControl
    (w : W)
    (hCpc : s.control.pc = .slowPath) :
    (s.trySuspendControlFrameAtThrottle w).seat =
      s.seat := by
  unfold trySuspendControlFrameAtThrottle
  dsimp only
  split
  · simp [seat, cur, hCpc, ControlPc.attached]
  · simp [PipeState.handControl, seat, cur, hCpc,
      ControlPc.attached]

/- Only a suspended control frame is taken to be resumed. -/
theorem Flags.seat_tryRemove
    (h : Flags s) (w : W)
    (hControl : t.control = s.control) :
    (t.tryRemoveImplicitParent w).1.seat = s.seat := by
  rw [← seat_of_control hControl]
  unfold tryRemoveImplicitParent
  dsimp only
  split
  · rfl
  · apply seat_of_control
    simp
  · split
    · rename_i hFlags
      have hCpc : t.control.pc = .suspended := by
        rw [hControl]
        apply h.suspended.mp
        rw [← hControl]
        exact hFlags
      unfold seat
      rw [hCpc]
      rfl
    · rfl

/-
  The other steps neither change the current iteration nor
  make it or end it as an attached child.
-/
theorem Inv.exec_seat
    (h : Inv s) {a : Action W P R}
    (hEn : s.enabled a = true)
    (hPlain : a.seats = false) :
    (s.exec a).seat = s.seat := by
  cases a with
  | stage w i v => exact seat_stageAdvance s i v
  | stageWait w i v => exact seat_stageAdvance s i v
  | endBody w i =>
      simp only [PipeState.exec, finalStageWait]
      split
      · exact seat_stageAdvance s i _
      · rfl
  | testCached w i f =>
      simp only [PipeState.exec, testCachedStage]
      split <;> rfl
  | testLeft w i f =>
      simp only [PipeState.exec, testLeftStage]
      split <;> rfl
  | testStall w i f =>
      simp only [PipeState.exec, stageWaitTest]
      split <;> rfl
  | trySuspend w i f =>
      apply seat_of_control
      simp only [PipeState.exec, trySuspendAtStageWait]
      split <;> simp
  | resumeOnSuspend w i f =>
      simp only [PipeState.exec, tryResumeNextIterOnSuspend]
      split
      · apply seat_of_control
        simp
      · split
        · apply seat_of_control
          simp
        · simp [PipeState.handControl, seat, cur]
  | finishStage w i =>
      simp only [PipeState.exec, finishFinalUserStage]
      split <;> rfl
  | exitMove w i =>
      apply seat_of_control
      simp [PipeState.exec, PipeState.exitMove,
        moveIterStageToDone]
  | exitFreeLeft w i =>
      apply seat_of_control
      simp [PipeState.exec, PipeState.exitFreeLeft]
  | pipeIterFinish w i =>
      simp only [PipeState.exec, PipeState.pipeIterFinish]
      split
      · simp [PipeState.handControl, seat, cur]
      · simp [seat, cur]
  | finishFreeLeft w i =>
      apply seat_of_control
      simp [PipeState.exec, PipeState.finishFreeLeft]
  | finishMove w i =>
      apply seat_of_control
      simp [PipeState.exec, PipeState.finishMove,
        moveIterStageToDone]
  | finishResumeNext w i =>
      apply seat_of_control
      simp [PipeState.exec, PipeState.finishResumeNext]
  | finishFreeOwn w i r =>
      apply seat_of_control
      simp [PipeState.exec, PipeState.finishFreeOwn]
  | finishGetNext w i r =>
      simp only [PipeState.exec, PipeState.finishGetNext]
      split
      · rfl
      · have hTry := h.flags.seat_tryRemove (t := (s.setWorker
          w { s.worker w with
            iterFfOnTop := false
            task := .idle }).setPc i .finished) w rfl
        split
        · exact hTry
        · rw [← hTry]
          apply seat_of_control
          simp
  | throttle w =>
      simp only [enabled, decide_eq_true_eq] at hEn
      simp only [PipeState.exec, PipeState.throttle]
      split <;> simp [seat, cur, hEn.2.1, ControlPc.attached]
  | suspendControl w =>
      simp only [enabled, decide_eq_true_eq] at hEn
      have hSave : (s.saveWorkerStateForSuspendControl
          w).seat = s.seat := by
        simp [saveWorkerStateForSuspendControl, seat, cur]
      rw [← hSave]
      apply seat_trySuspendControl
      simp [saveWorkerStateForSuspendControl, hEn.2.1]
  | sync w =>
      simp only [enabled, decide_eq_true_eq] at hEn
      simp only [PipeState.exec, PipeState.sync]
      split <;> simp [seat, cur, hEn.2, ControlPc.attached]
  | stealParent u w i =>
      have hTry := h.flags.seat_tryRemove w (t := s) rfl
      simp only [PipeState.exec, PipeState.stealParent]
      split
      · exact hTry
      · exact hTry
  | stealNext u w i =>
      apply seat_of_control
      simp only [PipeState.exec, PipeState.stealNext]
      split <;> simp
  | setupControl w =>
      have hSame : ControlPc.attached
          (if s.control.pc = .synced then .exited
            else s.control.pc) =
          s.control.pc.attached := by
        split
        · rename_i hCpc
          rw [hCpc]
          rfl
        · rfl
      rcases setupControl_control s w with ⟨hPc, hCur, -⟩
      simp only [PipeState.exec, seat, cur, hPc, hCur, hSame]
  | iterSetup w i f =>
      apply seat_of_control
      simp [PipeState.exec, PipeState.iterSetup]
  | pause w i f => rfl
  | switch w i f => rfl
  | enterFinish w i => rfl
  | work w p r => rfl
  | _ => cases hPlain

end Piper

end PRacer
