import Mathlib.Tactic.Common
import PRacer.Piper.Loop

/-
  The invariant holds initially and after every step, and no
  step fails an assertion but the ones about the user's stage
  numbers.

  Main declarations:
    * `Inv.of_initial`, `Saved`
    * `Inv.exec`
    * `inv_of_reachable`
-/

------------------------------------------------------------
-- The Initial State
------------------------------------------------------------

namespace PRacer

open Foundations

namespace Piper

open PipeState

variable {W P R : Type} {K : ℕ} [DecidableEq W]
variable {s t : PipeState W P R K}

section Initial

variable (garbage : ZMod K → Block) (w₀ : W)
variable (pedigree : W → Pedigree P) (reducerMap : W → Option R)

theorem initial_blk
    {i : ℤ}
    (hK : 1 < K)
    (hRing :
      (initial garbage w₀ pedigree reducerMap).InRing i) :
    (initial garbage w₀ pedigree reducerMap).blk i =
      if i = 0 then initBlock (0 : ZMod K) (garbage i)
      else if i = 1 then initBlock (1 : ZMod K) (garbage i)
      else
        { garbage i with
          cleanupCounter := cleanupThrottleVal
          iterStatus := .finished
          blockStatus := .available
          resumeFlags := .normalCilk
          dataLock := false
          marks := 1
          zeroedBy := [] } := by
  have hCur :
      (initial garbage w₀ pedigree reducerMap).cur = 1 := rfl
  have hZero := cast_eq_iff
    (s := initial garbage w₀ pedigree reducerMap)
    (i := 0) (j := i) ⟨by omega, by omega⟩ hRing
  have hOne := cast_eq_iff
    (s := initial garbage w₀ pedigree reducerMap)
    (i := 1) (j := i) ⟨by omega, by omega⟩ hRing
  rw [Int.cast_zero] at hZero
  rw [Int.cast_one] at hOne
  change initBlock (i : ZMod K) (garbage i) = _
  by_cases hI : i = 0
  · rw [if_pos hI, hZero.mpr hI]
  · rw [if_neg hI]
    by_cases hJ : i = 1
    · rw [if_pos hJ, hOne.mpr hJ]
    · rw [if_neg hJ]
      unfold initBlock
      rw [if_neg (fun hEq => hI (hZero.mp hEq)),
        if_neg (fun hEq => hJ (hOne.mp hEq))]

theorem initial_pc (i : ℤ) :
    (initial garbage w₀ pedigree reducerMap).pc i =
      if i ≤ 0 then .finished else .notStarted := rfl

theorem Core.of_initial
    (hK : 1 < K) :
    Core (initial garbage w₀ pedigree reducerMap) := by
  have hCur :
      (initial garbage w₀ pedigree reducerMap).cur = 1 := rfl
  have hPc := initial_pc garbage w₀ pedigree reducerMap
  have hFreed : ∀ i, i ≤ -1 →
      (initial garbage w₀ pedigree reducerMap).Freed i := by
    intro i hI
    unfold Freed rightFreed
    rw [hPc, hPc, if_pos (by omega), if_pos (by omega)]
    exact ⟨rfl, rfl⟩
  have hAtt : ∀ i,
      (initial garbage w₀ pedigree reducerMap).attachedAt i =
        false := fun _ => rfl
  have hThr : ∀ i,
      (initial garbage w₀ pedigree reducerMap).throttledAt
        i = false := fun _ => rfl
  have hOneNe : (1 : ZMod K) ≠ 0 := by
    have hSucc := cast_ne_succ hK 0
    simpa using hSucc
  constructor
  · constructor
    · exact hK
    · exact le_rfl
    · intro i hI
      rw [hPc, if_pos hI]
    · intro i hI
      rw [hPc, if_neg (by omega)]
    · intro i hI
      rw [hPc, if_pos (by omega)]
      simp
    · rw [hCur, hPc, if_neg (by omega)]
      exact ⟨fun _ => rfl, fun _ => rfl⟩
    · intro b hB
      cases hB
    · intro hB
      cases hB
    · intro i hI
      rw [hPc] at hI
      split at hI <;> simp [IterPc.place] at hI
    · intro _ i _ hStarted _
      rw [hPc] at hStarted ⊢
      split
      · rfl
      · rename_i hNot
        rw [if_neg hNot] at hStarted
        exact absurd rfl hStarted
    · intro i hI
      apply hFreed
      omega
    · intro hB
      cases hB
  · intro i hI
    rw [initial_blk garbage w₀ pedigree reducerMap hK hI,
      hAtt, hThr]
    have hLow := hI.1
    have hHigh := hI.2
    rw [hCur] at hLow hHigh
    unfold rightFreed
    rw [hPc, hPc]
    by_cases hZero : i = 0
    · rw [if_pos hZero, if_pos (by omega),
        if_neg (by omega)]
      unfold initBlock
      rw [if_pos rfl]
      constructor <;>
        simp [hZero, counterOf, IterPc.freedOwn,
          IterPc.freedLeft, IterPc.isMarked, IterPc.joined,
          IterPc.place, IterPc.posted, IterPc.moved,
          add_comm]
      exact (zero_lt_final.trans
        (final_lt_post.trans post_lt_finish)).le
    · rw [if_neg hZero]
      by_cases hOne : i = 1
      · rw [if_pos hOne, if_neg (by omega),
          if_neg (by omega)]
        unfold initBlock
        rw [if_neg hOneNe, if_pos rfl]
        constructor <;>
          simp [counterOf, IterPc.freedOwn,
            IterPc.freedLeft, IterPc.isMarked,
            IterPc.joined, IterPc.place, IterPc.posted,
            IterPc.moved, cleanupInitialVal]
        omega
      · rw [if_neg hOne, if_pos (by omega),
          if_pos (by omega)]
        constructor <;>
          simp [counterOf, IterPc.freedOwn,
            IterPc.freedLeft, IterPc.isMarked,
            IterPc.joined, IterPc.place, IterPc.posted,
            IterPc.moved] <;> omega
  · intro i hI hStarted
    rw [hPc, if_neg (by omega)] at hStarted
    exact absurd rfl hStarted
  · intro i
    rw [hPc, hAtt]
    change i ∈ (∅ : Finset ℤ) ↔ _
    split <;> simp [IterPc.joined]

theorem Inv.of_initial
    (hK : 1 < K) :
    Inv (initial garbage w₀ pedigree reducerMap) := by
  have hTask : ∀ w,
      ((PipeState.initial garbage w₀ pedigree reducerMap :
        PipeState W P R K).worker w).task =
        if w = w₀ then .control else .idle := fun _ => rfl
  constructor
  · exact Core.of_initial garbage w₀ pedigree reducerMap hK
  · constructor
    · intro w
      rw [hTask]
      split
      · constructor <;> simp
        constructor <;> intro hB <;> cases hB
      · exact TaskOk.of_idle
    · intro w w' i hHolds
      unfold HoldsIter at hHolds
      rw [hTask] at hHolds
      split at hHolds <;> simp [Task.iters] at hHolds
    · have hOnly : ∀ w,
          (PipeState.initial garbage w₀ pedigree reducerMap :
            PipeState W P R K).HoldsControl w → w = w₀ := by
        intro w hHolds
        by_contra hNe
        unfold HoldsControl Worker.HoldsControl at hHolds
        rw [hTask, if_neg hNe] at hHolds
        rcases hHolds with hB | hB | hB <;> cases hB
      intro w w' hW hW'
      rw [hOnly w hW, hOnly w' hW']
  · constructor
    · intro w
      apply FlagOk.of_noParent rfl
      · rw [hTask]
        split <;> simp
      · intro _
        rfl
    · intro w w' hW
      cases hW
    · constructor <;> intro hB <;> cases hB
    · intro hB
      cases hB
    · exact Or.inl rfl
    · intro _ _
      rfl
    · intro _ _ hB
      cases hB
    · intro _
      rfl
    · intro hB
      cases hB
  · constructor <;> intro hB <;> cases hB

end Initial

------------------------------------------------------------
-- The Saved State of the Control Frame
------------------------------------------------------------

/- What a suspension saves, and the flags that go with it. -/
def ControlFrame.saved (c : ControlFrame W P R) :
    (Pedigree P × Option R) × (Pedigree P × Option R) ×
      ResumeFlags :=
  ((c.parentPedigree, c.savedReducerMap), c.atSuspend,
    c.resumeFlags)

/-
  The control frame that runs has nothing saved, and the one
  that is suspended or resumes has what its worker had.
-/
structure Saved (s : PipeState W P R K) : Prop where
  normal :
    s.control.resumeFlags = .normalCilk →
      s.control.savedReducerMap = none
  kept :
    s.control.resumeFlags ≠ .normalCilk →
      (s.control.parentPedigree, s.control.savedReducerMap) =
        s.control.atSuspend

omit [DecidableEq W] in
theorem Saved.of_eq
    (h : Saved s)
    (hSame : t.control.saved = s.control.saved) :
    Saved t := by
  simp only [ControlFrame.saved, Prod.mk.injEq] at hSame
  rcases hSame with ⟨⟨hPedigree, hMap⟩, hAt, hFlags⟩
  constructor
  · rw [hFlags, hMap]
    exact h.normal
  · rw [hFlags, hPedigree, hMap, hAt]
    exact h.kept

section Setters

omit [DecidableEq W]

@[simp] theorem PipeState.check_control
    (s : PipeState W P R K) (c : Prop) [Decidable c] :
    (s.check c).control = s.control := by
  unfold check
  split <;> rfl

@[simp] theorem PipeState.tryResume_control
    (s : PipeState W P R K) (x : ZMod K) :
    (s.tryResumeNextIteration x).1.control = s.control := by
  unfold tryResumeNextIteration
  dsimp only
  split <;> simp

end Setters

@[simp] theorem PipeState.tryFree_control
    (s : PipeState W P R K) (x : ZMod K) (w : Option W)
    (party : Party) :
    (s.tryFreeIterDataBlock x w party).control =
      s.control := by
  unfold tryFreeIterDataBlock
  split
  · cases w with
    | none => simp
    | some w =>
        dsimp only
        split <;> simp
  · rfl

@[simp] theorem PipeState.handControl_saved
    (s : PipeState W P R K) (w : W) :
    (s.handControl w).control.saved = s.control.saved := rfl

@[simp] theorem PipeState.install_saved
    (s : PipeState W P R K) (u w : W) :
    (s.installIterationFrame u w).control.saved =
      s.control.saved := by
  simp [installIterationFrame, ControlFrame.saved]

/- The steps that save, restore or take the parent. -/
def Action.savesOrTakes : Action W P R → Bool
| .initIter _ => true
| .suspendControl _ => true
| .sync _ => true
| .setupControl _ => true
| .stealParent _ _ _ => true
| .finishGetNext _ _ _ => true
| _ => false

/- The other steps leave the saved state alone. -/
theorem exec_saved
    {a : Action W P R}
    (hOther : a.savesOrTakes = false) :
    (s.exec a).control.saved = s.control.saved := by
  cases a with
  | stage w i v =>
      simp only [exec, stageAdvance]
      split <;> rfl
  | stageWait w i v =>
      simp only [exec, stageAdvance]
      split <;> rfl
  | endBody w i =>
      simp only [exec, finalStageWait, stageAdvance]
      split
      · split <;> rfl
      · rfl
  | testCached w i f =>
      simp only [exec, testCachedStage]
      split <;> rfl
  | testLeft w i f =>
      simp only [exec, testLeftStage]
      split <;> rfl
  | testStall w i f =>
      simp only [exec, stageWaitTest]
      split <;> rfl
  | pause w i f => rfl
  | promote w i f => exact install_saved s w w
  | switch w i f => rfl
  | trySuspend w i f =>
      simp only [exec, trySuspendAtStageWait]
      split
      · simp
      · rfl
  | resumeOnSuspend w i f =>
      simp only [exec, tryResumeNextIterOnSuspend]
      split
      · simp
      · split <;> simp
  | finishStage w i =>
      simp only [exec, finishFinalUserStage]
      split <;> rfl
  | pop w i => rfl
  | exitMove w i =>
      simp [exec, PipeState.exitMove, moveIterStageToDone]
  | exitFreeLeft w i => simp [exec, PipeState.exitFreeLeft]
  | exitFreeOwn w i =>
      simp [exec, PipeState.exitFreeOwn, ControlFrame.saved]
  | enterFinish w i => rfl
  | pipeIterFinish w i =>
      simp only [exec, PipeState.pipeIterFinish]
      split <;>
        simp [PipeState.handControl, ControlFrame.saved]
  | finishFreeLeft w i =>
      simp [exec, PipeState.finishFreeLeft]
  | finishMove w i =>
      simp [exec, PipeState.finishMove, moveIterStageToDone]
  | finishResumeNext w i =>
      simp [exec, PipeState.finishResumeNext]
  | finishFreeOwn w i r =>
      simp [exec, PipeState.finishFreeOwn]
  | finishGetNext w i r => cases hOther
  | initIter w => cases hOther
  | throttle w =>
      simp only [exec, PipeState.throttle]
      split <;> simp [ControlFrame.saved]
  | suspendControl w => cases hOther
  | passThrottle w =>
      simp [exec, PipeState.passThrottle, ControlFrame.saved]
  | sync w => cases hOther
  | steal u w => exact install_saved s u w
  | stealParent u w i => cases hOther
  | stealNext u w i =>
      simp only [exec, PipeState.stealNext]
      split <;> simp
  | setupControl w => cases hOther
  | iterSetup w i f => simp [exec, PipeState.iterSetup]
  | work w p r => rfl

/- `piper_try_remove_implicit_parent` only moves the flags. -/
theorem Saved.tryRemove
    (h : Saved s) (w : W) :
    Saved (s.tryRemoveImplicitParent w).1 := by
  unfold tryRemoveImplicitParent
  dsimp only
  split
  · exact h.of_eq rfl
  · exact h.of_eq (by simp)
  · split
    · rename_i hFlags
      have hFlags : s.control.resumeFlags =
          .suspendedControl := by
        simpa using hFlags
      constructor
      · simp
      · intro _
        apply h.kept
        rw [hFlags]
        simp
    · exact h.of_eq rfl

/- Either outcome of the suspension has just been saved. -/
theorem Saved.trySuspendControl
    (w : W)
    (hAt : (t.control.parentPedigree,
      t.control.savedReducerMap) = t.control.atSuspend) :
    Saved (t.trySuspendControlFrameAtThrottle w) := by
  unfold trySuspendControlFrameAtThrottle
  dsimp only
  split
  · constructor
    · simp
    · intro _
      simpa using hAt
  · constructor
    · simp [PipeState.handControl]
    · intro _
      simpa [PipeState.handControl] using hAt

omit [DecidableEq W] in
/- A control frame that runs has nothing to restore. -/
theorem Saved.of_normal
    (h : Saved s)
    (hFlags : s.control.resumeFlags = .normalCilk)
    (hFlagsT : t.control.resumeFlags = .normalCilk)
    (hMap : t.control.savedReducerMap =
      s.control.savedReducerMap) :
    Saved t := by
  constructor
  · intro _
    rw [hMap]
    exact h.normal hFlags
  · intro hNot
    exact absurd hFlagsT hNot

/- Every step keeps the saved state in order. -/
theorem Saved.exec
    (h : Saved s) (hInv : Inv s) (a : Action W P R)
    (hEn : s.enabled a = true) :
    Saved (s.exec a) := by
  cases hOther : a.savesOrTakes with
  | false => exact h.of_eq (exec_saved hOther)
  | true =>
      cases a with
      | initIter w =>
          simp only [enabled, decide_eq_true_eq] at hEn
          rcases hInv.of_task_control hEn.1 with
            ⟨-, -, hNormal, -⟩
          apply h.of_normal hNormal
          · simpa [PipeState.exec, initIterFrame] using hNormal
          · simp [PipeState.exec, initIterFrame]
      | sync w =>
          simp only [enabled, decide_eq_true_eq] at hEn
          rcases hInv.of_task_control hEn.1 with
            ⟨-, -, hNormal, -⟩
          simp only [PipeState.exec, PipeState.sync]
          split <;> exact h.of_normal hNormal hNormal rfl
      | suspendControl w =>
          exact Saved.trySuspendControl w rfl
      | setupControl w =>
          simp only [PipeState.exec, PipeState.setupControl]
          have hRestored : Saved (s.restoreControl w) := by
            unfold PipeState.restoreControl
            dsimp only
            split
            · constructor <;> simp
            · exact h.of_eq rfl
          exact hRestored.of_eq rfl
      | stealParent u w i =>
          simp only [PipeState.exec, PipeState.stealParent]
          split
          · exact (h.tryRemove w).of_eq rfl
          · exact h.tryRemove w
      | finishGetNext w i r =>
          simp only [PipeState.exec, PipeState.finishGetNext]
          split
          · exact h.of_eq rfl
          · have hTry := Saved.tryRemove
              (h.of_eq (t := (s.setWorker w
                { s.worker w with
                  iterFfOnTop := false
                  task := .idle }).setPc i .finished) rfl) w
            split
            · exact hTry.of_eq (by simp)
            · exact hTry.of_eq (by simp)
      | _ => cases hOther

------------------------------------------------------------
-- Every Step
------------------------------------------------------------

/- The worker's own computation is not the scheduler's. -/
theorem Inv.work
    (h : Inv s) (w : W) (p : Pedigree P) (r : Option R) :
    Inv (s.work w p r) := by
  apply SameParts.inv _ h
  unfold PipeState.work
  constructor <;> try rfl
  all_goals
    intro w'
    by_cases hW : w' = w
    · rw [hW]
      simp
    · simp [hW]

omit [DecidableEq W] in
/- Advancing the stage checks nothing. -/
theorem stageAdvance_failure
    (s : PipeState W P R K) (i v : ℤ) :
    (s.stageAdvance i v).failure = s.failure := by
  unfold stageAdvance
  dsimp only
  split <;> rfl

/- An iteration about to suspend is detached and active. -/
theorem Inv.trySuspend_failure
    (h : Inv s) {w : W} {i : ℤ} {f : Bool}
    (hTask : (s.worker w).task = .runtime i none)
    (hPc : s.pc i = .wait f .switching) :
    (s.trySuspendAtStageWait w i f).failure =
      s.failure := by
  rcases h.of_task_runtime hTask with ⟨-, hAtt, -⟩
  have hLive : (s.pc i).IsLive := by
    rw [hPc]
    exact IterPc.isLive_switching f
  have hRing := h.core.positions.inRing hLive.ne_notStarted
    hLive.freedOwn
  have hStatus := (h.core.blocks i hRing).promoted hAtt
    hLive.joined hLive.isMarked
  unfold trySuspendAtStageWait
  dsimp only
  split
  · rw [check_eq hStatus]
    rfl
  · rfl

/- Every enabled step keeps the invariant. -/
theorem Inv.exec
    (h : Inv s) (hSaved : Saved s)
    (a : Action W P R) (hEn : s.enabled a = true) :
    Keeps s (s.exec a) := by
  cases a with
  | stage w i v =>
      simp only [enabled, decide_eq_true_eq] at hEn
      rcases hEn with ⟨hExec, hPc, hStage, hFinal⟩
      right
      exact ⟨h.stage hExec hPc hStage hFinal,
        stageAdvance_failure s i v⟩
  | stageWait w i v =>
      simp only [enabled, decide_eq_true_eq] at hEn
      rcases hEn with ⟨hExec, hPc, hStage, hFinal⟩
      right
      exact ⟨h.advance hExec hStage hFinal rfl rfl,
        stageAdvance_failure s i v⟩
  | endBody w i =>
      simp only [enabled, decide_eq_true_eq] at hEn
      right
      refine ⟨h.endBody hEn.1 hEn.2, ?_⟩
      simp only [PipeState.exec, finalStageWait]
      split
      · exact stageAdvance_failure s i _
      · rfl
  | testCached w i f =>
      simp only [enabled, decide_eq_true_eq] at hEn
      right
      refine ⟨h.testCached hEn.1 hEn.2, ?_⟩
      simp only [PipeState.exec, testCachedStage]
      split <;> rfl
  | testLeft w i f =>
      simp only [enabled, decide_eq_true_eq] at hEn
      right
      refine ⟨h.testLeft hEn.1 hEn.2, ?_⟩
      simp only [PipeState.exec, testLeftStage]
      split <;> rfl
  | testStall w i f =>
      simp only [enabled, decide_eq_true_eq] at hEn
      right
      refine ⟨h.testStall hEn.1 hEn.2, ?_⟩
      simp only [PipeState.exec, stageWaitTest]
      split <;> rfl
  | pause w i f =>
      simp only [enabled, decide_eq_true_eq] at hEn
      right
      refine ⟨h.goto hEn.1 ?_ rfl rfl, rfl⟩
      rw [hEn.2]
      rfl
  | promote w i f =>
      simp only [enabled, decide_eq_true_eq] at hEn
      right
      exact h.promote hEn.1 hEn.2.1
  | switch w i f =>
      simp only [enabled, decide_eq_true_eq] at hEn
      right
      exact ⟨h.switch hEn.1 hEn.2, rfl⟩
  | trySuspend w i f =>
      simp only [enabled, decide_eq_true_eq] at hEn
      right
      exact ⟨h.trySuspend hEn.1 hEn.2.1,
        h.trySuspend_failure hEn.1 hEn.2.1⟩
  | resumeOnSuspend w i f =>
      simp only [enabled, decide_eq_true_eq] at hEn
      right
      exact h.resumeOnSuspend hEn.1 hEn.2.1 hEn.2.2
  | finishStage w i =>
      simp only [enabled, decide_eq_true_eq] at hEn
      simp only [PipeState.exec, finishFinalUserStage]
      split
      · rename_i hStage
        right
        exact ⟨h.finishStage hEn.1 hStage, rfl⟩
      · left
        exact ⟨rfl, rfl⟩
  | pop w i =>
      simp only [enabled, decide_eq_true_eq] at hEn
      rcases hEn with ⟨hTask, hCpc, rfl, hPc⟩
      right
      exact ⟨h.pop hTask hCpc hPc, rfl⟩
  | exitMove w i =>
      simp only [enabled, decide_eq_true_eq] at hEn
      rcases hEn with ⟨hTask, hCpc, rfl, hPc⟩
      right
      exact h.exitMove hTask hCpc hPc
  | exitFreeLeft w i =>
      simp only [enabled, decide_eq_true_eq] at hEn
      rcases hEn with ⟨hTask, hCpc, rfl, hPc, -⟩
      exact h.exitFreeLeft hTask hCpc hPc
  | exitFreeOwn w i =>
      simp only [enabled, decide_eq_true_eq] at hEn
      rcases hEn with ⟨hTask, hCpc, rfl, hPc, -⟩
      exact h.exitFreeOwn hTask hCpc hPc
  | enterFinish w i =>
      simp only [enabled, decide_eq_true_eq] at hEn
      right
      exact ⟨h.enterFinish hEn.1 hEn.2, rfl⟩
  | pipeIterFinish w i =>
      simp only [enabled, decide_eq_true_eq] at hEn
      right
      exact h.pipeIterFinish hEn.1 hEn.2
  | finishFreeLeft w i =>
      simp only [enabled, decide_eq_true_eq] at hEn
      exact h.finishFreeLeft hEn.1 hEn.2.1
  | finishMove w i =>
      simp only [enabled, decide_eq_true_eq] at hEn
      right
      exact h.finishMove hEn.1 hEn.2.1
  | finishResumeNext w i =>
      simp only [enabled, decide_eq_true_eq] at hEn
      right
      exact h.finishResumeNext hEn.1 hEn.2.1 hEn.2.2
  | finishFreeOwn w i r =>
      simp only [enabled, decide_eq_true_eq] at hEn
      exact h.finishFreeOwn hEn.1 hEn.2
  | finishGetNext w i r =>
      simp only [enabled, decide_eq_true_eq] at hEn
      right
      exact h.finishGetNext hEn.1 hEn.2
  | initIter w =>
      simp only [enabled, decide_eq_true_eq] at hEn
      right
      exact h.initIter hEn.1 hEn.2
  | throttle w =>
      simp only [enabled, decide_eq_true_eq] at hEn
      right
      exact h.throttle hEn.1 hEn.2.1
  | suspendControl w =>
      simp only [enabled, decide_eq_true_eq] at hEn
      rcases h.of_task_control hEn.1 with
        ⟨-, -, hNormal, -, -⟩
      have hStep := h.suspendControl hEn.1 hEn.2.1
      right
      exact ⟨hStep.1, hStep.2 (hSaved.normal hNormal)⟩
  | passThrottle w =>
      simp only [enabled, decide_eq_true_eq] at hEn
      right
      exact h.passThrottle hEn.1 hEn.2
  | sync w =>
      simp only [enabled, decide_eq_true_eq] at hEn
      right
      refine ⟨h.sync hEn.1 hEn.2, ?_⟩
      simp only [PipeState.exec, PipeState.sync]
      split <;> rfl
  | steal u w =>
      simp only [enabled, decide_eq_true_eq] at hEn
      right
      exact h.steal hEn.1 hEn.2.1 hEn.2.2.1
  | stealParent u w i =>
      simp only [enabled, decide_eq_true_eq] at hEn
      right
      exact h.stealParent hEn.1 hEn.2.2
  | stealNext u w i =>
      simp only [enabled, decide_eq_true_eq] at hEn
      rcases hEn with ⟨hThief, hTask, -, -, hLock⟩
      right
      exact h.stealNext hThief hTask hLock
  | setupControl w =>
      simp only [enabled, decide_eq_true_eq] at hEn
      right
      refine ⟨h.setupControl hEn, ?_⟩
      have hFailure :
          (s.restoreControl w).failure = s.failure := by
        unfold PipeState.restoreControl
        dsimp only
        split <;> rfl
      exact hFailure
  | iterSetup w i f =>
      simp only [enabled, decide_eq_true_eq] at hEn
      right
      exact h.iterSetup hEn.1 hEn.2
  | work w p r =>
      right
      exact ⟨h.work w p r, rfl⟩

------------------------------------------------------------
-- Every Run
------------------------------------------------------------

/-
  A reachable state satisfies the invariant, unless the
  assertion about a stage number has just stopped the run,
  which leaves the counters as they were.
-/
theorem inv_of_reachable
    (hK : 1 < K)
    (hReach : (pipeSystem W P R K).Reachable s) :
    Saved s ∧
      (s.failure = some .stage ∧
          (∃ r : PipeState W P R K,
            Inv r ∧ s.uses = r.uses) ∨
        Inv s ∧ s.failure = none) := by
  apply TransitionSystem.Reachable.invariant _ _ hReach
  · intro s₀ hInit
    rcases hInit with
      ⟨garbage, w₀, pedigree, reducerMap, rfl⟩
    constructor
    · constructor
      · intro _
        rfl
      · intro hFlags
        exact absurd rfl hFlags
    · right
      exact ⟨Inv.of_initial _ _ _ _ hK, rfl⟩
  · intro s a t hS hStep
    rcases hS with ⟨hSaved, hS⟩
    rcases hStep with ⟨hRuns, hEn, rfl⟩
    constructor
    · rcases hS with hFailed | ⟨hInv, -⟩
      · rw [hFailed.1] at hRuns
        cases hRuns
      · exact hSaved.exec hInv a hEn
    · rcases hS with hFailed | ⟨hInv, -⟩
      · rw [hFailed.1] at hRuns
        cases hRuns
      · rcases hInv.exec hSaved a hEn with hStage | hKept
        · exact Or.inl ⟨hStage.1, s, hInv, hStage.2⟩
        · right
          exact ⟨hKept.1, hKept.2.trans hRuns⟩

/- The invariant holds wherever the run goes on. -/
theorem inv_of_running
    (hK : 1 < K)
    (hReach : (pipeSystem W P R K).Reachable s)
    (hRuns : s.failure = none) :
    Inv s := by
  rcases (inv_of_reachable hK hReach).2 with hStage | hInv
  · rw [hStage.1] at hRuns
    cases hRuns
  · exact hInv.1

/- Only the assertion about stage numbers can fail. -/
theorem failure_of_reachable
    (hK : 1 < K)
    (hReach : (pipeSystem W P R K).Reachable s) :
    s.failure ≠ some .internal := by
  rcases (inv_of_reachable hK hReach).2 with hStage | hInv
  · rw [hStage.1]
    simp
  · rw [hInv.2]
    simp

------------------------------------------------------------
-- Replaying Steps
------------------------------------------------------------

/- The state after some steps. -/
def PipeState.replay
    (s : PipeState W P R K) :
    List (Action W P R) → PipeState W P R K
| [] => s
| a :: acts => (s.exec a).replay acts

/- All of these steps can be taken. -/
def PipeState.replays
    (s : PipeState W P R K) :
    List (Action W P R) → Bool
| [] => true
| a :: acts =>
    decide (s.failure = none) && s.enabled a &&
      (s.exec a).replays acts

theorem run_replay
    {acts : List (Action W P R)}
    (hAll : s.replays acts = true) :
    (pipeSystem W P R K).Run s acts (s.replay acts) := by
  induction acts generalizing s with
  | nil => exact .refl _
  | cons a acts ih =>
      unfold replays at hAll
      simp only [Bool.and_eq_true, decide_eq_true_eq]
        at hAll
      rcases hAll with ⟨⟨hRuns, hEn⟩, hRest⟩
      exact .head ⟨hRuns, hEn, rfl⟩ (ih hRest)

theorem reachable_replay
    {acts : List (Action W P R)}
    (hReach : (pipeSystem W P R K).Reachable s)
    (hAll : s.replays acts = true) :
    (pipeSystem W P R K).Reachable (s.replay acts) :=
  hReach.run (run_replay hAll)

/- Some workers, all states of which look alike. -/
def startState (n K : ℕ) [NeZero n] :
    PipeState (Fin n) Unit Unit K :=
  .initial
    (fun _ =>
      { iterNum := 0
        stage := 0
        cachedLeftStage := 0
        cleanupCounter := 0
        iterStatus := .finished
        blockStatus := .available
        resumeFlags := .normalCilk
        dataLock := false
        marks := 0
        zeroedBy := [] })
    0 (fun _ => ⟨0, ()⟩) (fun _ => none)

theorem init_startState (n K : ℕ) [NeZero n] :
    (pipeSystem (Fin n) Unit Unit K).init (startState n K) :=
  ⟨_, _, _, _, rfl⟩

theorem reachable_startState (n K : ℕ) [NeZero n] :
    (pipeSystem (Fin n) Unit Unit K).Reachable
      (startState n K) :=
  TransitionSystem.Reachable.of_init (init_startState n K)

/-
  The continuation of an iteration is stolen and suspended at
  the throttle, and then the iteration frees its left block.
-/
def throttledBehind (v w : W) (i : ℤ) :
    List (Action W Unit Unit) :=
  [.initIter v, .stage v i 4, .steal w v, .setupControl w,
    .throttle w, .suspendControl w, .endBody v i,
    .testCached v i true, .testLeft v i true,
    .finishStage v i, .enterFinish v i, .pipeIterFinish v i,
    .finishFreeLeft v i, .finishMove v i]

/- Its worker obtains the suspended frame. -/
def obtainsParent (v : W) (i : ℤ) :
    List (Action W Unit Unit) :=
  [.finishResumeNext v i, .finishFreeOwn v i none,
    .finishGetNext v i none]

end Piper

end PRacer
