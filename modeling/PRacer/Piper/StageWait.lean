import PRacer.Piper.Safety

/-
  Stage waits: who passes, who sleeps, and who is woken up.

  Main declarations:
    * `PipeState.paths`, `Action.resumesFor`
    * `exec_paths`, `Inv.exec_paths_resume`
    * `stageWait_safe`
-/

------------------------------------------------------------
-- Paths of Iterations
------------------------------------------------------------

namespace PRacer

namespace Piper

open Foundations
open PipeState

variable {W P R : Type} [DecidableEq W] {K : ℕ}
variable {s t : PipeState W P R K}

/-
  Where the iterations stand, and how often each has been
  suspended and resumed.
-/
def PipeState.paths (s : PipeState W P R K) :
    (ℤ → IterPc) × (ℤ → ℕ) × (ℤ → ℕ) :=
  (s.pc, s.suspensions, s.resumptions)

/- The wait that an iteration is in, final or not. -/
def IterPc.waiting : IterPc → Option Bool
| .wait f _ => some f
| _ => none

/-
  The iteration for which a step looks whether the next one
  is to be resumed.
-/
def Action.resumesFor : Action W P R → Option ℤ
| .resumeOnSuspend _ i _ => some i
| .finishResumeNext _ i => some i
| .stealNext _ _ i => some i
| _ => none

section Paths

omit [DecidableEq W]

@[simp] theorem paths_setBlock
    (s : PipeState W P R K) (x : ZMod K) (b : Block) :
    (s.setBlock x b).paths = s.paths := rfl

@[simp] theorem paths_setControl
    (s : PipeState W P R K) (c : ControlFrame W P R) :
    (s.setControl c).paths = s.paths := rfl

@[simp] theorem paths_fail
    (s : PipeState W P R K) (f : Failure) :
    (s.fail f).paths = s.paths := rfl

@[simp] theorem paths_setPc
    (s : PipeState W P R K) (i : ℤ) (p : IterPc) :
    (s.setPc i p).paths =
      (Function.update s.paths.1 i p, s.paths.2) := rfl

@[simp] theorem paths_check
    (s : PipeState W P R K) (c : Prop) [Decidable c] :
    (s.check c).paths = s.paths := by
  unfold check
  split <;> rfl

end Paths

@[simp] theorem paths_setWorker
    (s : PipeState W P R K) (w : W) (v : Worker P R) :
    (s.setWorker w v).paths = s.paths := rfl

@[simp] theorem paths_handControl
    (s : PipeState W P R K) (w : W) :
    (s.handControl w).paths = s.paths := rfl

@[simp] theorem paths_install
    (s : PipeState W P R K) (u w : W) :
    (s.installIterationFrame u w).paths = s.paths := by
  simp [installIterationFrame]

@[simp] theorem paths_tryFree
    (s : PipeState W P R K) (x : ZMod K) (w : Option W)
    (q : Party) :
    (s.tryFreeIterDataBlock x w q).paths = s.paths := by
  unfold tryFreeIterDataBlock
  dsimp only
  split
  · cases w with
    | none => simp
    | some w =>
        dsimp only
        split <;> simp
  · simp

@[simp] theorem paths_trySuspendControl
    (s : PipeState W P R K) (w : W) :
    (s.trySuspendControlFrameAtThrottle w).paths =
      s.paths := by
  unfold trySuspendControlFrameAtThrottle
  dsimp only
  split <;> simp

@[simp] theorem paths_tryRemove
    (s : PipeState W P R K) (w : W) :
    (s.tryRemoveImplicitParent w).1.paths = s.paths := by
  unfold tryRemoveImplicitParent
  dsimp only
  split
  · rfl
  · simp
  · split <;> rfl

omit [DecidableEq W] in
@[simp] theorem paths_stageAdvance
    (s : PipeState W P R K) (i v : ℤ) :
    (s.stageAdvance i v).paths = s.paths := by
  unfold stageAdvance
  dsimp only
  split <;> rfl

------------------------------------------------------------
-- Steps Without Resumption
------------------------------------------------------------

/- The real counter on the left has gone past. -/
def PipeState.leftIsAhead
    (s : PipeState W P R K) (i : ℤ) : Prop :=
  (s.blk i).stage < (s.blk (i - 1)).stage

/-
  A step that neither suspends nor resumes moves one
  iteration at most, and that one leaves a wait only if the
  left neighbour is ahead.
-/
def Moves (s t : PipeState W P R K) : Prop :=
  ∃ i p,
    t.paths =
        (Function.update s.pc i p, s.suspensions,
          s.resumptions) ∧
      p.isMarked = (s.pc i).isMarked ∧
      ((s.pc i).waiting ≠ none → p.waiting = none →
        s.leftIsAhead i)

section Moves

omit [DecidableEq W]

theorem moves_of_eq
    (hPaths : t.paths = s.paths) :
    Moves s t := by
  refine ⟨0, s.pc 0, ?_, rfl, ?_⟩
  · rw [Function.update_eq_self]
    exact hPaths
  · intro hWait hNone
    exact absurd hNone hWait

theorem moves_of_update
    {i : ℤ} {p : IterPc}
    (hPaths : t.paths = (s.setPc i p).paths)
    (hMark : p.isMarked = (s.pc i).isMarked)
    (hPass :
      (s.pc i).waiting = none ∨ p.waiting ≠ none ∨
        s.leftIsAhead i) :
    Moves s t := by
  refine ⟨i, p, hPaths, hMark, ?_⟩
  intro hWait hNone
  rcases hPass with hOld | hNew | hLeft
  · exact absurd hOld hWait
  · exact absurd hNone hNew
  · exact hLeft

/- The cached copy is never ahead of the real counter. -/
theorem Inv.link
    (h : Inv s) {w : W} {i : ℤ}
    (hExec : s.Executes w i) :
    LinkOk (s.pc i) (s.blk i) (s.pc (i - 1))
      (s.blk (i - 1)) := by
  have hLive := IterPc.isLive (h.place_of_executes hExec)
  exact h.core.links i
    (h.core.positions.one_le hLive.ne_finished)
    hLive.ne_notStarted hLive.freedLeft

end Moves

@[simp] theorem isMarked_afterWait (f : Bool) :
    (IterPc.afterWait f).isMarked = false := by
  cases f <;> rfl

theorem Inv.exec_moves
    (h : Inv s) {a : Action W P R}
    (hEn : s.enabled a = true)
    (hPlain : a.resumesFor = none)
    (hTry : ∀ w i f, a ≠ .trySuspend w i f) :
    Moves s (s.exec a) := by
  cases a with
  | stage w i v =>
      apply moves_of_eq
      simp [PipeState.exec]
  | stageWait w i v =>
      simp only [enabled, decide_eq_true_eq] at hEn
      apply moves_of_update (i := i)
        (p := .wait false .cache)
      · simp [PipeState.exec]
      · rw [hEn.2.1]
        rfl
      · left
        rw [hEn.2.1]
        rfl
  | endBody w i =>
      simp only [enabled, decide_eq_true_eq] at hEn
      simp only [PipeState.exec, finalStageWait]
      split
      · apply moves_of_update (i := i)
          (p := .wait true .cache)
        · simp
        · rw [hEn.2]
          rfl
        · left
          rw [hEn.2]
          rfl
      · apply moves_of_update (i := i) (p := .final)
        · rfl
        · rw [hEn.2]
          rfl
        · left
          rw [hEn.2]
          rfl
  | testCached w i f =>
      simp only [enabled, decide_eq_true_eq] at hEn
      simp only [PipeState.exec, testCachedStage]
      split
      · rename_i hAhead
        apply moves_of_update (i := i) (p := .afterWait f)
        · rfl
        · rw [hEn.2]
          exact isMarked_afterWait f
        · right
          right
          exact lt_of_lt_of_le hAhead (h.link hEn.1).cached
      · apply moves_of_update (i := i) (p := .wait f .left)
        · rfl
        · rw [hEn.2]
          rfl
        · simp [IterPc.waiting]
  | testLeft w i f =>
      simp only [enabled, decide_eq_true_eq] at hEn
      simp only [PipeState.exec, testLeftStage]
      split
      · rename_i hAhead
        apply moves_of_update (i := i) (p := .afterWait f)
        · rfl
        · rw [hEn.2]
          exact isMarked_afterWait f
        · right
          right
          rw [leftOf_cast, block_cast] at hAhead
          simpa [leftIsAhead] using hAhead
      · apply moves_of_update (i := i) (p := .wait f .check)
        · rfl
        · rw [hEn.2]
          rfl
        · simp [IterPc.waiting]
  | testStall w i f =>
      simp only [enabled, decide_eq_true_eq] at hEn
      simp only [PipeState.exec, stageWaitTest]
      split
      · apply moves_of_update (i := i) (p := .wait f .stall)
        · rfl
        · rw [hEn.2]
          rfl
        · simp [IterPc.waiting]
      · apply moves_of_update (i := i) (p := .wait f .cache)
        · rfl
        · rw [hEn.2]
          rfl
        · simp [IterPc.waiting]
  | pause w i f =>
      simp only [enabled, decide_eq_true_eq] at hEn
      apply moves_of_update (i := i) (p := .wait f .check)
      · rfl
      · rw [hEn.2]
        rfl
      · simp [IterPc.waiting]
  | promote w i f =>
      apply moves_of_eq
      simp [PipeState.exec, promoteRightmostIter]
  | switch w i f =>
      simp only [enabled, decide_eq_true_eq] at hEn
      apply moves_of_update (i := i)
        (p := .wait f .switching)
      · rfl
      · rw [hEn.2]
        rfl
      · simp [IterPc.waiting]
  | trySuspend w i f => exact absurd rfl (hTry w i f)
  | finishStage w i =>
      simp only [enabled, decide_eq_true_eq] at hEn
      simp only [PipeState.exec, finishFinalUserStage]
      split
      · apply moves_of_update (i := i) (p := .leaving)
        · rfl
        · rw [hEn.2]
          rfl
        · left
          rw [hEn.2]
          rfl
      · apply moves_of_eq
        simp
  | pop w i =>
      simp only [enabled, decide_eq_true_eq] at hEn
      apply moves_of_update (i := i) (p := .exiting .move)
      · rfl
      · rw [hEn.2.2.2]
        rfl
      · left
        rw [hEn.2.2.2]
        rfl
  | exitMove w i =>
      simp only [enabled, decide_eq_true_eq] at hEn
      apply moves_of_update (i := i)
        (p := .exiting .freeLeft)
      · simp [PipeState.exec, PipeState.exitMove, moveIterStageToDone]
      · rw [hEn.2.2.2]
        rfl
      · left
        rw [hEn.2.2.2]
        rfl
  | exitFreeLeft w i =>
      simp only [enabled, decide_eq_true_eq] at hEn
      apply moves_of_update (i := i)
        (p := .exiting .freeOwn)
      · simp [PipeState.exec, PipeState.exitFreeLeft]
      · rw [hEn.2.2.2.1]
        rfl
      · left
        rw [hEn.2.2.2.1]
        rfl
  | exitFreeOwn w i =>
      simp only [enabled, decide_eq_true_eq] at hEn
      apply moves_of_update (i := i) (p := .finished)
      · simp [PipeState.exec, PipeState.exitFreeOwn]
      · rw [hEn.2.2.2.1]
        rfl
      · left
        rw [hEn.2.2.2.1]
        rfl
  | enterFinish w i =>
      simp only [enabled, decide_eq_true_eq] at hEn
      apply moves_of_update (i := i)
        (p := .finishing .enter)
      · rfl
      · rw [hEn.2]
        rfl
      · left
        rw [hEn.2]
        rfl
  | pipeIterFinish w i =>
      simp only [enabled, decide_eq_true_eq] at hEn
      simp only [PipeState.exec, PipeState.pipeIterFinish]
      split
      · apply moves_of_update (i := i) (p := .lastAtSync)
        · simp
        · rw [hEn.2]
          rfl
        · left
          rw [hEn.2]
          rfl
      · apply moves_of_update (i := i)
          (p := .finishing .freeLeft)
        · simp
        · rw [hEn.2]
          rfl
        · left
          rw [hEn.2]
          rfl
  | finishFreeLeft w i =>
      simp only [enabled, decide_eq_true_eq] at hEn
      apply moves_of_update (i := i) (p := .finishing .move)
      · simp [PipeState.exec, PipeState.finishFreeLeft]
      · rw [hEn.2.1]
        rfl
      · left
        rw [hEn.2.1]
        rfl
  | finishMove w i =>
      simp only [enabled, decide_eq_true_eq] at hEn
      apply moves_of_update (i := i)
        (p := .finishing .resumeNext)
      · simp [PipeState.exec, PipeState.finishMove,
          moveIterStageToDone]
      · rw [hEn.2.1]
        rfl
      · left
        rw [hEn.2.1]
        rfl
  | finishFreeOwn w i r =>
      simp only [enabled, decide_eq_true_eq] at hEn
      apply moves_of_update (i := i)
        (p := .finishing .getNext)
      · simp [PipeState.exec, PipeState.finishFreeOwn]
      · rw [hEn.2]
        rfl
      · left
        rw [hEn.2]
        rfl
  | finishGetNext w i r =>
      simp only [enabled, decide_eq_true_eq] at hEn
      apply moves_of_update (i := i) (p := .finished)
      · simp only [PipeState.exec, PipeState.finishGetNext]
        split
        · rfl
        · split <;> simp
      · rw [hEn.2]
        rfl
      · left
        rw [hEn.2]
        rfl
  | initIter w =>
      simp only [enabled, decide_eq_true_eq] at hEn
      have hNot : s.pc s.cur = .notStarted := by
        rw [h.core.positions.current, hEn.2]
        rfl
      apply moves_of_update (i := s.cur) (p := .body)
      · simp [PipeState.exec, initIterFrame]
      · rw [hNot]
        rfl
      · left
        rw [hNot]
        rfl
  | throttle w =>
      apply moves_of_eq
      simp only [PipeState.exec, PipeState.throttle]
      split <;> simp
  | suspendControl w =>
      apply moves_of_eq
      simp [PipeState.exec, suspendControlFrame,
        saveWorkerStateForSuspendControl]
  | passThrottle w =>
      apply moves_of_eq
      simp [PipeState.exec, PipeState.passThrottle]
  | sync w =>
      apply moves_of_eq
      simp only [PipeState.exec, PipeState.sync]
      split <;> simp
  | steal u w =>
      apply moves_of_eq
      simp [PipeState.exec, stealControl]
  | stealParent u w i =>
      apply moves_of_eq
      simp only [PipeState.exec, PipeState.stealParent,
        foundWork]
      split <;> simp
  | setupControl w =>
      apply moves_of_eq
      simp only [PipeState.exec]
      rw [setupControl_eq]
      rfl
  | iterSetup w i f =>
      simp only [enabled, decide_eq_true_eq] at hEn
      apply moves_of_update (i := i) (p := .wait f .check)
      · simp [PipeState.exec, PipeState.iterSetup]
      · rw [hEn.2]
        rfl
      · simp [IterPc.waiting]
  | work w p r => exact moves_of_eq rfl
  | _ => cases hPlain

------------------------------------------------------------
-- Resume Steps
------------------------------------------------------------

/-
  A step that looks on behalf of iteration `i` whether the
  next one is to be resumed changes, apart from its own
  position and lock, only iteration `i + 1`, and that one only
  if it is suspended with `i` ahead of it.
-/
structure ResumesRight
    (s t : PipeState W P R K) (i : ℤ) : Prop where
  others : ∀ j, j ≠ i → j ≠ i + 1 → t.pc j = s.pc j
  blocks :
    ∀ x, x ≠ (i : ZMod K) → x ≠ ((i + 1 : ℤ) : ZMod K) →
      t.block x = s.block x
  own :
    t.blk i =
      { s.blk i with dataLock := (t.blk i).dataLock }
  marked : (t.pc i).isMarked = (s.pc i).isMarked
  waiting : (t.pc i).waiting = (s.pc i).waiting
  suspensions : t.suspensions = s.suspensions
  right :
    t.pc (i + 1) = s.pc (i + 1) ∧
        t.blk (i + 1) = s.blk (i + 1) ∧
        t.resumptions = s.resumptions ∨
      ∃ f, s.pc (i + 1) = .wait f .suspended ∧
        (s.blk (i + 1)).iterStatus = .promotedSuspended ∧
        s.leftIsAhead (i + 1) ∧
        t.pc (i + 1) = .wait f .queued ∧
        t.blk (i + 1) =
          { s.blk (i + 1) with
            iterStatus := .promotedActive
            resumeFlags := .resumingIter } ∧
        t.resumptions =
          Function.update s.resumptions (i + 1)
            (s.resumptions (i + 1) + 1)

section Resumption

variable {r r' : PipeState W P R K}

omit [DecidableEq W]

/-
  State `r` is where the helper is called, `r'` where it
  returns, and `t` where the step ends.
-/
theorem resumesRight_of
    {i : ℤ} {b : Bool}
    (hK : 1 < K)
    (hBlock :
      r.block =
        Function.update s.block (i : ZMod K)
          { s.blk i with dataLock := b })
    (hPc : ∀ j, j ≠ i → r.pc j = s.pc j)
    (hSusp : r.suspensions = s.suspensions)
    (hRes : r.resumptions = s.resumptions)
    (hCase :
      r' = r ∨
        ∃ f, s.pc (i + 1) = .wait f .suspended ∧
          (s.blk (i + 1)).iterStatus = .promotedSuspended ∧
          s.leftIsAhead (i + 1) ∧ r' = r.wake (i + 1) f)
    (hBlockT : t.block = r'.block)
    (hPcT : ∀ j, j ≠ i → t.pc j = r'.pc j)
    (hSuspT : t.suspensions = r'.suspensions)
    (hResT : t.resumptions = r'.resumptions)
    (hMarked : (t.pc i).isMarked = (s.pc i).isMarked)
    (hWaiting : (t.pc i).waiting = (s.pc i).waiting) :
    ResumesRight s t i := by
  have hNe := cast_ne_succ hK i
  have hOwn : r.blk i = { s.blk i with dataLock := b } := by
    unfold blk
    rw [hBlock, Function.update_self]
    rfl
  have hRight : r.blk (i + 1) = s.blk (i + 1) := by
    unfold blk
    rw [hBlock, Function.update_of_ne hNe]
  have hOther : ∀ x, x ≠ (i : ZMod K) →
      r.block x = s.block x := by
    intro x hX
    rw [hBlock, Function.update_of_ne hX]
  rcases hCase with rfl | ⟨f, hNext, hStatus, hAhead, rfl⟩
  · constructor
    · intro j hI _
      rw [hPcT j hI, hPc j hI]
    · intro x hX _
      rw [hBlockT, hOther x hX]
    · rw [show t.blk i = r'.blk i by unfold blk; rw [hBlockT],
        hOwn]
    · exact hMarked
    · exact hWaiting
    · rw [hSuspT, hSusp]
    · left
      refine ⟨?_, ?_, ?_⟩
      · rw [hPcT _ (by omega), hPc _ (by omega)]
      · unfold blk at hRight ⊢
        rw [hBlockT, hRight]
      · rw [hResT, hRes]
  · constructor
    · intro j hI hJ
      rw [hPcT j hI, wake_pc, Function.update_of_ne hJ,
        hPc j hI]
    · intro x hX hY
      rw [hBlockT]
      change Function.update r.block _ _ x = _
      rw [Function.update_of_ne hY, hOther x hX]
    · have hSame : t.blk i = r.blk i := by
        unfold blk
        rw [hBlockT]
        change Function.update r.block _ _ _ = _
        rw [Function.update_of_ne hNe.symm]
      rw [hSame, hOwn]
    · exact hMarked
    · exact hWaiting
    · rw [hSuspT]
      exact hSusp
    · right
      refine ⟨f, hNext, hStatus, hAhead, ?_, ?_, ?_⟩
      · rw [hPcT _ (by omega), wake_pc,
          Function.update_self]
      · rw [← hRight]
        unfold blk
        rw [hBlockT]
        exact Function.update_self _ _ _
      · rw [hResT, ← hRes]
        rfl

end Resumption

omit [DecidableEq W] in
/- What the helper returns, in the terms of the old state. -/
theorem Inv.resumeCase
    (h : Inv s) {i : ℤ} {p : IterPc}
    (hStarted : s.pc i ≠ .notStarted)
    (hOwn : (s.pc i).freedOwn = false)
    (hLock : (s.blk (i + 1)).dataLock = false)
    (hNext : t.blk (i + 1) = s.blk (i + 1))
    (hStage : (t.blk i).stage = (s.blk i).stage)
    (hPc : t.pc = Function.update s.pc i p) :
    (t.tryResumeNextIteration i).1 = t ∨
      ∃ f, s.pc (i + 1) = .wait f .suspended ∧
        (s.blk (i + 1)).iterStatus = .promotedSuspended ∧
        s.leftIsAhead (i + 1) ∧
        (t.tryResumeNextIteration i).1 =
          t.wake (i + 1) f := by
  rcases tryResume_spec h.core hStarted hOwn hLock hNext
    hStage hPc with
    ⟨hNone, -⟩ | ⟨f, hSusp, hRing, hAhead, hSome⟩
  · left
    rw [hNone]
  · right
    refine ⟨f, hSusp, ?_, ?_, ?_⟩
    · apply ((h.core.blocks _ hRing).marked _).1
      rw [hSusp]
      rfl
    · unfold leftIsAhead
      rw [show i + 1 - 1 = i by omega]
      exact hAhead
    · rw [hSome]

/- After the helper, only workers and control change. -/
theorem resumeOnSuspend_parts
    (s : PipeState W P R K) (w : W) (i : ℤ) (f : Bool) :
    let r := ((s.setBlock i
      { s.blk i with dataLock := false }).setPc i
        (.wait f .suspended)).tryResumeNextIteration i
    (s.tryResumeNextIterOnSuspend w i f).block =
        r.1.block ∧
      (s.tryResumeNextIterOnSuspend w i f).paths =
        r.1.paths := by
  unfold tryResumeNextIterOnSuspend
  dsimp only
  split
  · exact ⟨rfl, rfl⟩
  · split
    · exact ⟨rfl, rfl⟩
    · exact ⟨rfl, rfl⟩

theorem stealNext_parts
    (s : PipeState W P R K) (u : W) (i : ℤ) :
    let r := s.tryResumeNextIteration i
    (s.stealNext u i).block = r.1.block ∧
      (s.stealNext u i).paths = r.1.paths := by
  unfold PipeState.stealNext
  dsimp only
  split
  · exact ⟨rfl, rfl⟩
  · exact ⟨rfl, rfl⟩

omit [DecidableEq W] in
theorem paths_eq_iff :
    t.paths = s.paths ↔
      t.pc = s.pc ∧ t.suspensions = s.suspensions ∧
        t.resumptions = s.resumptions := by
  simp [PipeState.paths]

theorem Inv.resumesRight
    (h : Inv s) {a : Action W P R} {i : ℤ}
    (hEn : s.enabled a = true)
    (hFor : a.resumesFor = some i) :
    ResumesRight s (s.exec a) i := by
  have hK := h.core.positions.ring
  have hNe := cast_ne_succ hK i
  cases a with
  | resumeOnSuspend w j f =>
      cases hFor
      simp only [enabled, decide_eq_true_eq] at hEn
      rcases hEn with ⟨-, hPc, hLock⟩
      rw [rightOf_cast, block_cast] at hLock
      have hCase := h.resumeCase
        (t := (s.setBlock i
          { s.blk i with dataLock := false }).setPc i
            (.wait f .suspended))
        (i := i) (by simp [hPc]) (by rw [hPc]; rfl)
        hLock (setBlock_blk_succ hK s i _) (by simp) rfl
      rcases resumeOnSuspend_parts s w i f with
        ⟨hBlock, hPaths⟩
      rw [paths_eq_iff] at hPaths
      have hPcT : (s.tryResumeNextIterOnSuspend w i f).pc i =
          .wait f .suspended := by
        rw [hPaths.1]
        rcases hCase with hSame | ⟨f', -, -, -, hWake⟩
        · rw [hSame]
          simp
        · rw [hWake, wake_pc,
            Function.update_of_ne (by omega)]
          simp
      apply resumesRight_of
        (r := (s.setBlock i
          { s.blk i with dataLock := false }).setPc i
            (.wait f .suspended))
        hK rfl _ rfl rfl hCase hBlock _ hPaths.2.1
        hPaths.2.2
      · rw [hPcT, hPc]
        rfl
      · rw [hPcT, hPc]
        rfl
      · intro j hJ
        simp [hJ]
      · intro j _
        exact congrFun hPaths.1 j
  | finishResumeNext w j =>
      cases hFor
      simp only [enabled, decide_eq_true_eq] at hEn
      rcases hEn with ⟨-, hPc, hLock⟩
      rw [rightOf_cast, block_cast] at hLock
      have hCase := h.resumeCase (t := s) (p := s.pc i)
        (by simp [hPc]) (by rw [hPc]; rfl) hLock rfl rfl
        (Function.update_eq_self _ _).symm
      have hBlock : s.block =
          Function.update s.block (i : ZMod K)
            { s.blk i with dataLock :=
              (s.blk i).dataLock } :=
        (Function.update_eq_self _ _).symm
      apply resumesRight_of
        (t := s.finishResumeNext w i) hK hBlock _ rfl rfl
        hCase rfl _ rfl rfl
      · simp [PipeState.finishResumeNext, hPc,
          IterPc.isMarked]
      · simp [PipeState.finishResumeNext, hPc,
          IterPc.waiting]
      · intro j _
        rfl
      · intro j hJ
        simp [PipeState.finishResumeNext, hJ]
  | stealNext u w j =>
      cases hFor
      simp only [enabled, decide_eq_true_eq] at hEn
      rcases hEn with ⟨-, hTask, -, -, hLock⟩
      rcases h.of_task_iter hTask with ⟨hExec, -, -⟩
      have hLive := IterPc.isLive (h.place_of_executes hExec)
      rw [rightOf_cast, block_cast] at hLock
      have hCase := h.resumeCase (t := s) (p := s.pc i)
        hLive.ne_notStarted hLive.freedOwn hLock rfl
        rfl (Function.update_eq_self _ _).symm
      rcases stealNext_parts s u i with ⟨hBlock, hPaths⟩
      rw [paths_eq_iff] at hPaths
      have hPcT : (s.stealNext u i).pc i = s.pc i := by
        rw [hPaths.1]
        rcases hCase with hSame | ⟨f', -, -, -, hWake⟩
        · rw [hSame]
        · rw [hWake, wake_pc,
            Function.update_of_ne (by omega)]
      have hOld : s.block =
          Function.update s.block (i : ZMod K)
            { s.blk i with dataLock :=
              (s.blk i).dataLock } :=
        (Function.update_eq_self _ _).symm
      apply resumesRight_of (t := s.stealNext u i) hK hOld
        _ rfl rfl hCase hBlock _ hPaths.2.1 hPaths.2.2
      · exact congrArg IterPc.isMarked hPcT
      · exact congrArg IterPc.waiting hPcT
      · intro j _
        rfl
      · intro j _
        exact congrFun hPaths.1 j
  | _ => cases hFor

------------------------------------------------------------
-- Every Run
------------------------------------------------------------

/-
  Each iteration has been resumed as often as suspended, or
  once less while it is suspended.
-/
def Balanced (s : PipeState W P R K) : Prop :=
  ∀ i, s.suspensions i =
    s.resumptions i + if (s.pc i).isMarked then 1 else 0

omit [DecidableEq W] in
theorem Balanced.of_moves
    (h : Balanced s)
    (hMoves : Moves s t) :
    Balanced t := by
  rcases hMoves with ⟨i, p, hPaths, hMark, -⟩
  simp only [PipeState.paths, Prod.mk.injEq] at hPaths
  rcases hPaths with ⟨hPc, hSusp, hRes⟩
  intro j
  rw [hPc, hSusp, hRes, h j]
  by_cases hJ : j = i
  · rw [hJ, Function.update_self, hMark]
  · rw [Function.update_of_ne hJ]

omit [DecidableEq W] in
theorem Balanced.of_resumesRight
    {i : ℤ}
    (h : Balanced s)
    (hResumes : ResumesRight s t i) :
    Balanced t := by
  intro j
  rw [hResumes.suspensions, h j]
  by_cases hI : j = i
  · rw [hI, hResumes.marked]
    rcases hResumes.right with
      ⟨-, -, hRes⟩ | ⟨f, -, -, -, -, -, hRes⟩
    · rw [hRes]
    · rw [hRes, Function.update_of_ne (by omega)]
  · rcases hResumes.right with
      ⟨hPc, -, hRes⟩ | ⟨f, hSusp, -, -, hPc, -, hRes⟩
    · rw [hRes]
      by_cases hJ : j = i + 1
      · rw [hJ, hPc]
      · rw [hResumes.others j hI hJ]
    · rw [hRes]
      by_cases hJ : j = i + 1
      · rw [hJ, hPc, hSusp, Function.update_self]
        rfl
      · rw [hResumes.others j hI hJ,
          Function.update_of_ne hJ]

/- The iteration is marked, which counts, or goes on. -/
theorem trySuspend_paths
    (s : PipeState W P R K) (w : W) (i : ℤ) (f : Bool) :
    (s.trySuspendAtStageWait w i f).paths =
        (Function.update s.pc i (.wait f .marked),
          Function.update s.suspensions i
            (s.suspensions i + 1), s.resumptions) ∨
      (s.trySuspendAtStageWait w i f).paths =
        (s.setPc i (.wait f .queued)).paths := by
  unfold trySuspendAtStageWait
  dsimp only
  split
  · left
    unfold check
    split <;> rfl
  · right
    rfl

theorem Balanced.trySuspend
    (h : Balanced s) {w : W} {i : ℤ} {f : Bool}
    (hPc : s.pc i = .wait f .switching) :
    Balanced (s.trySuspendAtStageWait w i f) := by
  rcases trySuspend_paths s w i f with hPaths | hPaths
  · simp only [PipeState.paths, Prod.mk.injEq] at hPaths
    rcases hPaths with ⟨hPcT, hSusp, hRes⟩
    intro j
    rw [hPcT, hSusp, hRes]
    by_cases hJ : j = i
    · have hOld := h i
      rw [hPc] at hOld
      rw [hJ, Function.update_self, Function.update_self,
        hOld]
      rfl
    · rw [Function.update_of_ne hJ,
        Function.update_of_ne hJ]
      exact h j
  · apply h.of_moves
    apply moves_of_update hPaths
    · rw [hPc]
      rfl
    · right
      left
      simp [IterPc.waiting]

theorem Inv.balanced
    (h : Inv s) (hBalanced : Balanced s)
    {a : Action W P R} (hEn : s.enabled a = true) :
    Balanced (s.exec a) := by
  cases hFor : a.resumesFor with
  | some i =>
      exact hBalanced.of_resumesRight
        (h.resumesRight hEn hFor)
  | none =>
      by_cases hTry : ∃ w i f, a = .trySuspend w i f
      · rcases hTry with ⟨w, i, f, rfl⟩
        simp only [enabled, decide_eq_true_eq] at hEn
        exact hBalanced.trySuspend hEn.2.1
      · push Not at hTry
        exact hBalanced.of_moves
          (h.exec_moves hEn hFor hTry)

/- An iteration leaves a wait only past a left that is ahead. -/
theorem Inv.passes_wait
    (h : Inv s) {a : Action W P R} {i : ℤ}
    (hEn : s.enabled a = true)
    (hWait : (s.pc i).waiting ≠ none)
    (hNone : ((s.exec a).pc i).waiting = none) :
    s.leftIsAhead i := by
  cases hFor : a.resumesFor with
  | some j =>
      have hResumes := h.resumesRight hEn hFor
      exfalso
      by_cases hI : i = j
      · rw [hI, hResumes.waiting, ← hI] at hNone
        exact hWait hNone
      · by_cases hNext : i = j + 1
        · rw [hNext] at hNone hWait
          rcases hResumes.right with
            ⟨hPc, -, -⟩ | ⟨f, -, -, -, hPc, -, -⟩
          · rw [hPc] at hNone
            exact hWait hNone
          · rw [hPc] at hNone
            cases hNone
        · rw [hResumes.others i hI hNext] at hNone
          exact hWait hNone
  | none =>
      by_cases hTry : ∃ w j f, a = .trySuspend w j f
      · exfalso
        apply hWait
        rcases hTry with ⟨w, j, f, rfl⟩
        have hPc : ∃ p,
            (s.trySuspendAtStageWait w j f).pc =
              Function.update s.pc j (.wait f p) := by
          rcases trySuspend_paths s w j f with
            hPaths | hPaths
          · exact ⟨_, congrArg Prod.fst hPaths⟩
          · exact ⟨_, congrArg Prod.fst hPaths⟩
        rcases hPc with ⟨p, hPc⟩
        change IterPc.waiting
          ((s.trySuspendAtStageWait w j f).pc i) = _ at hNone
        rw [hPc] at hNone
        by_cases hJ : i = j
        · rw [hJ, Function.update_self] at hNone
          cases hNone
        · rw [Function.update_of_ne hJ] at hNone
          exact hNone
      · push Not at hTry
        rcases h.exec_moves hEn hFor hTry with
          ⟨j, p, hPaths, -, hPass⟩
        simp only [PipeState.paths, Prod.mk.injEq] at hPaths
        rw [hPaths.1] at hNone
        by_cases hJ : i = j
        · rw [hJ, Function.update_self] at hNone
          rw [hJ] at hWait ⊢
          exact hPass hWait hNone
        · rw [Function.update_of_ne hJ] at hNone
          exact absurd hNone hWait

/- What holds of the stage waits in a state of a run. -/
structure WaitsOk (s : PipeState W P R K) : Prop where
  cached :
    ∀ i, 1 ≤ i → s.pc i ≠ .notStarted →
      (s.pc i).freedLeft = false →
        (s.blk (i - 1)).iterNum = i - 1 ∧
          (s.blk i).cachedLeftStage ≤
            (s.blk (i - 1)).stage
  woken :
    ∀ i, s.InRing i →
      (s.blk i).iterStatus = .promotedSuspended →
        s.leftIsAhead i → (s.pc (i - 1)).wakes = true
  balanced :
    ∀ i, s.suspensions i =
      s.resumptions i + if (s.pc i).isMarked then 1 else 0

/- What holds of a step of a run. -/
structure StepOk
    (s : PipeState W P R K) (a : Action W P R)
    (t : PipeState W P R K) : Prop where
  passes :
    ∀ i, (s.pc i).waiting ≠ none →
      (t.pc i).waiting = none →
        (s.blk i).iterNum = i ∧
          (s.blk (i - 1)).iterNum = i - 1 ∧
          (s.blk i).stage < (s.blk (i - 1)).stage
  resumes :
    ∀ i, a.resumesFor = some i → ResumesRight s t i
  others :
    a.resumesFor = none → t.resumptions = s.resumptions

section States

omit [DecidableEq W]

/- The blocks of an iteration and of its left neighbour. -/
theorem Inv.iterNums
    (h : Inv s) {i : ℤ}
    (hOne : 1 ≤ i)
    (hStarted : s.pc i ≠ .notStarted)
    (hLeft : (s.pc i).freedLeft = false) :
    (s.blk i).iterNum = i ∧
      (s.blk (i - 1)).iterNum = i - 1 := by
  have hPos := h.core.positions
  have hOwn : (s.pc i).freedOwn = false := by
    cases hPc : s.pc i with
    | finishing p =>
        cases p <;>
          simp [hPc, IterPc.freedLeft] at hLeft <;> rfl
    | finished => simp [hPc, IterPc.freedLeft] at hLeft
    | _ => rfl
  constructor
  · apply (h.core.blocks i (hPos.inRing hStarted hOwn)).iterNum
    · omega
    · exact hStarted
  · apply (h.core.blocks (i - 1)
      (hPos.inRing_left hStarted hLeft)).iterNum
    · omega
    · exact hPos.left_started hStarted

theorem Inv.waitsOk
    (h : Inv s) (hBalanced : Balanced s) :
    WaitsOk s := by
  constructor
  · intro i hOne hStarted hLeft
    constructor
    · exact (h.iterNums hOne hStarted hLeft).2
    · exact (h.core.links i hOne hStarted hLeft).cached
  · intro i hRing hStatus hAhead
    have hMark := h.core.marked_of_suspended hRing hStatus
    have hStarted : s.pc i ≠ .notStarted := by
      intro hEq
      rw [hEq] at hMark
      cases hMark
    have hFinished : s.pc i ≠ .finished := by
      intro hEq
      rw [hEq] at hMark
      cases hMark
    have hLeft : (s.pc i).freedLeft = false := by
      cases hPc : s.pc i with
      | wait f p => rfl
      | _ =>
          rw [hPc] at hMark
          cases hMark
    have hOne := h.core.positions.one_le hFinished
    exact (h.core.links i hOne hStarted hLeft).wakes hMark
      hAhead
  · exact hBalanced

end States

theorem Inv.stepOk
    (h : Inv s) {a : Action W P R}
    (hEn : s.enabled a = true) :
    StepOk s a (s.exec a) := by
  constructor
  · intro i hWait hNone
    have hStarted : s.pc i ≠ .notStarted := by
      intro hEq
      rw [hEq] at hWait
      exact hWait rfl
    have hFinished : s.pc i ≠ .finished := by
      intro hEq
      rw [hEq] at hWait
      exact hWait rfl
    have hLeft : (s.pc i).freedLeft = false := by
      cases hPc : s.pc i with
      | wait f p => rfl
      | _ =>
          rw [hPc] at hWait
          exact absurd rfl hWait
    have hNums := h.iterNums
      (h.core.positions.one_le hFinished) hStarted hLeft
    exact ⟨hNums.1, hNums.2,
      h.passes_wait hEn hWait hNone⟩
  · intro i hFor
    exact h.resumesRight hEn hFor
  · intro hFor
    by_cases hTry : ∃ w i f, a = .trySuspend w i f
    · rcases hTry with ⟨w, i, f, rfl⟩
      rcases trySuspend_paths s w i f with hPaths | hPaths
      · exact (Prod.mk.inj (Prod.mk.inj hPaths).2).2
      · exact (Prod.mk.inj (Prod.mk.inj hPaths).2).2
    · push Not at hTry
      rcases h.exec_moves hEn hFor hTry with
        ⟨i, p, hPaths, -⟩
      exact (Prod.mk.inj (Prod.mk.inj hPaths).2).2

theorem balanced_of_reachable
    (hK : 1 < K)
    (hReach : (pipeSystem W P R K).Reachable s) :
    Balanced s := by
  rcases hReach with ⟨s₀, acts, hInit, hRun⟩
  induction hRun with
  | refl =>
      rcases hInit with
        ⟨garbage, w₀, pedigree, reducerMap, rfl⟩
      intro i
      change (0 : ℕ) = 0 + if IterPc.isMarked
        (if i ≤ 0 then .finished else .notStarted) then 1
          else 0
      split <;> rfl
  | tail hRun hStep ih =>
      rcases hStep with ⟨hRuns, hEn, rfl⟩
      have hInv := inv_of_running hK ⟨_, _, hInit, hRun⟩ hRuns
      exact hInv.balanced ih hEn

/-
  In every run: the cached left counter is never ahead; no
  suspended iteration with its left neighbour ahead depends
  on one that has no resume step to come; an iteration is
  resumed once for each suspension; it gets past a wait only
  with its left neighbour ahead; and the resume steps change
  nothing but the next iteration.
-/
theorem stageWait_safe
    (hK : 2 ≤ K)
    (hReach : (pipeSystem W P R K).Reachable s)
    (hRuns : s.failure = none) :
    WaitsOk s ∧
      ∀ a t, (pipeSystem W P R K).step s a t →
        StepOk s a t := by
  have hInv := inv_of_running hK hReach hRuns
  constructor
  · exact hInv.waitsOk (balanced_of_reachable hK hReach)
  · intro a t hStep
    rcases hStep with ⟨-, hEn, rfl⟩
    exact hInv.stepOk hEn

/-
  The second iteration is suspended at a wait while the first
  one is about to finish.
-/
def suspendedNeighbour (v w : W) :
    List (Action W Unit Unit) :=
  [.initIter v, .stage v 1 4, .steal w v, .setupControl w,
    .throttle w, .passThrottle w, .initIter w,
    .stageWait w 2 4, .testCached w 2 false,
    .testLeft w 2 false, .testStall w 2 false,
    .promote w 2 false, .switch w 2 false,
    .trySuspend w 2 false, .resumeOnSuspend w 2 false,
    .endBody v 1, .testCached v 1 true, .testLeft v 1 true,
    .finishStage v 1, .enterFinish v 1, .pipeIterFinish v 1,
    .finishFreeLeft v 1, .finishMove v 1]

/- The first iteration wakes up the second. -/
theorem stageWait_safe_suspendedNeighbour :
    StepOk
      ((startState 2 3).replay (suspendedNeighbour 0 1))
      (.finishResumeNext 0 1)
      (((startState 2 3).replay
        (suspendedNeighbour 0 1)).finishResumeNext 0 1) :=
  (stageWait_safe (by decide)
    (reachable_replay (reachable_startState 2 3)
      (by decide)) rfl).2 _ _ ⟨rfl, by decide, rfl⟩

end Piper

end PRacer
