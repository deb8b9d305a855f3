import Mathlib.Tactic.Common
import PRacer.Piper.Change

/-
  What a change of one worker does to the invariant.

  Main declarations:
    * `Tasks.reassign`, `Flags.reassign`
    * `Continues.keep`
    * `SameParts`
-/

------------------------------------------------------------
-- Who Holds What
------------------------------------------------------------

namespace PRacer

namespace Piper

open PipeState

variable {W P R : Type} {K : ℕ}
variable {s t : PipeState W P R K}

namespace Tasks

/- Where the iterations stand that workers hold. -/
theorem place_of_holds
    (h : Tasks s) {w : W} {i : ℤ}
    (hHolds : s.HoldsIter w i) :
    ((s.pc i).place = .executing ∧
        s.attachedAt i = false) ∨
      (s.pc i).place = .queued ∨
      (s.pc i).place = .runtime := by
  have hOk := h.task w
  unfold HoldsIter at hHolds
  cases hTask : (s.worker w).task with
  | iter j =>
      rw [hTask] at hHolds
      simp only [Task.iters, List.mem_singleton] at hHolds
      rw [hHolds]
      exact Or.inl (hOk.iter j hTask)
  | nextIter j =>
      rw [hTask] at hHolds
      simp only [Task.iters, List.mem_singleton] at hHolds
      rw [hHolds]
      exact Or.inr (Or.inl (hOk.nextIter j hTask))
  | runtime j r =>
      rw [hTask] at hHolds
      simp only [Task.iters, List.mem_cons,
        Option.mem_toList] at hHolds
      rcases hHolds with hEq | hResume
      · rw [hEq]
        exact Or.inr (Or.inr (hOk.runtime j r hTask))
      · rw [hResume] at hTask
        exact Or.inr (Or.inl (hOk.resume j i hTask).2.1)
  | _ =>
      rw [hTask] at hHolds
      simp [Task.iters] at hHolds

/- An iteration in nobody's hands is held by no worker. -/
theorem not_holds
    (h : Tasks s) {i : ℤ}
    (hExecuting : (s.pc i).place ≠ .executing)
    (hQueued : (s.pc i).place ≠ .queued)
    (hRuntime : (s.pc i).place ≠ .runtime) (w : W) :
    ¬ s.HoldsIter w i := by
  intro hHolds
  rcases h.place_of_holds hHolds with hCase | hCase | hCase
  · exact hExecuting hCase.1
  · exact hQueued hCase
  · exact hRuntime hCase

/- An attached child is held by no worker. -/
theorem not_holds_attached
    (h : Tasks s) (hPos : Positions s) {i : ℤ}
    (hAtt : s.attachedAt i = true) (w : W) :
    ¬ s.HoldsIter w i := by
  intro hHolds
  have hPlace : (s.pc i).place = .executing ∨
      (s.pc i).place = .exiting := by
    simp only [attachedAt, Bool.and_eq_true,
      decide_eq_true_eq] at hAtt
    rcases hAtt with ⟨hCpc, rfl⟩
    cases hPc : s.control.pc with
    | child b => exact Or.inl (hPos.child b hPc)
    | popped => exact Or.inr (hPos.popped hPc)
    | _ =>
        rw [hPc] at hCpc
        simp [ControlPc.attached] at hCpc
  rcases h.place_of_holds hHolds with hCase | hCase | hCase
  · rw [hAtt] at hCase
    exact Bool.noConfusion hCase.2
  · simp [hCase] at hPlace
  · simp [hCase] at hPlace

/- Only the worker that holds an iteration holds it. -/
theorem others
    (h : Tasks s) {w : W} {i : ℤ}
    (hHolds : s.HoldsIter w i) :
    ∀ w', w' ≠ w → ¬ s.HoldsIter w' i := by
  intro w' hNe hOther
  exact hNe (h.iterUnique w' w i hOther hHolds)

theorem others_control
    (h : Tasks s) {w : W}
    (hHolds : s.HoldsControl w) :
    ∀ w', w' ≠ w → ¬ s.HoldsControl w' := by
  intro w' hNe hOther
  exact hNe (h.controlUnique w' w hOther hHolds)

/- Only one worker executes an iteration. -/
theorem others_executes
    (h : Tasks s) (hPos : Positions s) {w : W} {i : ℤ}
    (hExec : s.Executes w i) :
    ∀ w', w' ≠ w → ¬ s.HoldsIter w' i := by
  rcases hExec with hTask | ⟨-, hCpc, hCur⟩
  · apply h.others
    simp [HoldsIter, hTask, Task.iters]
  · intro w' _
    apply h.not_holds_attached hPos
    rcases hCpc with hCpc | hCpc <;>
      simp [attachedAt, hCpc, hCur, ControlPc.attached]

end Tasks

/- A task depends only on the iterations it is about. -/
theorem TaskOk.congr
    {pc pc' : ℤ → IterPc} {att att' : ℤ → Bool}
    {cpc cpc' : ControlPc} {task : Task}
    (h : TaskOk pc att cpc task)
    (hPc : ∀ j ∈ task.iters,
      pc' j = pc j ∧ att' j = att j)
    (hCpc :
      task = .control ∨ task = .nextControl → cpc' = cpc) :
    TaskOk pc' att' cpc' task := by
  constructor
  · intro j hJ
    have hSame := hPc j (by simp [hJ, Task.iters])
    rw [hSame.1, hSame.2]
    exact h.iter j hJ
  · intro j hJ
    rw [(hPc j (by simp [hJ, Task.iters])).1]
    exact h.nextIter j hJ
  · intro j r hJ
    rw [(hPc j (by simp [hJ, Task.iters])).1]
    exact h.runtime j r hJ
  · intro j k hJ
    rw [(hPc j (by simp [hJ, Task.iters])).1,
      (hPc k (by simp [hJ, Task.iters])).1]
    exact h.resume j k hJ
  · intro hJ
    rw [hCpc (Or.inl hJ)]
    exact h.control hJ
  · intro hJ
    rw [hCpc (Or.inr hJ)]
    exact h.nextControl hJ

/- So do the flags, but for counters that are moved. -/
theorem FlagOk.congr
    {pc pc' : ℤ → IterPc} {cur : ℤ} {cpc : ControlPc}
    {freed freed' : Prop} {v : Worker P R}
    (h : FlagOk pc cur cpc freed v)
    (hPc : ∀ j ∈ v.task.iters, pc' j = pc j)
    (hMoved : ∀ j, (pc j).moved = true →
      (pc' j).moved = true)
    (hFreed : freed → freed') :
    FlagOk pc' cur cpc freed' v := by
  constructor
  · exact h.selfSteal
  · intro hThrottle
    have hOld := h.throttleSuspend hThrottle
    exact ⟨hOld.1, hFreed hOld.2⟩
  · intro hThrottle j hTask
    apply hMoved
    apply h.travels hThrottle j
    rcases hTask with hTask | hTask | ⟨r, f, p, hTask, hAt⟩
    · exact Or.inl hTask
    · exact Or.inr (Or.inl hTask)
    · rw [hPc j (by simp [hTask, Task.iters])] at hAt
      exact Or.inr (Or.inr ⟨r, f, p, hTask, hAt⟩)
  · intro hThrottle j r hTask
    rw [hPc j (by simp [hTask, Task.iters])]
    exact h.unmarked hThrottle j r hTask
  · exact h.noParent
  · exact h.onTop
  · exact h.offTop

namespace Tasks

/-
  One worker gets other frames, which no other worker holds,
  and nothing changes that the other workers rely on.
-/
theorem reassign
    [DecidableEq W]
    (h : Tasks s) {w : W} {v : Worker P R}
    (hWorker : t.worker = Function.update s.worker w v)
    (hPc : ∀ w' j, w' ≠ w → s.HoldsIter w' j →
      t.pc j = s.pc j ∧ t.attachedAt j = s.attachedAt j)
    (hCpc : ∀ w', w' ≠ w → s.HoldsControl w' →
      t.control.pc = s.control.pc)
    (hTask :
      TaskOk t.pc t.attachedAt t.control.pc v.task)
    (hIters :
      ∀ j ∈ v.task.iters, ∀ w', w' ≠ w →
        ¬ s.HoldsIter w' j)
    (hControl :
      v.HoldsControl → ∀ w', w' ≠ w → ¬ s.HoldsControl w') :
    Tasks t := by
  have hSelf : t.worker w = v := by
    rw [hWorker, Function.update_self]
  have hOther : ∀ w', w' ≠ w →
      t.worker w' = s.worker w' := by
    intro w' hNe
    rw [hWorker, Function.update_of_ne hNe]
  constructor
  · intro w'
    by_cases hEq : w' = w
    · rw [hEq, hSelf]
      exact hTask
    · rw [hOther w' hEq]
      apply (h.task w').congr
      · intro j hJ
        exact hPc w' j hEq hJ
      · rintro (hJ | hJ)
        · exact hCpc w' hEq (Or.inl hJ)
        · exact hCpc w' hEq (Or.inr (Or.inl hJ))
  · intro w₁ w₂ i h₁ h₂
    unfold HoldsIter at h₁ h₂
    by_cases hEq₁ : w₁ = w
    · by_cases hEq₂ : w₂ = w
      · rw [hEq₁, hEq₂]
      · rw [hEq₁, hSelf] at h₁
        rw [hOther w₂ hEq₂] at h₂
        exact absurd h₂ (hIters i h₁ w₂ hEq₂)
    · rw [hOther w₁ hEq₁] at h₁
      by_cases hEq₂ : w₂ = w
      · rw [hEq₂, hSelf] at h₂
        exact absurd h₁ (hIters i h₂ w₁ hEq₁)
      · rw [hOther w₂ hEq₂] at h₂
        exact h.iterUnique w₁ w₂ i h₁ h₂
  · intro w₁ w₂ h₁ h₂
    unfold HoldsControl at h₁ h₂
    by_cases hEq₁ : w₁ = w
    · by_cases hEq₂ : w₂ = w
      · rw [hEq₁, hEq₂]
      · rw [hEq₁, hSelf] at h₁
        rw [hOther w₂ hEq₂] at h₂
        exact absurd h₂ (hControl h₁ w₂ hEq₂)
    · rw [hOther w₁ hEq₁] at h₁
      by_cases hEq₂ : w₂ = w
      · rw [hEq₂, hSelf] at h₂
        exact absurd h₁ (hControl h₂ w₁ hEq₁)
      · rw [hOther w₂ hEq₂] at h₂
        exact h.controlUnique w₁ w₂ h₁ h₂

end Tasks

------------------------------------------------------------
-- Flags
------------------------------------------------------------

namespace Flags

/- The flags of one worker change. -/
theorem flag_reassign
    [DecidableEq W]
    (h : Flags s) {w : W} {v : Worker P R}
    (hWorker : t.worker = Function.update s.worker w v)
    (hPc : ∀ w' j, w' ≠ w → s.HoldsIter w' j →
      t.pc j = s.pc j)
    (hMoved : ∀ j, (s.pc j).moved = true →
      (t.pc j).moved = true)
    (hFreed :
      s.Freed (s.cur + 1 - K) → t.Freed (t.cur + 1 - K))
    (hCur : ∀ w', w' ≠ w →
      (s.worker w').parentResume ≠ .noParent →
        t.cur = s.cur ∧ t.control.pc = s.control.pc)
    (hFlag :
      FlagOk t.pc t.cur t.control.pc
        (t.Freed (t.cur + 1 - K)) v) :
    ∀ w, FlagOk t.pc t.cur t.control.pc
      (t.Freed (t.cur + 1 - K)) (t.worker w) := by
  intro w'
  by_cases hEq : w' = w
  · rw [hEq, hWorker, Function.update_self]
    exact hFlag
  · rw [hWorker, Function.update_of_ne hEq]
    have hOk := (h.flag w').congr (hPc w' · hEq ·) hMoved
      hFreed
    constructor
    · intro hSelf
      have hSame := hCur w' hEq (by simp [hSelf])
      rw [hSame.1, hSame.2]
      exact hOk.selfSteal hSelf
    · intro hThrottle
      have hSame := hCur w' hEq (by simp [hThrottle])
      rw [hSame.2]
      exact hOk.throttleSuspend hThrottle
    · exact hOk.travels
    · exact hOk.unmarked
    · exact hOk.noParent
    · exact hOk.onTop
    · exact hOk.offTop

/-
  One worker changes, and the control frame keeps its flags
  and its join counter.
-/
theorem reassign
    [DecidableEq W]
    (h : Flags s) {w : W} {v : Worker P R}
    (hWorker : t.worker = Function.update s.worker w v)
    (hPc : ∀ w' j, w' ≠ w → s.HoldsIter w' j →
      t.pc j = s.pc j)
    (hMoved : ∀ j, (s.pc j).moved = true →
      (t.pc j).moved = true)
    (hFreed : s.Freed (s.cur + 1 - K) →
      t.Freed (t.cur + 1 - K))
    (hControl : t.control = s.control)
    (hFlag :
      FlagOk t.pc t.cur t.control.pc
        (t.Freed (t.cur + 1 - K)) v)
    (hResumes :
      v.parentResume = .throttleSuspend →
        ∀ w', w' ≠ w → ¬ s.Resumes w')
    (hExecuting :
      v.task = .control →
        s.control.resumeFlags = .normalCilk)
    (hHanded :
      v.task = .nextControl → s.control.pc = .passing →
        s.control.resumeFlags = .resumingControl)
    (hWaiting :
      v.task = .nextControl → s.control.pc = .synced →
        s.control.joinCounter = 1 ∧
          s.control.children = ∅) :
    Flags t := by
  have hSelf : t.worker w = v := by
    rw [hWorker, Function.update_self]
  have hOther : ∀ w', w' ≠ w →
      t.worker w' = s.worker w' := by
    intro w' hNe
    rw [hWorker, Function.update_of_ne hNe]
  constructor
  · apply h.flag_reassign hWorker hPc hMoved hFreed _ hFlag
    intro w' _ _
    simp [cur, hControl]
  · intro w₁ w₂ h₁ h₂
    unfold Resumes at h₁ h₂
    by_cases hEq₁ : w₁ = w
    · by_cases hEq₂ : w₂ = w
      · rw [hEq₁, hEq₂]
      · rw [hEq₁, hSelf] at h₁
        rw [hOther w₂ hEq₂] at h₂
        exact absurd h₂ (hResumes h₁ w₂ hEq₂)
    · rw [hOther w₁ hEq₁] at h₁
      by_cases hEq₂ : w₂ = w
      · rw [hEq₂, hSelf] at h₂
        exact absurd h₁ (hResumes h₂ w₁ hEq₁)
      · rw [hOther w₂ hEq₂] at h₂
        exact h.resumesUnique w₁ w₂ h₁ h₂
  · rw [hControl]
    exact h.suspended
  · rw [hControl]
    exact h.resuming
  · rw [hControl]
    exact h.normal
  · intro w' hTask'
    rw [hControl]
    by_cases hEq : w' = w
    · rw [hEq, hSelf] at hTask'
      exact hExecuting hTask'
    · rw [hOther w' hEq] at hTask'
      exact h.executing w' hTask'
  · intro w' hTask'
    rw [hControl]
    by_cases hEq : w' = w
    · rw [hEq, hSelf] at hTask'
      exact hHanded hTask'
    · rw [hOther w' hEq] at hTask'
      exact h.handed w' hTask'
  · rw [hControl]
    exact h.running
  · rw [hControl]
    intro hSynced
    rcases h.waiting hSynced with ⟨hJoin, hNone⟩ | hLast
    · by_cases hTask : v.task = .nextControl
      · exact Or.inr (hWaiting hTask hSynced)
      · left
        refine ⟨hJoin, ?_⟩
        intro w'
        by_cases hEq : w' = w
        · rw [hEq, hSelf]
          exact hTask
        · rw [hOther w' hEq]
          exact hNone w'
    · exact Or.inr hLast

end Flags

------------------------------------------------------------
-- Continuing the Control Frame
------------------------------------------------------------

theorem Continues.keep
    (h : Continues s)
    (hCur : t.cur = s.cur)
    (hCpc : t.control.pc = s.control.pc)
    (hBy : t.control.continuedBy = s.control.continuedBy)
    (hZeroed :
      (t.blk (s.cur + 1 - K)).zeroedBy =
        (s.blk (s.cur + 1 - K)).zeroedBy)
    (hFreed :
      t.Freed (s.cur + 1 - K) → s.Freed (s.cur + 1 - K))
    (hResumes : ∀ w, s.Resumes w →
      t.Resumes w ∧
        (t.worker w).flagSetBy = (s.worker w).flagSetBy) :
    Continues t := by
  constructor
  · rw [hCpc, hCur, hZeroed]
    intro hSuspended hBoth
    rcases h.suspended hSuspended (hFreed hBoth) with
      ⟨w, hW, hEq⟩
    refine ⟨w, (hResumes w hW).1, ?_⟩
    rw [(hResumes w hW).2]
    exact hEq
  · rw [hCpc, hCur, hZeroed, hBy]
    exact h.passing

theorem Continues.of_not_throttled
    (hSuspended : t.control.pc ≠ .suspended)
    (hPassing : t.control.pc ≠ .passing) :
    Continues t :=
  ⟨fun hPc => absurd hPc hSuspended,
    fun hPc => absurd hPc hPassing⟩

------------------------------------------------------------
-- Parts of the State the Invariant Ignores
------------------------------------------------------------

/-
  The invariant does not depend on failures, on counts of
  suspensions and on the history of the control frame.
-/
structure SameParts (s t : PipeState W P R K) : Prop where
  block : t.block = s.block
  task : ∀ w, (t.worker w).task = (s.worker w).task
  parentResume :
    ∀ w, (t.worker w).parentResume =
      (s.worker w).parentResume
  flagSetBy :
    ∀ w, (t.worker w).flagSetBy = (s.worker w).flagSetBy
  iterFfOnTop :
    ∀ w, (t.worker w).iterFfOnTop =
      (s.worker w).iterFfOnTop
  pc : t.pc = s.pc
  cur : t.cur = s.cur
  hasFullFrame :
    t.control.hasFullFrame = s.control.hasFullFrame
  resumeFlags :
    t.control.resumeFlags = s.control.resumeFlags
  joinCounter :
    t.control.joinCounter = s.control.joinCounter
  children : t.control.children = s.control.children
  controlPc : t.control.pc = s.control.pc
  continuedBy :
    t.control.continuedBy = s.control.continuedBy

theorem SameParts.inv
    (hSame : SameParts s t) (h : Inv s) : Inv t := by
  have hAtt : t.attachedAt = s.attachedAt := by
    funext j
    unfold attachedAt
    rw [hSame.controlPc, hSame.cur]
  have hThr : t.throttledAt = s.throttledAt := by
    funext j
    unfold throttledAt
    rw [hSame.controlPc, hSame.cur]
  have hRight : t.rightFreed = s.rightFreed := by
    funext j
    unfold rightFreed
    rw [hSame.pc]
  have hFreed : t.Freed = s.Freed := by
    funext j
    unfold Freed
    rw [hSame.pc, hRight]
  have hBlk : t.blk = s.blk := by
    funext j
    unfold blk
    rw [hSame.block]
  have hRing : t.InRing = s.InRing := by
    funext j
    unfold InRing
    rw [hSame.cur]
  have hHolds : t.HoldsIter = s.HoldsIter := by
    funext w j
    unfold HoldsIter
    rw [hSame.task]
  have hControl : t.HoldsControl = s.HoldsControl := by
    funext w
    unfold HoldsControl Worker.HoldsControl
    rw [hSame.task, hSame.parentResume]
  have hResumes : t.Resumes = s.Resumes := by
    funext w
    unfold Resumes
    rw [hSame.parentResume]
  rcases h with ⟨⟨hPos, hBlocks, hLinks, hChildren⟩,
    ⟨hTask, hIter, hHeld⟩, hFlags, hContinues⟩
  refine ⟨⟨?_, ?_, ?_, ?_⟩, ⟨?_, ?_, ?_⟩, ?_, ?_⟩
  · rcases hPos with ⟨_, _, _, _, _, _, _, _, _, _, _, _⟩
    constructor
    case ring => assumption
    all_goals
      simp only [hSame.cur, hSame.pc, hSame.controlPc,
        hSame.hasFullFrame, hAtt, hFreed]
      assumption
  · simp only [hRing, hSame.pc, hRight, hAtt, hThr, hBlk]
    exact hBlocks
  · simp only [hSame.pc, hBlk]
    exact hLinks
  · simp only [hSame.children, hSame.pc, hAtt]
    exact hChildren
  · simp only [hSame.pc, hAtt, hSame.controlPc, hSame.task]
    exact hTask
  · rw [hHolds]
    exact hIter
  · rw [hControl]
    exact hHeld
  · rcases hFlags with ⟨hFlag, _, _, _, _, _, _, _, _⟩
    constructor
    case flag =>
      intro w
      have hOld := hFlag w
      rw [hSame.pc, hSame.cur, hSame.controlPc, hFreed]
      rcases hOld with ⟨_, _, _, _, _, _, _⟩
      constructor <;>
        simp only [hSame.task, hSame.parentResume,
          hSame.iterFfOnTop] <;>
        assumption
    all_goals
      simp only [hResumes, hSame.resumeFlags,
        hSame.controlPc, hSame.task, hSame.joinCounter,
        hSame.children]
      assumption
  · rcases hContinues with ⟨_, _⟩
    constructor <;>
      simp only [hSame.cur, hSame.controlPc, hFreed, hBlk,
        hResumes, hSame.flagSetBy, hSame.continuedBy] <;>
      assumption

section Pedigrees

variable [DecidableEq W]

/- Only the note about the steal changes. -/
theorem SameParts.foundWork
    (s : PipeState W P R K) (w : W) :
    SameParts s (s.foundWork w) := by
  unfold PipeState.foundWork
  constructor <;> try rfl
  all_goals
    intro w'
    by_cases hW : w' = w
    · rw [hW]
      simp
    · simp [hW]

/- Only the pedigree and the notes about it change. -/
theorem SameParts.setupForExecutionPedigree
    (s : PipeState W P R K) (w : W) :
    SameParts s (s.setupForExecutionPedigree w) := by
  unfold PipeState.setupForExecutionPedigree
  constructor <;> try rfl
  all_goals
    intro w'
    by_cases hW : w' = w
    · rw [hW]
      simp
    · simp [hW]

end Pedigrees

end Piper

end PRacer
