import Mathlib.Tactic.Common
import PRacer.Piper.Crew

/-
  The steps of an iteration's own code keep the invariant:
  stage advances and the tests of a stage wait.

  Main declarations:
    * `Inv.code`, `Inv.push`
    * `Inv.stage`, `Inv.endBody`, `Inv.testCached`, ...
-/

------------------------------------------------------------
-- One Step of the Code
------------------------------------------------------------

namespace PRacer

namespace Piper

open PipeState

variable {W P R : Type} {K : ℕ}
variable {s t : PipeState W P R K}

/- A change of block and position that control ignores. -/
theorem change_setBlock_setPc
    (s : PipeState W P R K) {i : ℤ}
    (hRing : s.InRing i) (p : IterPc) (b : Block) :
    Change s ((s.setBlock i b).setPc i p) i p b := by
  constructor
  · rfl
  · intro j hJ
    rw [blk_setPc, blk_setBlock_of_inRing hRing hJ]
  · rfl
  · intro j _
    rfl
  · intro j _
    rfl

theorem Change.freed_iff
    {i : ℤ} {p : IterPc} {b : Block}
    (h : Change s t i p b)
    (hLeft : p.freedLeft = (s.pc i).freedLeft)
    (hOwn : p.freedOwn = (s.pc i).freedOwn) (j : ℤ) :
    t.Freed j ↔ s.Freed j := by
  unfold Freed rightFreed
  rw [h.pc_apply, h.pc_apply]
  have hO : (if j = i then p else s.pc j).freedOwn =
      (s.pc j).freedOwn := by
    split
    · rename_i hEq
      rw [hEq, hOwn]
    · rfl
  have hL : (if j + 1 = i then p else s.pc (j + 1)).freedLeft =
      (s.pc (j + 1)).freedLeft := by
    split
    · rename_i hEq
      rw [hEq, hLeft]
    · rfl
  rw [hO, hL]

/- Changes that leave the decrements alone. -/
theorem Continues.change
    {i : ℤ} {p : IterPc} {b : Block}
    (h : Continues s)
    (hRing : 1 < K)
    (hChange : Change s t i p b)
    (hControl : t.control = s.control)
    (hLeft : p.freedLeft = (s.pc i).freedLeft)
    (hOwn : p.freedOwn = (s.pc i).freedOwn)
    (hZeroed : b.zeroedBy = (s.blk i).zeroedBy)
    (hResumes : ∀ w, s.Resumes w →
      t.Resumes w ∧
        (t.worker w).flagSetBy = (s.worker w).flagSetBy) :
    Continues t := by
  apply h.keep hChange.cur _ _ _ _ hResumes
  · rw [hControl]
  · rw [hControl]
  · rw [hChange.blk _ ⟨by omega, by omega⟩]
    split
    · rename_i hEq
      rw [hEq, hZeroed]
    · rfl
  · exact (hChange.freed_iff hLeft hOwn _).mp

theorem Inv.place_of_executes
    (h : Inv s) {w : W} {i : ℤ}
    (hExec : s.Executes w i) :
    (s.pc i).place = .executing := by
  rcases hExec with hTask | ⟨-, hCpc, hCur⟩
  · exact ((h.tasks.task w).iter i hTask).1
  · rw [← hCur]
    rcases hCpc with hCpc | hCpc
    · exact h.core.positions.child _ hCpc
    · exact h.core.positions.child _ hCpc

theorem Inv.inRing_of_executes
    (h : Inv s) {w : W} {i : ℤ}
    (hExec : s.Executes w i) :
    s.InRing i := by
  have hLive := IterPc.isLive (h.place_of_executes hExec)
  exact h.core.positions.inRing hLive.ne_notStarted
    hLive.freedOwn

/- The worker keeps its task while its iteration moves on. -/
theorem Tasks.code
    [DecidableEq W]
    (h : Tasks s) (hPos : Positions s) {w : W} {i : ℤ}
    {p : IterPc}
    (hExec : s.Executes w i)
    (hNew : p.place = .executing)
    (hWorker : t.worker = s.worker)
    (hPc : t.pc = Function.update s.pc i p)
    (hControl : t.control = s.control) :
    Tasks t := by
  have hAtt : t.attachedAt = s.attachedAt := by
    funext j
    unfold attachedAt cur
    rw [hControl]
  have hOthers := h.others_executes hPos hExec
  have hOk := h.task w
  apply h.reassign (v := s.worker w)
  · rw [hWorker, Function.update_eq_self]
  · intro w' j hNe hHolds
    have hJ : j ≠ i := by
      rintro rfl
      exact hOthers w' hNe hHolds
    rw [hPc, Function.update_of_ne hJ, hAtt]
    exact ⟨rfl, rfl⟩
  · intro w' _ _
    rw [hControl]
  · rw [hAtt, hControl, hPc]
    rcases hExec with hTask | ⟨hTask, -⟩
    · constructor
      · intro j hJ
        have hEq : j = i := by
          rw [hTask] at hJ
          exact (Task.iter.inj hJ).symm
        subst hEq
        rw [Function.update_self]
        exact ⟨hNew, (hOk.iter j hTask).2⟩
      · simp [hTask]
      · simp [hTask]
      · simp [hTask]
      · simp [hTask]
      · simp [hTask]
    · constructor
      · simp [hTask]
      · simp [hTask]
      · simp [hTask]
      · simp [hTask]
      · exact hOk.control
      · simp [hTask]
  · intro j hJ
    exact h.others hJ
  · intro hHolds
    exact h.others_control hHolds

theorem Flags.code
    [DecidableEq W]
    (h : Flags s) (hTasks : Tasks s) (hPos : Positions s)
    {w : W} {i : ℤ} {p : IterPc} {b : Block}
    (hExec : s.Executes w i)
    (hOld : (s.pc i).place = .executing)
    (hNew : p.place = .executing)
    (hChange : Change s t i p b)
    (hWorker : t.worker = s.worker)
    (hControl : t.control = s.control) :
    Flags t := by
  have hO := IterPc.isLive hOld
  have hN := IterPc.isLive hNew
  have hOthers := hTasks.others_executes hPos hExec
  have hFreed := hChange.freed_iff
    (by rw [hN.freedLeft, hO.freedLeft])
    (by rw [hN.freedOwn, hO.freedOwn])
  have hMoved : ∀ j, (s.pc j).moved = true →
      (t.pc j).moved = true := by
    intro j hJ
    rw [hChange.pc_apply]
    split
    · rename_i hEq
      rw [hEq, hO.moved] at hJ
      exact absurd hJ (by simp)
    · exact hJ
  have hOk := h.flag w
  have hTask : ∀ j r, (s.worker w).task ≠ .runtime j r := by
    intro j r
    rcases hExec with hTask | ⟨hTask, -⟩ <;> simp [hTask]
  apply h.reassign (v := s.worker w)
  · rw [hWorker, Function.update_eq_self]
  · intro w' j hNe hHolds
    rw [hChange.pc_apply, if_neg]
    rintro rfl
    exact hOthers w' hNe hHolds
  · exact hMoved
  · rw [hChange.cur]
    exact (hFreed _).mpr
  · exact hControl
  · rw [hChange.cur, hControl]
    constructor
    · exact hOk.selfSteal
    · intro hThrottle
      have hBoth := hOk.throttleSuspend hThrottle
      exact ⟨hBoth.1, (hFreed _).mpr hBoth.2⟩
    · intro hThrottle j hCase
      apply hMoved
      apply hOk.travels hThrottle
      rcases hCase with hCase | hCase | ⟨r, f, q, hCase, -⟩
      · exact Or.inl hCase
      · exact Or.inr (Or.inl hCase)
      · exact absurd hCase (hTask j r)
    · intro _ j r hCase
      exact absurd hCase (hTask j r)
    · exact hOk.noParent
    · exact hOk.onTop
    · exact hOk.offTop
  · intro hThrottle w' hNe hOther
    exact hNe (h.resumesUnique w' w hOther hThrottle)
  · exact h.executing w
  · exact h.handed w
  · intro hNext
    rcases hExec with hTask' | ⟨hTask', -⟩ <;>
      simp [hTask'] at hNext

/-
  A step of the iteration's code changes its position, its
  stage and its cached counter, and nothing else.
-/
theorem Inv.code
    [DecidableEq W]
    (h : Inv s) {w : W} {i : ℤ} {p : IterPc}
    {stage cached : ℤ}
    (hExec : s.Executes w i)
    (hNew : p.place = .executing)
    (hStage : (s.blk i).stage ≤ stage)
    (hEarly :
      p.posted = false →
        stage ≤ stageUserToSys finalUserStage)
    (hPosted :
      p.posted = true →
        stage = stageUserToSys postIterCleanupStage)
    (hCached :
      cached = (s.blk i).cachedLeftStage ∨
        cached = (s.blk (i - 1)).stage) :
    Inv ((s.setBlock i
      { s.blk i with
        stage := stage
        cachedLeftStage := cached }).setPc i p) := by
  have hOld := h.place_of_executes hExec
  have hRing := h.inRing_of_executes hExec
  have hO := IterPc.isLive hOld
  have hN := IterPc.isLive hNew
  have hChange := change_setBlock_setPc s hRing p
    { s.blk i with
      stage := stage
      cachedLeftStage := cached }
  have hPos : Positions ((s.setBlock i
      { s.blk i with
        stage := stage
        cachedLeftStage := cached }).setPc i p) := by
    apply h.core.positions.move hChange.pc rfl (Or.inl rfl)
      rfl hO.ne_notStarted hO.ne_finished hN.ne_notStarted
    · simp [hO.freedOwn]
    · simp [hO.freedLeft]
    · exact Or.inl (hNew.trans hOld.symm)
  constructor
  · exact h.core.live hChange hPos rfl rfl rfl hO hN rfl
      (by simp [hNew]) hStage hEarly hPosted hCached
  · exact h.tasks.code h.core.positions hExec hNew rfl rfl
      rfl
  · exact h.flags.code h.tasks h.core.positions hExec hOld
      hNew hChange rfl rfl
  · exact h.continues.change h.core.positions.ring hChange rfl
      (by rw [hN.freedLeft, hO.freedLeft])
      (by rw [hN.freedOwn, hO.freedOwn]) rfl
      (fun _ hR => ⟨hR, rfl⟩)

/- The control frame is pushed on the deque. -/
theorem Inv.push
    (h : Inv s)
    (hCpc : s.control.pc = .child false) :
    Inv (s.setControl
      { s.control with pc := .child true }) := by
  have hAtt : ∀ j,
      (s.setControl
        { s.control with pc := .child true }).attachedAt j =
        s.attachedAt j := by
    intro j
    simp [attachedAt, cur, hCpc, ControlPc.attached]
  have hThr : ∀ j,
      (s.setControl
        { s.control with pc := .child true }).throttledAt j =
        s.throttledAt j := by
    intro j
    simp [throttledAt, hCpc, ControlPc.throttled]
  constructor
  · have hPos := h.core.positions
    constructor
    · constructor
      · exact hPos.ring
      · exact hPos.curPos
      · exact hPos.before
      · exact hPos.after
      · exact hPos.started
      · have hCurrent := hPos.current
        rw [hCpc] at hCurrent
        exact hCurrent
      · intro _ _
        exact hPos.child _ hCpc
      · simp
      · intro j hJ
        have hOld := (hPos.exiting j hJ).2
        rw [hCpc] at hOld
        simp at hOld
      · intro hNone j hJ hStart hNot
        rw [hAtt] at hNot
        exact hPos.unstolen hNone j hJ hStart hNot
      · exact hPos.window
      · simp
    · intro j hJ
      rw [hAtt, hThr]
      exact h.core.blocks j hJ
    · exact h.core.links
    · intro j
      rw [hAtt]
      exact h.core.children j
  · constructor
    · intro w
      have hOk := h.tasks.task w
      constructor
      · intro j hJ
        rw [hAtt]
        exact hOk.iter j hJ
      · exact hOk.nextIter
      · exact hOk.runtime
      · exact hOk.resume
      · simp
      · intro hNext
        have hOld := hOk.nextControl hNext
        simp [hCpc] at hOld
    · exact h.tasks.iterUnique
    · exact h.tasks.controlUnique
  · constructor
    · intro w
      have hOk := h.flags.flag w
      constructor
      · intro hSelf
        have hOld := (hOk.selfSteal hSelf).1
        rw [hCpc] at hOld
        simp at hOld
      · intro hThrottle
        have hOld := (hOk.throttleSuspend hThrottle).1
        rw [hCpc] at hOld
        simp at hOld
      · exact hOk.travels
      · exact hOk.unmarked
      · exact hOk.noParent
      · exact hOk.onTop
      · exact hOk.offTop
    · exact h.flags.resumesUnique
    · have hOld := h.flags.suspended
      rw [hCpc] at hOld
      simpa using hOld
    · intro hResuming
      have hOld := h.flags.resuming hResuming
      rw [hCpc] at hOld
      simp at hOld
    · exact h.flags.normal
    · exact h.flags.executing
    · simp
    · intro _
      exact h.flags.running (by simp [hCpc])
    · simp
  · apply Continues.of_not_throttled <;> simp

------------------------------------------------------------
-- The Steps
------------------------------------------------------------

@[simp] theorem PipeState.setPc_self
    (s : PipeState W P R K) (i : ℤ) :
    s.setPc i (s.pc i) = s := by
  unfold setPc
  rw [Function.update_eq_self]

@[simp] theorem PipeState.setBlock_self
    (s : PipeState W P R K) (i : ℤ) :
    s.setBlock i (s.blk i) = s := by
  unfold setBlock blk
  rw [Function.update_eq_self]

/- An iteration before its last stage. -/
theorem Inv.early
    (h : Inv s) {w : W} {i : ℤ}
    (hExec : s.Executes w i)
    (hPost : (s.pc i).posted = false) :
    (s.blk i).stage ≤ stageUserToSys finalUserStage := by
  have hLive := IterPc.isLive (h.place_of_executes hExec)
  have hOne := h.core.positions.one_le hLive.ne_finished
  exact (h.core.blocks i (h.inRing_of_executes hExec)).early
    (by omega) hLive.ne_notStarted hPost hLive.moved

theorem Inv.goto
    [DecidableEq W]
    (h : Inv s) {w : W} {i : ℤ} {p : IterPc}
    (hExec : s.Executes w i)
    (hOld : (s.pc i).posted = false)
    (hNew : p.place = .executing)
    (hPost : p.posted = false) :
    Inv (s.setPc i p) := by
  have hCode := h.code (p := p) hExec hNew le_rfl
    (fun _ => h.early hExec hOld) (by simp [hPost])
    (Or.inl rfl)
  change Inv ((s.setBlock i (s.blk i)).setPc i p) at hCode
  rw [setBlock_self] at hCode
  exact hCode

/- An advance of the stage, with the position after it. -/
theorem Inv.advance
    [DecidableEq W]
    (h : Inv s) {w : W} {i stage : ℤ}
    {p : IterPc}
    (hExec : s.Executes w i)
    (hStage : (s.blk i).stage ≤ stage)
    (hFinal : stage ≤ stageUserToSys finalUserStage)
    (hNew : p.place = .executing)
    (hPost : p.posted = false) :
    Inv ((s.stageAdvance i stage).setPc i p) := by
  have hCode := h.code (p := p) hExec hNew hStage
    (fun _ => hFinal) (by simp [hPost]) (Or.inl rfl)
  unfold stageAdvance
  dsimp only
  split
  · rename_i hCpc
    exact hCode.push hCpc
  · exact hCode

theorem Inv.stage
    [DecidableEq W]
    (h : Inv s) {w : W} {i stage : ℤ}
    (hExec : s.Executes w i)
    (hPc : s.pc i = .body)
    (hStage : (s.blk i).stage ≤ stage)
    (hFinal : stage ≤ stageUserToSys finalUserStage) :
    Inv (s.stageAdvance i stage) := by
  have hAdvance := h.advance (p := s.pc i) hExec hStage
    hFinal (h.place_of_executes hExec)
    (by simp [hPc, IterPc.posted])
  have hSame : (s.stageAdvance i stage).pc i = s.pc i := by
    unfold stageAdvance
    dsimp only
    split <;> rfl
  rw [← hSame, setPc_self] at hAdvance
  exact hAdvance

theorem Inv.endBody
    [DecidableEq W]
    (h : Inv s) {w : W} {i : ℤ}
    (hExec : s.Executes w i)
    (hPc : s.pc i = .body) :
    Inv (s.finalStageWait i) := by
  unfold finalStageWait
  split
  · apply h.advance hExec _ le_rfl
    · rfl
    · rfl
    · exact h.early hExec (by simp [hPc, IterPc.posted])
  · exact h.goto hExec (by simp [hPc, IterPc.posted]) rfl
      rfl

theorem IterPc.place_afterWait (f : Bool) :
    (IterPc.afterWait f).place = .executing := by
  cases f <;> rfl

theorem IterPc.posted_afterWait (f : Bool) :
    (IterPc.afterWait f).posted = false := by
  cases f <;> rfl

theorem Inv.testCached
    [DecidableEq W]
    (h : Inv s) {w : W} {i : ℤ} {f : Bool}
    (hExec : s.Executes w i)
    (hPc : s.pc i = .wait f .cache) :
    Inv (s.testCachedStage i f) := by
  have hPost : (s.pc i).posted = false := by
    rw [hPc]
    rfl
  unfold testCachedStage
  split
  · exact h.goto hExec hPost (IterPc.place_afterWait f)
      (IterPc.posted_afterWait f)
  · exact h.goto hExec hPost rfl rfl

theorem Inv.testLeft
    [DecidableEq W]
    (h : Inv s) {w : W} {i : ℤ} {f : Bool}
    (hExec : s.Executes w i)
    (hPc : s.pc i = .wait f .left) :
    Inv (s.testLeftStage i f) := by
  have hEarly := h.early hExec (by rw [hPc]; rfl)
  unfold testLeftStage
  rw [leftOf_cast, block_cast]
  dsimp only
  split
  · exact h.code hExec (IterPc.place_afterWait f) le_rfl
      (fun _ => hEarly) (by simp [IterPc.posted_afterWait])
      (Or.inr rfl)
  · exact h.code hExec rfl le_rfl (fun _ => hEarly)
      (by simp [IterPc.posted]) (Or.inr rfl)

theorem Inv.testStall
    [DecidableEq W]
    (h : Inv s) {w : W} {i : ℤ} {f : Bool}
    (hExec : s.Executes w i)
    (hPc : s.pc i = .wait f .check) :
    Inv (s.stageWaitTest i f) := by
  have hPost : (s.pc i).posted = false := by
    rw [hPc]
    rfl
  unfold stageWaitTest
  split
  · exact h.goto hExec hPost rfl rfl
  · exact h.goto hExec hPost rfl rfl

theorem Inv.finishStage
    [DecidableEq W]
    (h : Inv s) {w : W} {i : ℤ}
    (hExec : s.Executes w i)
    (hStage :
      (s.blk i).stage = stageUserToSys finalUserStage) :
    Inv ((s.setBlock i
      { s.blk i with
        stage := stageUserToSys postIterCleanupStage }).setPc
          i .leaving) := by
  apply h.code hExec rfl
  · rw [hStage]
    exact final_lt_post.le
  · simp [IterPc.posted]
  · simp
  · exact Or.inl rfl

end Piper

end PRacer
