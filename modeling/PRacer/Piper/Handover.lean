import Mathlib.Tactic.Common
import PRacer.Piper.Suspension

/-
  Frames that go from one worker to another keep the
  invariant.

  Main declarations:
    * `Inv.reassign`
    * `Inv.giveIter`, `Inv.release`, `Inv.handControl`
    * `Inv.takeParent`
-/

------------------------------------------------------------
-- One Worker
------------------------------------------------------------

namespace PRacer

namespace Piper

open PipeState

variable {W P R : Type} {K : ℕ}
variable {s t : PipeState W P R K}

/- The core is not about workers. -/
theorem Core.of_same
    (h : Core s)
    (hBlock : t.block = s.block)
    (hPc : t.pc = s.pc)
    (hControl : t.control = s.control) :
    Core t := by
  cases s
  cases t
  dsimp only at hBlock hPc hControl
  subst hBlock hPc hControl
  rcases h with ⟨⟨h₁, h₂, h₃, h₄, h₅, h₆, h₇, h₈, h₉, h₁₀,
    h₁₁, h₁₂⟩, hBlocks, hLinks, hChildren⟩
  exact ⟨⟨h₁, h₂, h₃, h₄, h₅, h₆, h₇, h₈, h₉, h₁₀, h₁₁, h₁₂⟩,
    hBlocks, hLinks, hChildren⟩

/-
  The positions when the control frame moves on and changes
  nothing that it says about iterations.
-/
theorem Positions.of_control
    (h : Positions s)
    (hPc : t.pc = s.pc)
    (hCur : t.cur = s.cur)
    (hFull :
      t.control.hasFullFrame = s.control.hasFullFrame)
    (hAtt :
      t.control.pc.attached = s.control.pc.attached)
    (hAhead : t.control.pc.ahead = s.control.pc.ahead)
    (hChild :
      ∀ b, t.control.pc = .child b →
        ∃ b', s.control.pc = .child b')
    (hPopped : t.control.pc = .popped ↔
      s.control.pc = .popped)
    (hPassing :
      t.control.pc = .passing → s.Freed (s.cur + 1 - K)) :
    Positions t := by
  have hAttached : t.attachedAt = s.attachedAt := by
    funext j
    unfold attachedAt
    rw [hAtt, hCur]
  have hFreed : t.Freed = s.Freed := by
    funext j
    unfold Freed rightFreed
    rw [hPc]
  constructor
  · exact h.ring
  · rw [hCur]
    exact h.curPos
  · rw [hPc]
    exact h.before
  · rw [hPc, hCur]
    exact h.after
  · rw [hPc, hCur]
    exact h.started
  · rw [hPc, hCur, hAhead]
    exact h.current
  · intro b hB
    rcases hChild b hB with ⟨b', hOld⟩
    rw [hPc, hCur]
    exact h.child b' hOld
  · rw [hPc, hCur, hPopped]
    exact h.popped
  · rw [hPc, hCur, hPopped]
    exact h.exiting
  · rw [hPc, hCur, hFull, hAttached]
    exact h.unstolen
  · rw [hCur, hFreed]
    exact h.window
  · rw [hCur, hFreed]
    exact hPassing

/- So does the core. -/
theorem Core.of_control
    (h : Core s)
    (hPos : Positions t)
    (hBlock : t.block = s.block)
    (hPc : t.pc = s.pc)
    (hCur : t.cur = s.cur)
    (hChildren : t.control.children = s.control.children)
    (hAtt :
      t.control.pc.attached = s.control.pc.attached)
    (hThr :
      t.control.pc.throttled = s.control.pc.throttled) :
    Core t := by
  have hAttached : t.attachedAt = s.attachedAt := by
    funext j
    unfold attachedAt
    rw [hAtt, hCur]
  have hThrottled : t.throttledAt = s.throttledAt := by
    funext j
    unfold throttledAt
    rw [hThr, hCur]
  constructor
  · exact hPos
  · intro j hJ
    have hRing : s.InRing j := by
      unfold InRing at hJ ⊢
      rw [← hCur]
      exact hJ
    unfold rightFreed blk
    rw [hPc, hBlock, hAttached, hThrottled]
    exact h.blocks j hRing
  · unfold blk
    rw [hPc, hBlock]
    exact h.links
  · rw [hChildren, hPc, hAttached]
    exact h.children

theorem TaskOk.of_idle
    {pc : ℤ → IterPc} {attached : ℤ → Bool}
    {cpc : ControlPc} :
    TaskOk pc attached cpc .idle := by
  constructor <;> simp

theorem TaskOk.of_nextControl
    {pc : ℤ → IterPc} {attached : ℤ → Bool}
    {cpc : ControlPc}
    (hCpc :
      cpc = .continuation ∨ cpc = .passing ∨ cpc = .synced) :
    TaskOk pc attached cpc .nextControl := by
  constructor <;> simp [hCpc]

/- The flags of a worker with an empty deque. -/
theorem FlagOk.of_noParent
    {pc : ℤ → IterPc} {cur : ℤ} {cpc : ControlPc}
    {freed : Prop} {v : Worker P R}
    (hNone : v.parentResume = .noParent)
    (hOnTop :
      ((∃ i, v.task = .iter i) ∨
          ∃ i r, v.task = .runtime i r) →
        v.iterFfOnTop = true)
    (hOffTop : v.task = .control → v.iterFfOnTop = false) :
    FlagOk pc cur cpc freed v := by
  constructor
  · simp [hNone]
  · simp [hNone]
  · simp [hNone]
  · simp [hNone]
  · intro _
    exact hNone
  · exact hOnTop
  · exact hOffTop

variable [DecidableEq W]

/- Only worker `w` changes. -/
theorem Inv.reassign
    {w : W} {v : Worker P R}
    (h : Inv s)
    (hIters :
      ∀ j ∈ v.task.iters, ∀ w', w' ≠ w →
        ¬ s.HoldsIter w' j)
    (hControl :
      v.HoldsControl → ∀ w', w' ≠ w → ¬ s.HoldsControl w')
    (hTask :
      TaskOk s.pc s.attachedAt s.control.pc v.task)
    (hFlag :
      FlagOk s.pc s.cur s.control.pc
        (s.Freed (s.cur + 1 - K)) v)
    (hResumes :
      v.parentResume = .throttleSuspend ↔ s.Resumes w)
    (hSetBy :
      s.Resumes w → v.flagSetBy = (s.worker w).flagSetBy)
    (hExecuting :
      v.task = .control →
        s.control.resumeFlags = .normalCilk)
    (hHanded :
      v.task = .nextControl → s.control.pc = .passing →
        s.control.resumeFlags = .resumingControl)
    (hWaiting :
      v.task = .nextControl → s.control.pc = .synced →
        s.control.joinCounter = 1 ∧
          s.control.children = ∅) :
    Inv (s.setWorker w v) := by
  constructor
  · exact h.core.of_same rfl rfl rfl
  · exact h.tasks.reassign rfl (fun _ _ _ _ => ⟨rfl, rfl⟩)
      (fun _ _ _ => rfl) hTask hIters hControl
  · apply h.flags.reassign (t := s.setWorker w v) rfl
      (fun _ _ _ _ => rfl) (fun _ hJ => hJ) id rfl hFlag _
      hExecuting hHanded hWaiting
    intro hThrottle w' hNe hOther
    exact hNe (h.flags.resumesUnique w' w hOther
      (hResumes.mp hThrottle))
  · apply h.continues.keep (t := s.setWorker w v) rfl rfl
      rfl rfl id
    intro w' hW
    unfold Resumes
    rw [setWorker_worker, Function.update_apply]
    split
    · rename_i hEq
      rw [hEq] at hW ⊢
      exact ⟨hResumes.mpr hW, hSetBy hW⟩
    · exact ⟨hW, rfl⟩

/-
  What the control frame says about itself, and about the one
  worker that may have it.
-/
structure ControlOk
    (c : ControlFrame W P R) (task : Task) : Prop where
  suspended :
    c.resumeFlags = .suspendedControl ↔ c.pc = .suspended
  resuming :
    c.resumeFlags = .resumingControl → c.pc = .passing
  normal :
    c.resumeFlags = .normalCilk ∨
      c.resumeFlags = .resumingControl ∨
      c.resumeFlags = .suspendedControl
  executing :
    task = .control → c.resumeFlags = .normalCilk
  handed :
    task = .nextControl → c.pc = .passing →
      c.resumeFlags = .resumingControl
  running :
    c.pc ≠ .synced → c.joinCounter = c.children.card + 1
  waiting :
    c.pc = .synced →
      (c.joinCounter = c.children.card ∧
        task ≠ .nextControl) ∨
      (c.joinCounter = 1 ∧ c.children = ∅)

/-
  The control frame changes, and with it the worker `w`,
  which is the only one that may have it.
-/
theorem Inv.of_holder
    {w : W} {v : Worker P R}
    (h : Inv s)
    (hCore : Core t)
    (hWorker : t.worker = Function.update s.worker w v)
    (hPc : ∀ w' j, w' ≠ w → s.HoldsIter w' j →
      t.pc j = s.pc j ∧ t.attachedAt j = s.attachedAt j)
    (hIters :
      ∀ j ∈ v.task.iters, ∀ w', w' ≠ w →
        ¬ s.HoldsIter w' j)
    (hTask :
      TaskOk t.pc t.attachedAt t.control.pc v.task)
    (hHeld : ∀ w', w' ≠ w → ¬ s.HoldsControl w')
    (hResumes : ∀ w', w' ≠ w → ¬ s.Resumes w')
    (hFlag :
      FlagOk t.pc t.cur t.control.pc
        (t.Freed (t.cur + 1 - K)) v)
    (hControl : ControlOk t.control v.task)
    (hContinues : Continues t) :
    Inv t := by
  have hSelf : t.worker w = v := by
    rw [hWorker, Function.update_self]
  have hOther : ∀ w', w' ≠ w →
      t.worker w' = s.worker w' := by
    intro w' hNe
    rw [hWorker, Function.update_of_ne hNe]
  have hNone : ∀ w', w' ≠ w →
      (s.worker w').parentResume = .noParent := by
    intro w' hNe
    cases hParent : (s.worker w').parentResume with
    | noParent => rfl
    | selfSteal =>
        exact absurd (Or.inr (Or.inr hParent)) (hHeld w' hNe)
    | throttleSuspend => exact absurd hParent (hResumes w' hNe)
  refine ⟨hCore, ?_, ?_, hContinues⟩
  · apply h.tasks.reassign hWorker hPc _ hTask hIters
    · intro _
      exact hHeld
    · intro w' hNe hHolds
      exact absurd hHolds (hHeld w' hNe)
  · constructor
    · intro w'
      by_cases hEq : w' = w
      · rw [hEq, hSelf]
        exact hFlag
      · rw [hOther w' hEq]
        have hOk := h.flags.flag w'
        exact FlagOk.of_noParent (hNone w' hEq) hOk.onTop
          hOk.offTop
    · intro w₁ w₂ h₁ h₂
      have hOnly : ∀ w', t.Resumes w' → w' = w := by
        intro w' hW
        by_contra hNe
        unfold Resumes at hW
        rw [hOther w' hNe] at hW
        exact hResumes w' hNe hW
      rw [hOnly w₁ h₁, hOnly w₂ h₂]
    · exact hControl.suspended
    · exact hControl.resuming
    · exact hControl.normal
    · intro w' hTask'
      by_cases hEq : w' = w
      · rw [hEq, hSelf] at hTask'
        exact hControl.executing hTask'
      · rw [hOther w' hEq] at hTask'
        exact absurd (Or.inl hTask') (hHeld w' hEq)
    · intro w' hTask'
      by_cases hEq : w' = w
      · rw [hEq, hSelf] at hTask'
        exact hControl.handed hTask'
      · rw [hOther w' hEq] at hTask'
        exact absurd (Or.inr (Or.inl hTask')) (hHeld w' hEq)
    · exact hControl.running
    · intro hSynced
      rcases hControl.waiting hSynced with hCase | hCase
      · left
        refine ⟨hCase.1, ?_⟩
        intro w'
        by_cases hEq : w' = w
        · rw [hEq, hSelf]
          exact hCase.2
        · rw [hOther w' hEq]
          intro hTask'
          exact hHeld w' hEq (Or.inr (Or.inl hTask'))
      · exact Or.inr hCase

/- A worker gets an iteration that no other worker holds. -/
theorem Inv.giveIter
    {w : W} {j : ℤ} {v : Worker P R}
    (h : Inv s)
    (hPlace : (s.pc j).place = .queued)
    (hFree : ∀ w', w' ≠ w → ¬ s.HoldsIter w' j)
    (hV : v.task = .nextIter j)
    (hParent :
      v.parentResume = (s.worker w).parentResume ∧
        v.flagSetBy = (s.worker w).flagSetBy)
    (hSelf :
      (s.worker w).parentResume = .selfSteal → s.cur = j)
    (hMoved :
      (s.worker w).parentResume = .throttleSuspend →
        (s.pc (j - 1)).moved = true) :
    Inv (s.setWorker w v) := by
  have hFlag := h.flags.flag w
  apply h.reassign
  · rw [hV]
    simpa [Task.iters] using hFree
  · intro hHolds
    apply h.tasks.others_control
    unfold Worker.HoldsControl at hHolds
    rw [hV, hParent.1] at hHolds
    simp only [reduceCtorEq, false_or] at hHolds
    exact Or.inr (Or.inr hHolds)
  · rw [hV]
    exact TaskOk.of_nextIter hPlace
  · apply FlagOk.of_nextIter hV
    · rw [hParent.1]
      intro hFlag'
      exact ⟨(hFlag.selfSteal hFlag').1, hSelf hFlag'⟩
    · rw [hParent.1]
      exact hFlag.throttleSuspend
    · rw [hParent.1]
      exact hMoved
  · rw [hParent.1]
    rfl
  · intro _
    exact hParent.2
  · simp [hV]
  · simp [hV]
  · simp [hV]

/- A worker gives up what it has, and its deque is empty. -/
theorem Inv.release
    {w : W} {v : Worker P R}
    (h : Inv s)
    (hV : v.task = .idle)
    (hNone : v.parentResume = .noParent)
    (hResumes : ¬ s.Resumes w) :
    Inv (s.setWorker w v) := by
  apply h.reassign
  · simp [hV, Task.iters]
  · simp [Worker.HoldsControl, hV, hNone]
  · rw [hV]
    exact TaskOk.of_idle
  · exact FlagOk.of_noParent hNone (by simp [hV])
      (by simp [hV])
  · simp [hNone, hResumes]
  · intro hW
    exact absurd hW hResumes
  · simp [hV]
  · simp [hV]
  · simp [hV]

/- The control frame, which nobody has, goes to a worker. -/
theorem Inv.handControl
    {w : W}
    (h : Inv s)
    (hNone : (s.worker w).parentResume = .noParent)
    (hFree : ∀ w', w' ≠ w → ¬ s.HoldsControl w')
    (hCpc :
      s.control.pc = .continuation ∨
        s.control.pc = .passing ∧
          s.control.resumeFlags = .resumingControl ∨
        s.control.pc = .synced ∧
          s.control.joinCounter = 1 ∧
          s.control.children = ∅) :
    Inv (s.handControl w) := by
  have hHand : Inv (s.setWorker w
      { s.worker w with task := .nextControl }) := by
    apply h.reassign
    · simp [Task.iters]
    · intro _
      exact hFree
    · apply TaskOk.of_nextControl
      rcases hCpc with hCase | hCase | hCase
      · exact Or.inl hCase
      · exact Or.inr (Or.inl hCase.1)
      · exact Or.inr (Or.inr hCase.1)
    · exact FlagOk.of_noParent hNone (by simp) (by simp)
    · rfl
    · intro _
      rfl
    · simp
    · intro _ hPassing
      rw [hPassing] at hCpc
      simpa using hCpc
    · intro _ hSynced
      rw [hSynced] at hCpc
      simpa using hCpc
  apply SameParts.inv _ hHand
  constructor <;> intros <;> rfl

------------------------------------------------------------
-- The Parent on a Deque
------------------------------------------------------------

omit [DecidableEq W] in
/- Nobody has the control frame while it is suspended. -/
theorem Inv.not_holdsControl
    (h : Inv s)
    (hCpc : s.control.pc = .suspended) (w : W) :
    ¬ s.HoldsControl w := by
  rintro (hTask | hTask | hSelf)
  · exact ((h.tasks.task w).control hTask).1 hCpc
  · have hNext := (h.tasks.task w).nextControl hTask
    simp [hCpc] at hNext
  · have hOld := ((h.flags.flag w).selfSteal hSelf).1
    simp [hCpc] at hOld

/- The parent is taken from a worker that promoted it. -/
theorem Inv.takeSelf
    {w : W}
    (h : Inv s)
    (hFlag : (s.worker w).parentResume = .selfSteal) :
    Inv (s.setWorker w
        { s.worker w with parentResume := .noParent }) ∧
      ∀ w', w' ≠ w → ¬ s.HoldsControl w' := by
  have hOk := h.flags.flag w
  constructor
  · apply h.reassign
    · intro j hJ
      exact h.tasks.others hJ
    · rintro (hTask | hTask | hSelf)
      · have hOld := hOk.noParent (Or.inr (Or.inl hTask))
        simp [hFlag] at hOld
      · have hOld := hOk.noParent (Or.inr (Or.inr hTask))
        simp [hFlag] at hOld
      · simp at hSelf
    · exact h.tasks.task w
    · exact FlagOk.of_noParent rfl hOk.onTop hOk.offTop
    · simp [Resumes, hFlag]
    · simp [Resumes, hFlag]
    · exact h.flags.executing w
    · exact h.flags.handed w
    · intro hTask
      have hOld := hOk.noParent (Or.inr (Or.inr hTask))
      simp [hFlag] at hOld
  · exact h.tasks.others_control (Or.inr (Or.inr hFlag))

/-
  The suspended parent is taken from the worker that marked
  it, and is on its way past the throttle.
-/
theorem Inv.takeThrottle
    {w : W}
    (h : Inv s)
    (hFlag : (s.worker w).parentResume = .throttleSuspend) :
    Inv ((s.setWorker w
      { s.worker w with
        parentResume := .noParent }).setControl
      { s.control with
        resumeFlags := .resumingControl
        pc := .passing
        continuedBy := (s.worker w).flagSetBy }) := by
  have hOk := h.flags.flag w
  rcases hOk.throttleSuspend hFlag with ⟨hCpc, hFreed⟩
  have hHeld := h.not_holdsControl hCpc
  have hNotSynced : s.control.pc ≠ .synced := by simp [hCpc]
  apply h.of_holder (w := w) _ rfl
  · intro w' j _ _
    exact ⟨rfl, by simp [attachedAt, hCpc,
      ControlPc.attached]⟩
  · intro j hJ
    exact h.tasks.others hJ
  · apply (h.tasks.task w).congr
    · intro j _
      exact ⟨rfl, by simp [attachedAt, hCpc,
        ControlPc.attached]⟩
    · intro hTask
      exfalso
      rcases hTask with hTask | hTask
      · exact hHeld w (Or.inl hTask)
      · exact hHeld w (Or.inr (Or.inl hTask))
  · intro w' _
    exact hHeld w'
  · intro w' hNe hOther
    exact hNe (h.flags.resumesUnique w' w hOther hFlag)
  · exact FlagOk.of_noParent rfl hOk.onTop hOk.offTop
  · constructor
    · simp
    · simp
    · simp
    · intro hTask
      exact absurd (Or.inl hTask) (hHeld w)
    · simp
    · intro _
      exact h.flags.running hNotSynced
    · simp
  · constructor
    · simp
    · intro _
      rcases h.continues.suspended hCpc hFreed with
        ⟨w', hResumes, hEq⟩
      rw [h.flags.resumesUnique w' w hResumes hFlag] at hEq
      exact hEq
  · apply h.core.of_control <;> try rfl
    · apply h.core.positions.of_control <;> try rfl
      · simp [hCpc, ControlPc.attached]
      · simp [hCpc, ControlPc.ahead]
      · simp
      · simp [hCpc]
      · intro _
        exact hFreed
    · simp [hCpc, ControlPc.attached]
    · simp [hCpc, ControlPc.throttled]

omit [DecidableEq W] in
/- The control frame that runs has no resume flags. -/
theorem Flags.normal_of_continuation
    (h : Flags s)
    (hCpc : s.control.pc = .continuation) :
    s.control.resumeFlags = .normalCilk := by
  rcases h.normal with hCase | hCase | hCase
  · exact hCase
  · have hPassing := h.resuming hCase
    simp [hCpc] at hPassing
  · have hSuspended := h.suspended.mp hCase
    simp [hCpc] at hSuspended

/-
  `piper_try_remove_implicit_parent` where a flag is set: it
  succeeds, and nobody has the control frame then.
-/
theorem takeParent_spec
    {w : W}
    (h : Inv s)
    (hFlag : (s.worker w).parentResume ≠ .noParent) :
    ∃ t, s.tryRemoveImplicitParent w = (t, true) ∧ Inv t ∧
      t.failure = s.failure ∧
      t.worker = Function.update s.worker w
        { s.worker w with parentResume := .noParent } ∧
      t.pc = s.pc ∧ t.attachedAt = s.attachedAt ∧
      (∀ w', ¬ t.HoldsControl w') ∧
      (t.control.pc = .continuation ∨
        t.control.pc = .passing ∧
          t.control.resumeFlags = .resumingControl) := by
  have hOk := h.flags.flag w
  unfold tryRemoveImplicitParent
  dsimp only
  cases hParent : (s.worker w).parentResume with
  | noParent => exact absurd hParent hFlag
  | selfSteal =>
      have hCpc := (hOk.selfSteal hParent).1
      have hFlags := h.flags.normal_of_continuation hCpc
      rcases h.takeSelf hParent with ⟨hInv, hFree⟩
      dsimp only
      rw [setWorker_control, check_eq hFlags]
      refine ⟨_, rfl, hInv, rfl, rfl, rfl, rfl, ?_, Or.inl hCpc⟩
      intro w'
      unfold HoldsControl
      rw [setWorker_worker, Function.update_apply]
      split
      · rintro (hTask | hTask | hSelf)
        · have hOld := hOk.noParent (Or.inr (Or.inl hTask))
          simp [hParent] at hOld
        · have hOld := hOk.noParent (Or.inr (Or.inr hTask))
          simp [hParent] at hOld
        · simp at hSelf
      · rename_i hNe
        exact hFree w' hNe
  | throttleSuspend =>
      have hCpc := (hOk.throttleSuspend hParent).1
      have hFlags := h.flags.suspended.mpr hCpc
      rw [setWorker_control, if_pos hFlags]
      refine ⟨_, rfl, h.takeThrottle hParent, rfl, rfl, rfl,
        ?_, ?_, Or.inr ⟨rfl, rfl⟩⟩
      · funext j
        simp [attachedAt, hCpc, ControlPc.attached]
      · intro w'
        have hHeld := h.not_holdsControl hCpc w'
        unfold HoldsControl at hHeld ⊢
        rw [setControl_worker, setWorker_worker,
          Function.update_apply]
        split
        · rename_i hEq
          rw [hEq] at hHeld
          rintro (hTask | hTask | hSelf)
          · exact hHeld (Or.inl hTask)
          · exact hHeld (Or.inr (Or.inl hTask))
          · simp at hSelf
        · exact hHeld

end Piper

end PRacer
