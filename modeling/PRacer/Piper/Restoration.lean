import PRacer.Piper.Footprint

/-
  Who has found its next frame by stealing, and what that does
  to the pedigree of a control frame that was suspended.

  Main declarations:
    * `HandsOver`, `StealsSuspended`
    * `Notes`, `Notes.exec`
    * `setupControl_restores_iff`
    * `handsOver_iff_unstolen`
-/

------------------------------------------------------------
-- Notes about Steals
------------------------------------------------------------

namespace PRacer

namespace Piper

open Foundations
open PipeState

variable {W P R : Type} [DecidableEq W] {K : ℕ}
variable {s t : PipeState W P R K}

@[simp] theorem update_workStolen
    {f : W → Worker P R} {u : W} {v : Worker P R}
    (hSame : v.workStolen = (f u).workStolen) (w : W) :
    (Function.update f u v w).workStolen =
      (f w).workStolen := by
  by_cases hW : w = u
  · rw [hW, Function.update_self, hSame]
  · rw [Function.update_of_ne hW]

@[simp] theorem tryFree_workStolen
    (s : PipeState W P R K) (x : ZMod K) (w : Option W)
    (q : Party) (u : W) :
    ((s.tryFreeIterDataBlock x w q).worker u).workStolen =
      (s.worker u).workStolen := by
  unfold tryFreeIterDataBlock
  dsimp only
  split
  · cases w with
    | none => simp
    | some w =>
        dsimp only
        split <;> simp
  · rfl

@[simp] theorem tryRemove_workStolen
    (s : PipeState W P R K) (w u : W) :
    ((s.tryRemoveImplicitParent w).1.worker u).workStolen =
      (s.worker u).workStolen := by
  unfold tryRemoveImplicitParent
  dsimp only
  split
  · simp
  · simp
  · split <;> simp

@[simp] theorem install_workStolen
    (s : PipeState W P R K) (u v w : W) :
    ((s.installIterationFrame u v).worker w).workStolen =
      (s.worker w).workStolen := by
  simp [installIterationFrame]

/- The steps that write the note, or act on it. -/
def Action.notes : Action W P R → Bool
| .steal _ _ => true
| .stealParent _ _ _ => true
| .stealNext _ _ _ => true
| .setupControl _ => true
| .iterSetup _ _ _ => true
| _ => false

theorem exec_workStolen
    {a : Action W P R}
    (hPlain : a.notes = false) (w : W) :
    ((s.exec a).worker w).workStolen =
      (s.worker w).workStolen := by
  cases a with
  | endBody u j =>
      simp only [PipeState.exec, finalStageWait]
      split <;> simp
  | testCached u j f =>
      simp only [PipeState.exec, testCachedStage]
      split <;> simp
  | testLeft u j f =>
      simp only [PipeState.exec, testLeftStage]
      split <;> simp
  | testStall u j f =>
      simp only [PipeState.exec, stageWaitTest]
      split <;> simp
  | promote u j f => exact install_workStolen s u u w
  | switch u j f => simp [PipeState.exec, suspendPipeIterFrame]
  | trySuspend u j f =>
      simp only [PipeState.exec, trySuspendAtStageWait]
      split <;> simp
  | resumeOnSuspend u j f =>
      simp only [PipeState.exec, tryResumeNextIterOnSuspend]
      split
      · simp
      · split <;> simp [PipeState.handControl]
  | finishStage u j =>
      simp only [PipeState.exec, finishFinalUserStage]
      split <;> simp
  | enterFinish u j =>
      simp [PipeState.exec, PipeState.enterFinish]
  | pipeIterFinish u j =>
      simp only [PipeState.exec, PipeState.pipeIterFinish]
      split <;> simp [PipeState.handControl]
  | finishResumeNext u j =>
      simp [PipeState.exec, PipeState.finishResumeNext]
  | finishGetNext u j r =>
      simp only [PipeState.exec, PipeState.finishGetNext]
      split
      · simp
      · split <;> simp [PipeState.handControl]
  | throttle u =>
      simp only [PipeState.exec, PipeState.throttle]
      split <;> simp
  | suspendControl u =>
      simp only [PipeState.exec, suspendControlFrame,
        trySuspendControlFrameAtThrottle]
      split <;>
        simp [saveWorkerStateForSuspendControl,
          PipeState.handControl]
  | sync u =>
      simp only [PipeState.exec, PipeState.sync]
      split <;> simp
  | work u p r => simp [PipeState.exec, PipeState.work]
  | steal u v => cases hPlain
  | stealParent u v j => cases hPlain
  | stealNext u v j => cases hPlain
  | setupControl u => cases hPlain
  | iterSetup u j f => cases hPlain
  | _ =>
      simp [PipeState.exec, PipeState.popControl,
        PipeState.exitMove, moveIterStageToDone,
        PipeState.exitFreeLeft, PipeState.exitFreeOwn,
        PipeState.finishFreeLeft, PipeState.finishMove,
        PipeState.finishFreeOwn, initIterFrame,
        PipeState.passThrottle]

omit [DecidableEq W] in
/- A worker with a frame in its queue does nothing else. -/
theorem enabled_not_next
    {a : Action W P R}
    (hEn : s.enabled a = true)
    (hPlain : a.notes = false)
    (hWork : ∀ w p r, a ≠ .work w p r) :
    (s.worker a.worker).task ≠ .nextControl ∧
      ∀ i, (s.worker a.worker).task ≠ .nextIter i := by
  have hExecutes : ∀ w i, s.Executes w i →
      (s.worker w).task ≠ .nextControl ∧
        ∀ j, (s.worker w).task ≠ .nextIter j := by
    rintro w i (hTask | ⟨hTask, -⟩) <;> simp [hTask]
  cases a with
  | work w p r => exact absurd rfl (hWork w p r)
  | steal u v => cases hPlain
  | stealParent u v j => cases hPlain
  | stealNext u v j => cases hPlain
  | setupControl u => cases hPlain
  | iterSetup u j f => cases hPlain
  | stage w i v =>
      simp only [enabled, decide_eq_true_eq] at hEn
      exact hExecutes w i hEn.1
  | stageWait w i v =>
      simp only [enabled, decide_eq_true_eq] at hEn
      exact hExecutes w i hEn.1
  | endBody w i =>
      simp only [enabled, decide_eq_true_eq] at hEn
      exact hExecutes w i hEn.1
  | testCached w i f =>
      simp only [enabled, decide_eq_true_eq] at hEn
      exact hExecutes w i hEn.1
  | testLeft w i f =>
      simp only [enabled, decide_eq_true_eq] at hEn
      exact hExecutes w i hEn.1
  | testStall w i f =>
      simp only [enabled, decide_eq_true_eq] at hEn
      exact hExecutes w i hEn.1
  | pause w i f =>
      simp only [enabled, decide_eq_true_eq] at hEn
      exact hExecutes w i hEn.1
  | finishStage w i =>
      simp only [enabled, decide_eq_true_eq] at hEn
      exact hExecutes w i hEn.1
  | _ =>
      simp only [enabled, decide_eq_true_eq] at hEn
      simp [Action.worker, hEn.1]

/- Only a suspended frame gets other flags from a deque. -/
theorem tryRemove_flags_normal
    (v : W)
    (hNormal : s.control.resumeFlags = .normalCilk) :
    (s.tryRemoveImplicitParent v).1.control.resumeFlags =
      .normalCilk := by
  unfold tryRemoveImplicitParent
  dsimp only
  split
  · exact hNormal
  · simpa using hNormal
  · split
    · rename_i hFlags
      rw [setWorker_control, hNormal] at hFlags
      cases hFlags
    · exact hNormal

/- The flags stay normal while another worker has the frame. -/
theorem exec_flags_normal
    {a : Action W P R} {w : W}
    (h : Inv s)
    (hEn : s.enabled a = true)
    (hPlain : a.notes = false)
    (hNe : w ≠ a.worker)
    (hNext : (s.worker w).task = .nextControl)
    (hNormal : s.control.resumeFlags = .normalCilk) :
    (s.exec a).control.resumeFlags = .normalCilk := by
  have hAlone : (s.worker a.worker).task ≠ .control := by
    intro hTask
    exact hNe (h.tasks.controlUnique w a.worker
      (Or.inr (Or.inl hNext)) (Or.inl hTask))
  cases hOther : a.savesOrTakes with
  | false =>
      have hSaved := exec_saved (s := s) hOther
      simp only [ControlFrame.saved, Prod.mk.injEq] at hSaved
      rw [hSaved.2.2]
      exact hNormal
  | true =>
      cases a with
      | initIter u =>
          simp only [enabled, decide_eq_true_eq] at hEn
          exact absurd hEn.1 hAlone
      | suspendControl u =>
          simp only [enabled, decide_eq_true_eq] at hEn
          exact absurd hEn.1 hAlone
      | sync u =>
          simp only [enabled, decide_eq_true_eq] at hEn
          exact absurd hEn.1 hAlone
      | finishGetNext u i r =>
          simp only [PipeState.exec, PipeState.finishGetNext]
          split
          · exact hNormal
          · have hTry := tryRemove_flags_normal
              (s := (s.setWorker u
                { s.worker u with
                  iterFfOnTop := false
                  task := .idle }).setPc i .finished)
              u hNormal
            split
            · exact hTry
            · simpa using hTry
      | setupControl u => cases hPlain
      | stealParent u v j => cases hPlain
      | _ => cases hOther

------------------------------------------------------------
-- Steals of a Suspended Frame
------------------------------------------------------------

/-
  A thief takes a parent whose control frame was suspended at
  the throttle.
-/
def StealsSuspended
    (s : PipeState W P R K) : Action W P R → Prop
| .stealParent _ v _ =>
    (s.worker v).parentResume = .throttleSuspend
| _ => False

/-
  A worker that notes a steal has the stolen frame in its
  queue, and that is no control frame that resumes.
-/
def Notes (s : PipeState W P R K) : Prop :=
  ∀ w, (s.worker w).workStolen = true →
    (s.worker w).task = .nextControl ∧
        s.control.resumeFlags = .normalCilk ∨
      ∃ i, (s.worker w).task = .nextIter i

omit [DecidableEq W] in
theorem Notes.not_control
    (h : Notes s) {w : W}
    (hNote : (s.worker w).workStolen = true) :
    (s.worker w).task ≠ .control := by
  rcases h w hNote with ⟨hTask, -⟩ | ⟨i, hTask⟩ <;>
    simp [hTask]

/- The worker of another step keeps its frame. -/
theorem Notes.of_other
    (h : Notes s) {a : Action W P R} {w : W}
    (hEn : s.enabled a = true)
    (hNe : w ≠ a.worker)
    (hNote : (s.worker w).workStolen = true)
    (hFlags : (s.worker w).task = .nextControl →
      s.control.resumeFlags = .normalCilk →
        (s.exec a).control.resumeFlags = .normalCilk) :
    ((s.exec a).worker w).task = .nextControl ∧
        (s.exec a).control.resumeFlags = .normalCilk ∨
      ∃ i, ((s.exec a).worker w).task = .nextIter i := by
  rw [exec_task hEn hNe (h.not_control hNote)]
  rcases h w hNote with ⟨hTask, hNormal⟩ | hIter
  · exact Or.inl ⟨hTask, hFlags hTask hNormal⟩
  · exact Or.inr hIter

omit [DecidableEq W] in
/- Two workers do not both have the control frame. -/
theorem Inv.not_nextControl
    (h : Inv s) {u w : W}
    (hNe : w ≠ u)
    (hTask : (s.worker u).task = .nextControl) :
    (s.worker w).task ≠ .nextControl := by
  intro hNext
  exact hNe (h.tasks.controlUnique w u
    (Or.inr (Or.inl hNext)) (Or.inr (Or.inl hTask)))

/- A thief of the continuation. -/
theorem Notes.steal
    (h : Notes s) (hInv : Inv s) {u v : W}
    (hEn : s.enabled (.steal u v) = true) :
    Notes (s.exec (.steal u v)) := by
  have hActs := hEn
  simp only [enabled, decide_eq_true_eq] at hActs
  rcases hInv.of_task_control hActs.2.1 with
    ⟨-, -, hNormal, -⟩
  have hFlags :
      (s.exec (.steal u v)).control.resumeFlags =
        .normalCilk := by
    have hSaved := install_saved s u v
    simp only [ControlFrame.saved, Prod.mk.injEq] at hSaved
    exact hSaved.2.2.trans hNormal
  intro w hNote
  by_cases hW : w = u
  · left
    refine ⟨?_, hFlags⟩
    rw [hW]
    simp [PipeState.exec, stealControl]
  · apply h.of_other hEn hW _ fun _ _ => hFlags
    simpa [PipeState.exec, stealControl, hW] using hNote

/- A thief of the parent, which was not suspended. -/
theorem Notes.stealParent
    (h : Notes s) (hInv : Inv s) {u v : W} {i : ℤ}
    (hEn : s.enabled (.stealParent u v i) = true)
    (hMeets : ¬ StealsSuspended s (.stealParent u v i)) :
    Notes (s.exec (.stealParent u v i)) := by
  have hActs := hEn
  simp only [enabled, decide_eq_true_eq] at hActs
  have hSelf : (s.worker v).parentResume = .selfSteal := by
    cases hParent : (s.worker v).parentResume with
    | noParent => exact absurd hParent hActs.2.2
    | selfSteal => rfl
    | throttleSuspend => exact absurd hParent hMeets
  have hCpc := ((hInv.flags.flag v).selfSteal hSelf).1
  have hNormal := hInv.flags.normal_of_continuation hCpc
  have hTry := tryRemove_flags_normal v hNormal
  have hFlags :
      (s.exec (.stealParent u v i)).control.resumeFlags =
        .normalCilk := by
    simp only [PipeState.exec, PipeState.stealParent]
    split <;> exact hTry
  have hTakes : (s.tryRemoveImplicitParent v).2 = true := by
    simp [tryRemoveImplicitParent, hSelf]
  intro w hNote
  by_cases hW : w = u
  · left
    refine ⟨?_, hFlags⟩
    rw [hW]
    simp [PipeState.exec, PipeState.stealParent, hTakes,
      PipeState.handControl]
  · apply h.of_other hEn hW _ fun _ _ => hFlags
    simpa [PipeState.exec, PipeState.stealParent, hTakes,
      PipeState.handControl, foundWork, hW] using hNote

/- A thief of the next iteration. -/
theorem Notes.stealNext
    (h : Notes s) {u v : W} {i : ℤ}
    (hEn : s.enabled (.stealNext u v i) = true) :
    Notes (s.exec (.stealNext u v i)) := by
  have hActs := hEn
  simp only [enabled, decide_eq_true_eq] at hActs
  have hFlags :
      (s.exec (.stealNext u v i)).control.resumeFlags =
        s.control.resumeFlags := by
    simp only [PipeState.exec, PipeState.stealNext]
    split <;> simp
  intro w hNote
  by_cases hW : w = u
  · subst hW
    right
    revert hNote
    simp only [PipeState.exec, PipeState.stealNext]
    split
    · rename_i j _
      intro _
      exact ⟨j, by simp⟩
    · rw [tryResume_worker]
      intro hNote
      rcases h w hNote with ⟨hTask, -⟩ | ⟨j, hTask⟩
      · rw [hActs.1] at hTask
        cases hTask
      · exact ⟨j, hTask⟩
  · apply h.of_other hEn hW _ fun _ hNormal =>
      hFlags.trans hNormal
    revert hNote
    simp only [PipeState.exec, PipeState.stealNext]
    split <;> simp [hW]

/- A worker that sets the control frame up drops the note. -/
theorem Notes.setupControl
    (h : Notes s) (hInv : Inv s) {u : W}
    (hEn : s.enabled (.setupControl u) = true) :
    Notes (s.exec (.setupControl u)) := by
  have hTask := hEn
  simp only [enabled, decide_eq_true_eq] at hTask
  intro w hNote
  by_cases hW : w = u
  · subst hW
    simp [PipeState.exec, PipeState.setupControl,
      setupForExecutionPedigree] at hNote
  · apply h.of_other hEn hW
    · rw [← setupControl_worker_of_ne s hW]
      exact hNote
    · intro hNext _
      exact absurd hNext (hInv.not_nextControl hW hTask)

/- So does one that sets an iteration up. -/
theorem Notes.iterSetup
    (h : Notes s) {u : W} {i : ℤ} {f : Bool}
    (hEn : s.enabled (.iterSetup u i f) = true) :
    Notes (s.exec (.iterSetup u i f)) := by
  intro w hNote
  by_cases hW : w = u
  · subst hW
    simp [PipeState.exec, PipeState.iterSetup] at hNote
  · apply h.of_other hEn hW
    · simpa [PipeState.exec, PipeState.iterSetup, hW]
        using hNote
    · intro _ hNormal
      simpa [PipeState.exec, PipeState.iterSetup]
        using hNormal

/- Every step that steals no suspended frame keeps the notes. -/
theorem Notes.exec
    (h : Notes s) (hInv : Inv s) {a : Action W P R}
    (hEn : s.enabled a = true)
    (hMeets : ¬ StealsSuspended s a) :
    Notes (s.exec a) := by
  cases hPlain : a.notes with
  | true =>
      cases a with
      | steal u v => exact h.steal hInv hEn
      | stealParent u v i =>
          exact h.stealParent hInv hEn hMeets
      | stealNext u v i => exact h.stealNext hEn
      | setupControl u => exact h.setupControl hInv hEn
      | iterSetup u i f => exact h.iterSetup hEn
      | _ => cases hPlain
  | false =>
      intro w hNote
      rw [exec_workStolen hPlain] at hNote
      by_cases hWork : ∃ u p r, a = .work u p r
      · rcases hWork with ⟨u, p, r, rfl⟩
        have hTask :
            ((s.work u p r).worker w).task =
              (s.worker w).task := by
          by_cases hW : w = u
          · rw [hW]
            simp [PipeState.work]
          · simp [PipeState.work, hW]
        simp only [PipeState.exec, hTask]
        exact h w hNote
      · have hNext := enabled_not_next hEn hPlain
          fun u p r hEq => hWork ⟨u, p, r, hEq⟩
        have hNe : w ≠ a.worker := by
          rintro rfl
          rcases h _ hNote with ⟨hTask, -⟩ | ⟨i, hTask⟩
          · exact hNext.1 hTask
          · exact hNext.2 i hTask
        exact h.of_other hEn hNe hNote
          (exec_flags_normal hInv hEn hPlain hNe)

------------------------------------------------------------
-- Every Run
------------------------------------------------------------

/-
  The frame gets the state back with which it was suspended,
  unless its worker notes a steal.
-/
theorem setupControl_restores_iff
    (h : Saved s) (w : W)
    (hFlags : s.control.resumeFlags = .resumingControl) :
    (((s.setupControl w).worker w).pedigree,
        ((s.setupControl w).worker w).reducerMap) =
      s.control.atSuspend ↔
      (s.worker w).workStolen = false := by
  rw [← h.kept (by simp [hFlags])]
  cases hNote : (s.worker w).workStolen with
  | false =>
      simp [PipeState.setupControl, restoreControl,
        setupForExecutionPedigree, hFlags, hNote]
  | true =>
      simp only [PipeState.setupControl, restoreControl,
        setupForExecutionPedigree, hFlags, hNote]
      -- The rank of the frame is not its own successor.
      simp [Pedigree.ext_iff]

/-
  What is promised of the control frame: the log shows each
  suspension followed by at most one worker that obtains the
  frame, with the flags of a frame that resumes, and by further
  ones only after it has left a running worker; a suspended
  frame is the latest event of the log; a worker that has
  obtained the frame finds the flags of the log and, if these
  say so, gets the saved state back; and only the worker's own
  promotion hands a parent to a worker that suspends an
  iteration.
-/
structure HandsOver (s : PipeState W P R K) : Prop where
  log : HandoffLog s.control.events
  once :
    ∀ later earlier,
      s.control.events = later ++ .suspended :: earlier →
        .suspended ∉ later →
          later = [] ∨
            ∃ rest w,
              later = rest ++ [.obtained w .resumingControl] ∧
                ∀ w' f, .obtained w' f ∈ rest →
                  f = .normalCilk
  latest :
    s.failure = none →
      s.control.resumeFlags = .suspendedControl →
        s.control.events.head? = some .suspended
  restores :
    ∀ w t, (pipeSystem W P R K).step s (.setupControl w) t →
      ∃ f earlier,
        s.control.events = .obtained w f :: earlier ∧
          s.control.resumeFlags = f ∧
          (f = .resumingControl →
            ((t.worker w).pedigree, (t.worker w).reducerMap) =
              s.control.atSuspend)
  promoted :
    ∀ w i f t,
      (pipeSystem W P R K).step s (.resumeOnSuspend w i f) t →
        (s.worker w).parentResume ≠ .noParent →
          (s.worker w).parentResume = .selfSteal

/- Where the notes are in order, all of it holds. -/
theorem Notes.handsOver
    (h : Notes s)
    (hK : 1 < K)
    (hReach : (pipeSystem W P R K).Reachable s) :
    HandsOver s := by
  have hLogged := logged_of_reachable hK hReach
  constructor
  · exact hLogged.log
  · intro later earlier hEvents hLater
    have hLog := hLogged.log
    rw [hEvents] at hLog
    exact hLog.after_suspension hLater
  · intro hRuns hFlags
    have hInv := inv_of_running hK hReach hRuns
    exact hLogged.suspended
      (hInv.flags.suspended.mp hFlags)
  · rintro w t ⟨-, hEn, rfl⟩
    simp only [enabled, decide_eq_true_eq] at hEn
    have hHead := hLogged.next w hEn
    cases hEvents : s.control.events with
    | nil =>
        rw [hEvents] at hHead
        cases hHead
    | cons e earlier =>
        rw [hEvents] at hHead
        refine ⟨_, earlier, ?_, rfl, ?_⟩
        · rw [Option.some.inj hHead]
        · intro hFlags
          have hSaved := (inv_of_reachable hK hReach).1
          refine (setupControl_restores_iff hSaved w
            hFlags).mpr ?_
          by_contra hNote
          rcases h w (Bool.eq_true_of_not_eq_false hNote) with
            ⟨-, hNormal⟩ | ⟨i, hTask⟩
          · rw [hFlags] at hNormal
            cases hNormal
          · rw [hEn] at hTask
            cases hTask
  · rintro w i f t ⟨hRuns, hEn, -⟩ hFlag
    simp only [enabled, decide_eq_true_eq] at hEn
    exact (inv_of_running hK hReach hRuns).selfSteal_of_marked
      hEn.1 hEn.2.1 hFlag

/- A stolen suspended frame goes on with another pedigree. -/
theorem not_handsOver
    {a : Action W P R}
    (hK : 1 < K)
    (hReach : (pipeSystem W P R K).Reachable s)
    (hStep : (pipeSystem W P R K).step s a t)
    (hSteals : StealsSuspended s a) :
    ¬ HandsOver t := by
  intro hHands
  have hSaved := (inv_of_reachable hK (hReach.step hStep)).1
  rcases hStep with ⟨hRuns, hEn, rfl⟩
  cases a with
  | stealParent u v i =>
      have hThrottle :
          (s.worker v).parentResume = .throttleSuspend :=
        hSteals
      have hInv := inv_of_running hK hReach hRuns
      have hCpc :=
        ((hInv.flags.flag v).throttleSuspend hThrottle).1
      have hSusp := hInv.flags.suspended.mpr hCpc
      have hExec : s.exec (.stealParent u v i) =
          (((s.tryRemoveImplicitParent v).1).foundWork
            u).handControl u := by
        simp [PipeState.exec, PipeState.stealParent,
          tryRemoveImplicitParent, hThrottle, hSusp]
      have hRunsT :
          (s.exec (.stealParent u v i)).failure = none := by
        rw [hExec]
        simp [tryRemoveImplicitParent, hThrottle, hSusp,
          PipeState.handControl, foundWork, hRuns]
      have hTaskT :
          ((s.exec (.stealParent u v i)).worker u).task =
            .nextControl := by
        rw [hExec]
        simp [PipeState.handControl]
      have hFlagsT :
          (s.exec (.stealParent u v i)).control.resumeFlags =
            .resumingControl := by
        rw [hExec]
        simp [tryRemoveImplicitParent, hThrottle, hSusp,
          PipeState.handControl]
      have hNoteT :
          ((s.exec (.stealParent u v i)).worker
            u).workStolen = true := by
        rw [hExec]
        simp [PipeState.handControl, foundWork]
      rcases hHands.restores u _
        ⟨hRunsT, by simp [enabled, hTaskT], rfl⟩ with
        ⟨f, earlier, -, hf, hRestores⟩
      have hBack := (setupControl_restores_iff hSaved u
        hFlagsT).mp (hRestores (hf.symm.trans hFlagsT))
      rw [hNoteT] at hBack
      cases hBack
  | _ => cases hSteals

/- Every label has one effect. -/
theorem pipeSystem_deterministic :
    (pipeSystem W P R K).Deterministic := by
  rintro s a t u ⟨-, -, rfl⟩ ⟨-, -, rfl⟩
  rfl

/-
  All of it holds in every state of a run exactly if no step
  of the run steals a control frame that was suspended.
-/
theorem handsOver_iff_unstolen
    (hK : 2 ≤ K)
    {s₀ : PipeState W P R K} {acts : List (Action W P R)}
    (hInit : (pipeSystem W P R K).init s₀)
    (hRun : (pipeSystem W P R K).Run s₀ acts s) :
    (∀ first t, first <+: acts →
        (pipeSystem W P R K).Run s₀ first t → HandsOver t) ↔
      ((pipeSystem W P R K).restrict
        fun s a => ¬ StealsSuspended s a).Run s₀ acts s := by
  refine hRun.holds_iff_restrict pipeSystem_deterministic
    ?_ ?_
  · intro acts s hMet
    have hNotes : (pipeSystem W P R K).Reachable s ∧
        Notes s := by
      induction hMet with
      | refl =>
          refine ⟨.of_init hInit, fun w hNote => ?_⟩
          rcases hInit with
            ⟨garbage, w₀, pedigree, reducerMap, rfl⟩
          cases hNote
      | tail _ hStep ih =>
          rcases ih with ⟨hReach, hNotes⟩
          refine ⟨hReach.step hStep.1, ?_⟩
          rcases hStep with ⟨⟨hRuns, hEn, rfl⟩, hMeets⟩
          exact hNotes.exec
            (inv_of_running hK hReach hRuns) hEn hMeets
    exact hNotes.2.handsOver hK hNotes.1
  · intro acts s a t hBefore hStep hSteals
    exact not_handsOver hK ⟨s₀, acts, hInit, hBefore⟩ hStep
      (not_not.mp hSteals)

/-
  The thief of the first continuation is suspended at the
  throttle, and the first iteration finishes.
-/
def throttledThief (v w : W) :
    List (Action W Unit Unit) :=
  throttledBehind v w 1 ++ obtainsParent v 1

/- Its worker obtains the suspended frame, with its state. -/
theorem handsOver_iff_unstolen_throttledThief :
    ((startState 2 2).replay
          (throttledThief 0 1)).control.events =
        [.obtained 0 .resumingControl, .suspended,
          .obtained 1 .normalCilk, .stolen] ∧
      HandsOver
        ((startState 2 2).replay (throttledThief 0 1)) := by
  have hRun :
      (pipeSystem (Fin 2) Unit Unit 2).Run (startState 2 2)
        (throttledThief 0 1)
        ((startState 2 2).replay (throttledThief 0 1)) :=
    run_replay (by decide)
  refine ⟨by decide, ?_⟩
  refine (handsOver_iff_unstolen le_rfl
    (init_startState 2 2) hRun).mpr ?_ _ _
      (List.prefix_refl _) hRun
  exact hRun.to_restrict fun s a ha => by
    fin_cases ha <;> exact id

/-
  With a ring of three blocks the control frame is suspended
  behind the second iteration, which waits as well.  The first
  one finishes, and its worker resumes the second one, with
  the suspended frame implicitly on its deque.  The first thief
  steals it there.
-/
def stolenParent (u v w : W) :
    List (Action W Unit Unit) :=
  [.initIter u, .stage u 1 4, .steal v u, .setupControl v,
    .throttle v, .passThrottle v, .initIter v, .stage v 2 4,
    .steal w v, .setupControl w, .throttle w,
    .suspendControl w, .endBody v 2, .testCached v 2 true,
    .testLeft v 2 true, .testStall v 2 true,
    .switch v 2 true, .trySuspend v 2 true,
    .resumeOnSuspend v 2 true, .endBody u 1,
    .testCached u 1 true, .testLeft u 1 true,
    .finishStage u 1, .enterFinish u 1, .pipeIterFinish u 1,
    .finishFreeLeft u 1, .finishMove u 1,
    .finishResumeNext u 1, .finishFreeOwn u 1 (some 2),
    .finishGetNext u 1 (some 2), .iterSetup u 2 true,
    .stealParent v u 2]

/-
  The worker goes on with rank 3, where rank 2 was saved, so
  it does not get the saved state back.
-/
theorem stolenParent_rank :
    (pipeSystem (Fin 3) Unit Unit 3).Reachable
        ((startState 3 3).replay (stolenParent 0 1 2)) ∧
      ((startState 3 3).replay
        (stolenParent 0 1 2)).control.resumeFlags =
          .resumingControl ∧
      ((startState 3 3).replay
        (stolenParent 0 1 2)).control.atSuspend.1.rank = 2 ∧
      ((((startState 3 3).replay
        (stolenParent 0 1 2)).setupControl 1).worker
          1).pedigree.rank = 3 ∧
      ¬ HandsOver
        ((startState 3 3).replay (stolenParent 0 1 2)) := by
  have hReach :
      (pipeSystem (Fin 3) Unit Unit 3).Reachable
        ((startState 3 3).replay (stolenParent 0 1 2)) :=
    reachable_replay (reachable_startState 3 3) (by decide)
  refine ⟨hReach, by decide, by decide, by decide, ?_⟩
  intro hHands
  rcases hHands.restores 1 _ ⟨by decide, by decide, rfl⟩ with
    ⟨f, earlier, -, hf, hRestores⟩
  have hFlags : f = .resumingControl :=
    hf.symm.trans (by decide)
  have hRank := congrArg (fun x => x.1.rank)
    (hRestores hFlags)
  exact absurd hRank (by decide)

end Piper

end PRacer
