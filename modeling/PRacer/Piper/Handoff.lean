import PRacer.Piper.Safety

/-
  The control frame goes from worker to worker: once for each
  time it leaves one.

  Main declarations:
    * `HandoffLog`, `HandoffLog.after_suspension`
    * `Logged`, `Logged.exec`
    * `logged_of_reachable`
-/

------------------------------------------------------------
-- Logs
------------------------------------------------------------

namespace PRacer

namespace Piper

open Foundations
open PipeState

variable {W P R : Type} {K : ℕ}

namespace ControlEvent

/- The flags with which a worker obtains the frame. -/
def flags : ControlEvent W → Option ResumeFlags
| .obtained _ f => some f
| _ => none

/-
  The flags with which the frame is to be obtained after it
  has left a worker.
-/
def leaves : ControlEvent W → Option ResumeFlags
| .suspended => some .resumingControl
| .obtained _ _ => none
| _ => some .normalCilk

end ControlEvent

/-
  What the latest event says: either a worker has the frame,
  or the next one obtains it with these flags.
-/
def pendingFlags :
    List (ControlEvent W) → Option ResumeFlags
| [] => none
| e :: _ => e.leaves

/-
  A log, latest event first, in which the frame leaves and is
  obtained in turn, each time with the right flags.
-/
def HandoffLog : List (ControlEvent W) → Prop
| [] => True
| e :: log => pendingFlags log = e.flags ∧ HandoffLog log

/- A frame that has not been suspended has normal flags. -/
theorem pendingFlags_normal
    {log : List (ControlEvent W)} {f : ResumeFlags}
    (hLog : .suspended ∉ log)
    (hFlags : pendingFlags log = some f) :
    f = .normalCilk := by
  cases log with
  | nil => cases hFlags
  | cons e log =>
      cases e with
      | suspended => exact absurd (List.mem_cons_self ..) hLog
      | obtained w g => cases hFlags
      | _ => exact (Option.some.inj hFlags).symm

/-
  After a suspension and before the next one: either nobody
  has obtained the frame, or one worker has, with the flags of
  a frame that resumes, and all later ones with normal flags.
-/
theorem HandoffLog.after_suspension
    {later earlier : List (ControlEvent W)}
    (h : HandoffLog (later ++ .suspended :: earlier))
    (hLater : .suspended ∉ later) :
    later = [] ∨
      ∃ rest w,
        later = rest ++ [.obtained w .resumingControl] ∧
          ∀ w' f, .obtained w' f ∈ rest →
            f = .normalCilk := by
  induction later with
  | nil => exact Or.inl rfl
  | cons e later ih =>
      right
      rcases h with ⟨hFlags, hLog⟩
      have hNot : .suspended ∉ later := fun hIn =>
        hLater (List.mem_cons_of_mem _ hIn)
      rcases ih hLog hNot with rfl | ⟨rest, w, rfl, hRest⟩
      · -- The suspension comes right before.
        change some ResumeFlags.resumingControl = e.flags
          at hFlags
        cases e with
        | obtained w f =>
            refine ⟨[], w, ?_, ?_⟩
            · rw [Option.some.inj hFlags]
              rfl
            · simp
        | _ => cases hFlags
      · refine ⟨e :: rest, w, rfl, ?_⟩
        intro w' f hIn
        rcases List.mem_cons.mp hIn with hHead | hIn
        · rw [← hHead] at hFlags
          cases rest with
          | nil => cases hFlags
          | cons x rest =>
              exact pendingFlags_normal hNot hFlags
        · exact hRest w' f hIn

------------------------------------------------------------
-- The Log of a Run
------------------------------------------------------------

/- The log says where the control frame is. -/
structure Logged (s : PipeState W P R K) : Prop where
  log : HandoffLog s.control.events
  suspended :
    s.control.pc = .suspended →
      s.control.events.head? = some .suspended
  selfStolen :
    ∀ w, (s.worker w).parentResume = .selfSteal →
      s.control.events.head? = some .selfStolen
  synced :
    s.control.pc = .synced →
      (∀ w, (s.worker w).task ≠ .nextControl) →
        s.control.events.head? = some .synced
  next :
    ∀ w, (s.worker w).task = .nextControl →
      s.control.events.head? =
        some (.obtained w s.control.resumeFlags)
  running :
    ∀ w, (s.worker w).task = .control →
      pendingFlags s.control.events = none

variable {s t : PipeState W P R K}

theorem pendingFlags_of_head
    {log : List (ControlEvent W)} {e : ControlEvent W}
    (hHead : log.head? = some e) :
    pendingFlags log = e.leaves := by
  cases log with
  | nil => cases hHead
  | cons x log =>
      cases hHead
      rfl

/- A step that does not concern the control frame's worker. -/
theorem Logged.of_same
    (h : Logged s)
    (hEvents : t.control.events = s.control.events)
    (hFlags :
      t.control.resumeFlags = s.control.resumeFlags)
    (hPc :
      t.control.pc = s.control.pc ∨
        t.control.pc ≠ .suspended ∧ t.control.pc ≠ .synced)
    (hSelf :
      ∀ w, (t.worker w).parentResume = .selfSteal →
        (s.worker w).parentResume = .selfSteal)
    (hNext :
      ∀ w, (t.worker w).task = .nextControl ↔
        (s.worker w).task = .nextControl)
    (hControl :
      ∀ w, (t.worker w).task = .control →
        (s.worker w).task = .control) :
    Logged t := by
  constructor
  · rw [hEvents]
    exact h.log
  · intro hSusp
    rw [hEvents]
    rcases hPc with hPc | hPc
    · exact h.suspended (hPc ▸ hSusp)
    · exact absurd hSusp hPc.1
  · intro w hW
    rw [hEvents]
    exact h.selfStolen w (hSelf w hW)
  · intro hSync hNone
    rw [hEvents]
    rcases hPc with hPc | hPc
    · apply h.synced (hPc ▸ hSync)
      intro w hW
      exact hNone w ((hNext w).mpr hW)
    · exact absurd hSync hPc.2
  · intro w hW
    rw [hEvents, hFlags]
    exact h.next w ((hNext w).mp hW)
  · intro w hW
    rw [hEvents]
    exact h.running w (hControl w hW)

/- One worker turns to another iteration, or to none. -/
theorem Logged.of_worker [DecidableEq W]
    {w : W} {v : Worker P R}
    (h : Logged s)
    (hControl : t.control = s.control)
    (hWorker : t.worker = Function.update s.worker w v)
    (hTask :
      (s.worker w).task ≠ .nextControl ∧
        v.task ≠ .control ∧ v.task ≠ .nextControl)
    (hSelf :
      v.parentResume = .selfSteal →
        (s.worker w).parentResume = .selfSteal) :
    Logged t := by
  apply h.of_same
  · rw [hControl]
  · rw [hControl]
  · rw [hControl]
    exact Or.inl rfl
  · intro w'
    rw [hWorker, Function.update_apply]
    split
    · rename_i hEq
      rw [hEq]
      exact hSelf
    · exact id
  · intro w'
    rw [hWorker, Function.update_apply]
    split
    · rename_i hEq
      rw [hEq]
      simp [hTask.1, hTask.2.2]
    · exact Iff.rfl
  · intro w'
    rw [hWorker, Function.update_apply]
    split
    · intro hEq
      exact absurd hEq hTask.2.1
    · exact id

/-
  Another position of the control frame: its worker goes on.
-/
theorem Logged.of_position
    (h : Logged s)
    (hWorker : t.worker = s.worker)
    (hEvents : t.control.events = s.control.events)
    (hFlags :
      t.control.resumeFlags = s.control.resumeFlags)
    (hPc :
      t.control.pc = s.control.pc ∨
        t.control.pc ≠ .suspended ∧
          t.control.pc ≠ .synced) :
    Logged t := by
  apply h.of_same hEvents hFlags hPc
  · intro w
    rw [hWorker]
    exact id
  · intro w
    rw [hWorker]
  · intro w
    rw [hWorker]
    exact id

/- A step of an iteration's code. -/
theorem Logged.of_code
    (h : Logged s)
    (hWorker : t.worker = s.worker)
    (hControl : t.control = s.control) :
    Logged t := by
  apply h.of_position hWorker
  · rw [hControl]
  · rw [hControl]
  · rw [hControl]
    exact Or.inl rfl

------------------------------------------------------------
-- The Frame Leaves and Is Obtained
------------------------------------------------------------

/- A worker has just been given the frame. -/
theorem Logged.of_handed
    {w : W} {f : ResumeFlags} {log : List (ControlEvent W)}
    (hInv : Inv t)
    (hLog : HandoffLog log)
    (hPending : pendingFlags log = some f)
    (hEvents : t.control.events = .obtained w f :: log)
    (hFlags : t.control.resumeFlags = f)
    (hTask : (t.worker w).task = .nextControl) :
    Logged t := by
  have hHolds : t.HoldsControl w := Or.inr (Or.inl hTask)
  have hCpc := (hInv.tasks.task w).nextControl hTask
  constructor
  · rw [hEvents]
    exact ⟨hPending, hLog⟩
  · intro hSusp
    simp [hSusp] at hCpc
  · intro w' hSelf
    have hEq := hInv.tasks.controlUnique w' w
      (Or.inr (Or.inr hSelf)) hHolds
    have hNone := (hInv.flags.flag w).noParent
      (Or.inr (Or.inr hTask))
    rw [hEq, hNone] at hSelf
    cases hSelf
  · intro _ hNone
    exact absurd hTask (hNone w)
  · intro w' hW
    have hEq := hInv.tasks.controlUnique w' w
      (Or.inr (Or.inl hW)) hHolds
    rw [hEvents, hEq, hFlags]
    rfl
  · intro w' hW
    have hEq := hInv.tasks.controlUnique w' w
      (Or.inl hW) hHolds
    rw [hEq, hTask] at hW
    cases hW

/- A worker has just promoted its own iteration. -/
theorem Logged.of_selfStolen
    {w : W} {log : List (ControlEvent W)}
    (hInv : Inv t)
    (hLog : HandoffLog log)
    (hPending : pendingFlags log = none)
    (hEvents : t.control.events = .selfStolen :: log)
    (hSelf : (t.worker w).parentResume = .selfSteal) :
    Logged t := by
  have hHolds : t.HoldsControl w := Or.inr (Or.inr hSelf)
  have hCpc := ((hInv.flags.flag w).selfSteal hSelf).1
  have hOther : ∀ w', (t.worker w').task = .control ∨
      (t.worker w').task = .nextControl → False := by
    intro w' hW
    have hEq := hInv.tasks.controlUnique w' w
      (hW.imp_right Or.inl) hHolds
    have hNone := (hInv.flags.flag w').noParent (Or.inr hW)
    rw [hEq, hSelf] at hNone
    cases hNone
  constructor
  · rw [hEvents]
    exact ⟨hPending, hLog⟩
  · intro hSusp
    rw [hCpc] at hSusp
    cases hSusp
  · intro _ _
    rw [hEvents]
    rfl
  · intro hSync _
    rw [hCpc] at hSync
    cases hSync
  · intro w' hW
    exact (hOther w' (Or.inr hW)).elim
  · intro w' hW
    exact (hOther w' (Or.inl hW)).elim

/- The frame has been suspended or waits at its sync. -/
theorem Logged.of_waiting
    {e : ControlEvent W} {log : List (ControlEvent W)}
    (hInv : Inv t)
    (hLog : HandoffLog log)
    (hPending : pendingFlags log = none)
    (hEvents : t.control.events = e :: log)
    (hCase :
      e = .suspended ∧ t.control.pc = .suspended ∨
        e = .synced ∧ t.control.pc = .synced)
    (hNext : ∀ w, (t.worker w).task ≠ .nextControl) :
    Logged t := by
  have hSelf : ∀ w, (t.worker w).parentResume ≠
      .selfSteal := by
    intro w hW
    have hCpc := ((hInv.flags.flag w).selfSteal hW).1
    rcases hCase with ⟨-, hPc⟩ | ⟨-, hPc⟩
    · rw [hPc] at hCpc
      cases hCpc
    · rw [hPc] at hCpc
      cases hCpc
  have hControl : ∀ w, (t.worker w).task ≠ .control := by
    intro w hW
    have hCpc := (hInv.tasks.task w).control hW
    rcases hCase with ⟨-, hPc⟩ | ⟨-, hPc⟩
    · exact hCpc.1 hPc
    · exact hCpc.2 hPc
  constructor
  · rw [hEvents]
    rcases hCase with ⟨rfl, -⟩ | ⟨rfl, -⟩
    · exact ⟨hPending, hLog⟩
    · exact ⟨hPending, hLog⟩
  · intro hSusp
    rw [hEvents]
    rcases hCase with ⟨rfl, -⟩ | ⟨-, hPc⟩
    · rfl
    · rw [hPc] at hSusp
      cases hSusp
  · intro w hW
    exact absurd hW (hSelf w)
  · intro hSync _
    rw [hEvents]
    rcases hCase with ⟨-, hPc⟩ | ⟨rfl, -⟩
    · rw [hPc] at hSync
      cases hSync
    · rfl
  · intro w hW
    exact absurd hW (hNext w)
  · intro w hW
    exact absurd hW (hControl w)

section Steps

variable [DecidableEq W]

omit [DecidableEq W] in
@[simp] theorem PipeState.check_worker
    (s : PipeState W P R K) (c : Prop) [Decidable c] :
    (s.check c).worker = s.worker := by
  unfold check
  split <;> rfl

/- The worker's continuation is stolen by the worker itself. -/
theorem Logged.promote
    (h : Logged s) (hInv : Inv s) {w : W}
    (hTask : (s.worker w).task = .control)
    (hCpc : s.control.pc = .child true) :
    Logged (s.promoteRightmostIter w) := by
  apply Logged.of_selfStolen (w := w)
    (hInv.promote hTask hCpc).1 h.log (h.running w hTask)
  · simp [promoteRightmostIter, installIterationFrame]
  · simp [promoteRightmostIter, installIterationFrame]

theorem Logged.steal
    (h : Logged s) (hInv : Inv s) {u w : W}
    (hThief : (s.worker u).task = .idle)
    (hTask : (s.worker w).task = .control)
    (hCpc : s.control.pc = .child true) :
    Logged (s.stealControl u w) := by
  rcases hInv.of_task_control hTask with
    ⟨-, -, hNormal, -, -⟩
  have hLog : HandoffLog (.stolen :: s.control.events) :=
    ⟨h.running w hTask, h.log⟩
  apply Logged.of_handed (w := u) (f := .normalCilk)
    (hInv.steal hThief hTask hCpc).1 hLog rfl
  · simp [stealControl, installIterationFrame, hNormal]
  · simp [stealControl, installIterationFrame, hNormal]
  · simp [stealControl]

/- The throttle suspends the frame, or hands it back. -/
theorem trySuspendControl_cases
    (t : PipeState W P R K) (w : W) :
    let r := t.trySuspendControlFrameAtThrottle w
    r.control.pc = .suspended ∧
        r.control.events = t.control.events ∧
        r.worker = t.worker ∨
      r.control.events =
          .obtained w .resumingControl :: t.control.events ∧
        r.control.resumeFlags = .resumingControl ∧
        (r.worker w).task = .nextControl := by
  unfold trySuspendControlFrameAtThrottle
  dsimp only
  split
  · left
    refine ⟨by simp, by simp, ?_⟩
    funext w'
    simp
  · right
    simp [PipeState.handControl]

theorem Logged.suspendControl
    (h : Logged s) (hInv : Inv s) {w : W}
    (hTask : (s.worker w).task = .control)
    (hCpc : s.control.pc = .slowPath) :
    Logged (s.suspendControlFrame w) := by
  have hNew := (hInv.suspendControl hTask hCpc).1
  rcases hInv.of_task_control hTask with ⟨hOnly, -⟩
  have hEvents :
      (s.saveWorkerStateForSuspendControl w).control.events =
        .suspended :: s.control.events := by
    simp [saveWorkerStateForSuspendControl]
  rcases trySuspendControl_cases
    (s.saveWorkerStateForSuspendControl w) w with
    ⟨hPc, hKept, hWorker⟩ | ⟨hGiven, hFlags, hNext⟩
  · rw [hEvents] at hKept
    apply Logged.of_waiting hNew h.log (h.running w hTask)
      hKept (Or.inl ⟨rfl, hPc⟩)
    intro w' hW'
    have hOld : ((s.saveWorkerStateForSuspendControl
        w).worker w').task = .nextControl :=
      hWorker ▸ hW'
    by_cases hW : w' = w
    · rw [hW] at hOld
      simp [saveWorkerStateForSuspendControl] at hOld
    · apply hOnly w' hW
      right
      left
      simpa [saveWorkerStateForSuspendControl, hW]
        using hOld
  · rw [hEvents] at hGiven
    apply Logged.of_handed hNew _ rfl hGiven hFlags hNext
    exact ⟨h.running w hTask, h.log⟩

theorem Logged.sync
    (h : Logged s) (hInv : Inv s) {w : W}
    (hTask : (s.worker w).task = .control)
    (hCpc : s.control.pc = .loopHead) :
    Logged (s.sync w) := by
  have hNew := hInv.sync hTask hCpc
  rcases hInv.of_task_control hTask with ⟨hOnly, -⟩
  revert hNew
  unfold PipeState.sync
  split
  · intro _
    apply h.of_position
    · rfl
    · rfl
    · rfl
    · simp
  · intro hNew
    apply Logged.of_waiting hNew h.log (h.running w hTask)
      rfl (Or.inr ⟨rfl, rfl⟩)
    intro w'
    by_cases hW : w' = w
    · rw [hW]
      simp
    · intro hNext
      apply hOnly w' hW
      right
      left
      simpa [hW] using hNext

/- The last child of a waiting frame hands it to its worker. -/
theorem Logged.pipeIterFinish
    (h : Logged s) (hInv : Inv s) {w : W} {i : ℤ}
    (hTask : (s.worker w).task = .runtime i none)
    (hPc : s.pc i = .finishing .enter) :
    Logged (s.pipeIterFinish w i) := by
  have hNew := (hInv.pipeIterFinish hTask hPc).1
  rcases hInv.of_task_runtime hTask with ⟨-, hAtt, -⟩
  have hChild : i ∈ s.control.children := by
    rw [hInv.core.children i, hPc]
    exact ⟨rfl, hAtt⟩
  revert hNew
  unfold PipeState.pipeIterFinish
  dsimp only
  split
  · rename_i hLast
    intro hNew
    have hCard := Finset.card_pos.mpr ⟨i, hChild⟩
    simp only [check_control] at hLast
    have hCpc : s.control.pc = .synced := by
      by_contra hNot
      have hRunning := hInv.flags.running hNot
      omega
    have hNone : ∀ w', (s.worker w').task ≠ .nextControl := by
      rcases hInv.flags.waiting hCpc with
        ⟨-, hNone⟩ | ⟨-, hEmpty⟩
      · exact hNone
      · rw [hEmpty] at hChild
        simp at hChild
    have hFlags : s.control.resumeFlags = .normalCilk := by
      rcases hInv.flags.normal with hN | hN | hN
      · exact hN
      · have hPassing := hInv.flags.resuming hN
        rw [hCpc] at hPassing
        cases hPassing
      · have hSusp := hInv.flags.suspended.mp hN
        rw [hCpc] at hSusp
        cases hSusp
    apply Logged.of_handed (w := w) (f := .normalCilk) hNew
      h.log
    · exact pendingFlags_of_head (h.synced hCpc hNone)
    · simp [PipeState.handControl, hFlags]
    · simp [PipeState.handControl, hFlags]
    · simp [PipeState.handControl]
  · intro _
    apply h.of_position
    · funext w'
      simp
    · simp
    · simp
    · simp

/-
  The parent is taken out of the flag of worker `v`, whose
  task does not matter.
-/
theorem Logged.tryRemove
    (h : Logged s) (hInv : Inv s) {v : W}
    (hFlag : (s.worker v).parentResume ≠ .noParent)
    (hControl : t.control = s.control)
    (hSame :
      (t.worker v).parentResume =
        (s.worker v).parentResume) :
    let r := t.tryRemoveImplicitParent v
    r.2 = true ∧
      r.1.control.events = s.control.events ∧
      pendingFlags s.control.events =
        some r.1.control.resumeFlags := by
  have hOk := hInv.flags.flag v
  unfold tryRemoveImplicitParent
  dsimp only
  rw [hSame, setWorker_control, hControl]
  cases hParent : (s.worker v).parentResume with
  | noParent => exact absurd hParent hFlag
  | selfSteal =>
      have hCpc := (hOk.selfSteal hParent).1
      have hNormal := hInv.flags.normal_of_continuation hCpc
      dsimp only
      refine ⟨rfl, ?_, ?_⟩
      · simp [hControl]
      · rw [pendingFlags_of_head (h.selfStolen v hParent)]
        simp [hControl, hNormal, ControlEvent.leaves]
  | throttleSuspend =>
      have hCpc := (hOk.throttleSuspend hParent).1
      have hSusp := hInv.flags.suspended.mpr hCpc
      rw [if_pos hSusp]
      refine ⟨rfl, rfl, ?_⟩
      rw [pendingFlags_of_head (h.suspended hCpc)]
      rfl

theorem Logged.stealParent
    (h : Logged s) (hInv : Inv s) {u w : W}
    (hThief : (s.worker u).task = .idle)
    (hFlag : (s.worker w).parentResume ≠ .noParent) :
    Logged (s.stealParent u w) := by
  have hNew := (hInv.stealParent hThief hFlag).1
  rcases h.tryRemove hInv hFlag rfl rfl with
    ⟨hTrue, hEvents, hPending⟩
  unfold PipeState.stealParent at hNew ⊢
  dsimp only at hNew ⊢
  rw [if_pos hTrue] at hNew ⊢
  apply Logged.of_handed (w := u) hNew h.log hPending
  · simp [PipeState.handControl, hEvents]
  · rfl
  · simp [PipeState.handControl]

/- A worker without an iteration looks for a parent. -/
theorem Logged.finishGetNext
    (h : Logged s) (hInv : Inv s) {w : W} {i : ℤ}
    {r : Option ℤ}
    (hTask : (s.worker w).task = .runtime i r)
    (hPc : s.pc i = .finishing .getNext) :
    Logged (s.finishGetNext w i r) := by
  have hNew := (hInv.finishGetNext hTask hPc).1
  revert hNew
  unfold PipeState.finishGetNext
  cases r with
  | some j =>
      intro _
      apply h.of_worker (w := w)
        (v := { s.worker w with
          iterFfOnTop := false
          task := .nextIter j })
      · rfl
      · funext w'
        by_cases hW : w' = w
        · rw [hW]
          simp
        · simp [hW]
      · simp [hTask]
      · exact id
  | none =>
      dsimp only
      generalize hT : setPc _ _ _ = t
      have hControl : t.control = s.control := by
        rw [← hT]
        rfl
      have hSame : (t.worker w).parentResume =
          (s.worker w).parentResume := by
        rw [← hT]
        simp
      have hWorker : t.worker = Function.update s.worker w
          { s.worker w with
            iterFfOnTop := false
            task := .idle } := by
        rw [← hT]
        rfl
      by_cases hFlag : (s.worker w).parentResume = .noParent
      · have hTry : t.tryRemoveImplicitParent w =
            (t.setWorker w
              { t.worker w with
                parentResume := .noParent }, false) := by
          unfold tryRemoveImplicitParent
          rw [hSame, hFlag]
        rw [hTry, if_neg (by simp)]
        intro _
        apply h.of_worker (w := w)
          (v := { s.worker w with
            iterFfOnTop := false
            task := .idle
            parentResume := .noParent })
        · rw [check_control]
          exact hControl
        · rw [check_worker]
          simp [setWorker, hWorker]
        · simp [hTask]
        · simp
      · rcases h.tryRemove hInv hFlag hControl hSame with
          ⟨hTrue, hEvents, hPending⟩
        rw [if_pos hTrue]
        intro hNew
        apply Logged.of_handed (w := w) hNew h.log hPending
        · simp [PipeState.handControl, hEvents]
        · rfl
        · simp [PipeState.handControl]

omit [DecidableEq W] in
@[simp] theorem PipeState.tryResume_worker
    (s : PipeState W P R K) (x : ZMod K) :
    (s.tryResumeNextIteration x).1.worker = s.worker := by
  unfold tryResumeNextIteration
  dsimp only
  split
  · funext w
    simp
  · rfl

omit [DecidableEq W] in
/-
  Only a parent that the worker has promoted itself is left in
  its flag when it has marked its iteration as suspended.
-/
theorem Inv.selfSteal_of_marked
    (h : Inv s) {w : W} {i : ℤ} {f : Bool}
    (hTask : (s.worker w).task = .runtime i none)
    (hPc : s.pc i = .wait f .marked)
    (hFlag : (s.worker w).parentResume ≠ .noParent) :
    (s.worker w).parentResume = .selfSteal := by
  cases hParent : (s.worker w).parentResume with
  | noParent => exact absurd hParent hFlag
  | selfSteal => rfl
  | throttleSuspend =>
      have hMark :=
        (h.flags.flag w).unmarked hParent i none hTask
      rw [hPc] at hMark
      cases hMark

/- A worker that suspends its iteration looks for a parent. -/
theorem Logged.resumeOnSuspend
    (h : Logged s) (hInv : Inv s) {w : W} {i : ℤ} {f : Bool}
    (hTask : (s.worker w).task = .runtime i none)
    (hPc : s.pc i = .wait f .marked)
    (hLock : (s.block (rightOf i)).dataLock = false) :
    Logged (s.tryResumeNextIterOnSuspend w i f) := by
  have hNew := (hInv.resumeOnSuspend hTask hPc hLock).1
  revert hNew
  unfold tryResumeNextIterOnSuspend
  dsimp only
  generalize hR : tryResumeNextIteration _ _ = r
  have hControl : r.1.control = s.control := by
    rw [← hR, tryResume_control]
    rfl
  have hWorker : r.1.worker = s.worker := by
    rw [← hR, tryResume_worker]
    rfl
  cases r.2 with
  | some j =>
      intro _
      apply h.of_worker (w := w)
        (v := { s.worker w with
          iterFfOnTop := false
          task := .nextIter j })
      · exact hControl
      · simp [setWorker, hWorker]
      · simp [hTask]
      · exact id
  | none =>
      dsimp only
      rw [hWorker]
      split
      · intro _
        apply h.of_worker (w := w)
          (v := { s.worker w with
            iterFfOnTop := false
            task := .idle })
        · exact hControl
        · simp [setWorker, hWorker]
        · simp [hTask]
        · exact id
      · rename_i hFlag
        intro hNew
        have hSelf := hInv.selfSteal_of_marked hTask hPc hFlag
        have hCpc :=
          ((hInv.flags.flag w).selfSteal hSelf).1
        have hNormal :=
          hInv.flags.normal_of_continuation hCpc
        apply Logged.of_handed (w := w) (f := .normalCilk)
          hNew h.log
        · exact pendingFlags_of_head (h.selfStolen w hSelf)
        · simp [PipeState.handControl, hControl, hNormal]
        · simp [PipeState.handControl, hControl, hNormal]
        · simp [PipeState.handControl]

/- The worker that obtained the frame sets it up. -/
theorem Logged.setupControl
    (h : Logged s) (hInv : Inv s) {w : W}
    (hTask : (s.worker w).task = .nextControl) :
    Logged (s.setupControl w) := by
  have hHead := h.next w hTask
  have hCpc := (hInv.tasks.task w).nextControl hTask
  have hHolds : s.HoldsControl w := Or.inr (Or.inl hTask)
  rcases setupControl_control s w with ⟨hPc, -, hEvents⟩
  have hPcT : (s.setupControl w).control.pc ≠ .suspended ∧
      (s.setupControl w).control.pc ≠ .synced := by
    rw [hPc]
    rcases hCpc with hPc | hPc | hPc <;> rw [hPc] <;> simp
  have hOther : ∀ w', w' ≠ w →
      (s.setupControl w).worker w' = s.worker w' :=
    fun _ hW => setupControl_worker_of_ne s hW
  have hTaskT : ((s.setupControl w).worker w).task =
        .control ∧
      ((s.setupControl w).worker w).parentResume =
        (s.worker w).parentResume := by
    unfold PipeState.setupControl restoreControl
    dsimp only
    split <;> simp [setupForExecutionPedigree]
  constructor
  · rw [hEvents]
    exact h.log
  · intro hSusp
    exact absurd hSusp hPcT.1
  · intro w' hSelf
    exfalso
    by_cases hEq : w' = w
    · have hNone := (hInv.flags.flag w).noParent
        (Or.inr (Or.inr hTask))
      rw [hEq, hTaskT.2, hNone] at hSelf
      cases hSelf
    · rw [hOther w' hEq] at hSelf
      exact hEq (hInv.tasks.controlUnique w' w
        (Or.inr (Or.inr hSelf)) hHolds)
  · intro hSync
    exact absurd hSync hPcT.2
  · intro w' hW
    exfalso
    by_cases hEq : w' = w
    · rw [hEq, hTaskT.1] at hW
      cases hW
    · rw [hOther w' hEq] at hW
      exact hEq (hInv.tasks.controlUnique w' w
        (Or.inr (Or.inl hW)) hHolds)
  · intro w' _
    rw [hEvents, pendingFlags_of_head hHead]
    rfl

/- Freeing a block may mark the worker's parent. -/
theorem Logged.tryFree
    (h : Logged s) {x : ZMod K} {w : Option W} {q : Party}
    (hTask :
      ∀ v ∈ w, (s.worker v).task ≠ .control ∧
        (s.worker v).task ≠ .nextControl) :
    Logged (s.tryFreeIterDataBlock x w q) := by
  unfold tryFreeIterDataBlock
  dsimp only
  split
  · cases w with
    | none =>
        apply h.of_code
        · funext w'
          simp
        · simp
    | some v =>
        have hV := hTask v rfl
        dsimp only
        split
        · apply h.of_worker (w := v)
            (v := { s.worker v with
              parentResume := .throttleSuspend
              flagSetBy := q })
          · simp
          · simp [setWorker, setBlock]
          · exact ⟨hV.2, hV.1, hV.2⟩
          · simp
        · apply h.of_code
          · funext w'
            simp
          · simp
  · exact h.of_code rfl rfl

omit [DecidableEq W] in
theorem Logged.stageAdvance
    (h : Logged s) (i v : ℤ) :
    Logged (s.stageAdvance i v) := by
  unfold PipeState.stageAdvance
  dsimp only
  split
  · apply h.of_position
    · rfl
    · rfl
    · rfl
    · simp
  · exact h.of_code rfl rfl

/- Every step keeps the log in order. -/
theorem Logged.exec
    (h : Logged s) (hInv : Inv s) {a : Action W P R}
    (hEn : s.enabled a = true) :
    Logged (s.exec a) := by
  cases a with
  | stage w i v => exact h.stageAdvance i v
  | stageWait w i v =>
      exact (h.stageAdvance i v).of_code rfl rfl
  | endBody w i =>
      simp only [PipeState.exec, finalStageWait]
      split
      · exact (h.stageAdvance i _).of_code rfl rfl
      · exact h.of_code rfl rfl
  | testCached w i f =>
      simp only [PipeState.exec, testCachedStage]
      split <;> exact h.of_code rfl rfl
  | testLeft w i f =>
      simp only [PipeState.exec, testLeftStage]
      split <;> exact h.of_code rfl rfl
  | testStall w i f =>
      simp only [PipeState.exec, stageWaitTest]
      split <;> exact h.of_code rfl rfl
  | pause w i f =>
      exact h.of_code rfl rfl
  | promote w i f =>
      simp only [enabled, decide_eq_true_eq] at hEn
      exact h.promote hInv hEn.1 hEn.2.1
  | switch w i f =>
      simp only [enabled, decide_eq_true_eq] at hEn
      apply h.of_worker (w := w)
        (v := { s.worker w with task := .runtime i none })
      · rfl
      · rfl
      · simp [hEn.1]
      · exact id
  | trySuspend w i f =>
      simp only [enabled, decide_eq_true_eq] at hEn
      simp only [PipeState.exec, trySuspendAtStageWait]
      split
      · apply h.of_code
        · funext w'
          simp
        · simp
      · apply h.of_worker (w := w)
          (v := { s.worker w with task := .nextIter i })
        · rfl
        · rfl
        · simp [hEn.1]
        · exact id
  | resumeOnSuspend w i f =>
      simp only [enabled, decide_eq_true_eq] at hEn
      exact h.resumeOnSuspend hInv hEn.1 hEn.2.1 hEn.2.2
  | finishStage w i =>
      simp only [PipeState.exec, finishFinalUserStage]
      split <;> exact h.of_code rfl rfl
  | pop w i =>
      apply h.of_position
      · rfl
      · rfl
      · rfl
      · simp [PipeState.exec, popControl]
  | exitMove w i =>
      apply h.of_code
      · funext w'
        simp [PipeState.exec, PipeState.exitMove,
          moveIterStageToDone]
      · simp [PipeState.exec, PipeState.exitMove,
          moveIterStageToDone]
  | exitFreeLeft w i =>
      have hFree := h.tryFree (x := leftOf i) (w := none)
        (q := .attachedExit i) (by simp)
      exact hFree.of_code rfl rfl
  | exitFreeOwn w i =>
      have hFree := h.tryFree (x := i) (w := none)
        (q := .attachedExit i) (by simp)
      apply hFree.of_position
      · rfl
      · rfl
      · rfl
      · simp [PipeState.exec, PipeState.exitFreeOwn]
  | enterFinish w i =>
      simp only [enabled, decide_eq_true_eq] at hEn
      apply h.of_worker (w := w)
        (v := { s.worker w with task := .runtime i none })
      · rfl
      · rfl
      · simp [hEn.1]
      · exact id
  | pipeIterFinish w i =>
      simp only [enabled, decide_eq_true_eq] at hEn
      exact h.pipeIterFinish hInv hEn.1 hEn.2
  | finishFreeLeft w i =>
      simp only [enabled, decide_eq_true_eq] at hEn
      have hFree := h.tryFree (x := leftOf i) (w := some w)
        (q := .finish i) (by simp [hEn.1])
      exact hFree.of_code rfl rfl
  | finishMove w i =>
      apply h.of_code
      · funext w'
        simp [PipeState.exec, PipeState.finishMove,
          moveIterStageToDone]
      · simp [PipeState.exec, PipeState.finishMove,
          moveIterStageToDone]
  | finishResumeNext w i =>
      simp only [enabled, decide_eq_true_eq] at hEn
      apply h.of_worker (w := w)
        (v := { s.worker w with
          task := .runtime i (s.tryResumeNextIteration i).2 })
      · exact tryResume_control s _
      · simp [PipeState.exec, PipeState.finishResumeNext,
          setWorker, setPc]
      · simp [hEn.1]
      · exact id
  | finishFreeOwn w i r =>
      simp only [enabled, decide_eq_true_eq] at hEn
      have hFree := h.tryFree (x := i) (w := some w)
        (q := .finish i) (by simp [hEn.1])
      exact hFree.of_code rfl rfl
  | finishGetNext w i r =>
      simp only [enabled, decide_eq_true_eq] at hEn
      exact h.finishGetNext hInv hEn.1 hEn.2
  | initIter w =>
      apply h.of_position
      · funext w'
        simp [PipeState.exec, initIterFrame]
      · simp [PipeState.exec, initIterFrame]
      · simp [PipeState.exec, initIterFrame]
      · simp [PipeState.exec, initIterFrame]
  | throttle w =>
      simp only [PipeState.exec, PipeState.throttle]
      split
      · apply h.of_position
        · funext w'
          simp
        · simp
        · simp
        · simp
      · apply h.of_position
        · funext w'
          simp
        · simp
        · simp
        · simp
  | suspendControl w =>
      simp only [enabled, decide_eq_true_eq] at hEn
      exact h.suspendControl hInv hEn.1 hEn.2.1
  | passThrottle w =>
      apply h.of_position
      · funext w'
        simp [PipeState.exec, PipeState.passThrottle]
      · simp [PipeState.exec, PipeState.passThrottle]
      · simp [PipeState.exec, PipeState.passThrottle]
      · simp [PipeState.exec, PipeState.passThrottle]
  | sync w =>
      simp only [enabled, decide_eq_true_eq] at hEn
      exact h.sync hInv hEn.1 hEn.2
  | steal u w =>
      simp only [enabled, decide_eq_true_eq] at hEn
      exact h.steal hInv hEn.1 hEn.2.1 hEn.2.2.1
  | stealParent u w i =>
      simp only [enabled, decide_eq_true_eq] at hEn
      exact h.stealParent hInv hEn.1 hEn.2.2
  | stealNext u w i =>
      simp only [enabled, decide_eq_true_eq] at hEn
      simp only [PipeState.exec, PipeState.stealNext]
      split
      · rename_i j _
        apply h.of_worker (w := u)
          (v := { s.worker u with
            task := .nextIter j
            workStolen := true })
        · exact tryResume_control s _
        · simp [setWorker]
        · simp [hEn.1]
        · exact id
      · exact h.of_code (tryResume_worker s _)
          (tryResume_control s _)
  | setupControl w =>
      simp only [enabled, decide_eq_true_eq] at hEn
      exact h.setupControl hInv hEn
  | iterSetup w i f =>
      simp only [enabled, decide_eq_true_eq] at hEn
      apply h.of_worker (w := w)
        (v := { s.worker w with
          task := .iter i
          iterFfOnTop := true
          workStolen := false })
      · simp [PipeState.exec, PipeState.iterSetup]
      · simp [PipeState.exec, PipeState.iterSetup,
          setWorker, setPc, setBlock]
      · simp [hEn.1]
      · exact id
  | work w p r =>
      have hKept : ∀ w',
          ((s.work w p r).worker w').task =
              (s.worker w').task ∧
            ((s.work w p r).worker w').parentResume =
              (s.worker w').parentResume := by
        intro w'
        by_cases hW : w' = w
        · rw [hW]
          simp [PipeState.work]
        · simp [PipeState.work, hW]
      apply h.of_same
      · rfl
      · rfl
      · exact Or.inl rfl
      · intro w' hSelf
        exact (hKept w').2 ▸ hSelf
      · intro w'
        exact (hKept w').1 ▸ Iff.rfl
      · intro w' hControl
        exact (hKept w').1 ▸ hControl

end Steps

------------------------------------------------------------
-- Every Run
------------------------------------------------------------

variable [DecidableEq W]

/- The log is in order, also where a run has stopped. -/
theorem logged_of_reachable
    (hK : 1 < K)
    (hReach : (pipeSystem W P R K).Reachable s) :
    Logged s := by
  rcases hReach with ⟨s₀, acts, hInit, hRun⟩
  induction hRun with
  | refl =>
      rcases hInit with
        ⟨garbage, w₀, pedigree, reducerMap, rfl⟩
      constructor
      · trivial
      · intro hSusp
        cases hSusp
      · intro w hSelf
        cases hSelf
      · intro hSync
        cases hSync
      · intro w hNext
        change (if w = w₀ then Task.control else .idle) = _
          at hNext
        split at hNext <;> cases hNext
      · intro _ _
        rfl
  | tail hRun hStep ih =>
      rcases hStep with ⟨hRuns, hEn, rfl⟩
      exact ih.exec
        (inv_of_running hK ⟨_, _, hInit, hRun⟩ hRuns) hEn

end Piper

end PRacer
