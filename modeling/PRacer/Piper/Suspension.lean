import Mathlib.Tactic.Common
import PRacer.Piper.Code

/-
  Suspending and resuming iterations keeps the invariant.

  Main declarations:
    * `Inv.of_change`
    * `PipeState.wake`, `tryResume_spec`, `Inv.wake`
    * `Inv.trySuspend`, `Inv.resumeOnSuspend`, ...
-/

------------------------------------------------------------
-- One Worker and One Iteration
------------------------------------------------------------

namespace PRacer

namespace Piper

open PipeState

variable {W P R : Type} {K : ℕ} [DecidableEq W]
variable {s t : PipeState W P R K}

/-
  Worker `w` becomes `v` while iteration `i`, which no other
  worker holds, moves on without a decrement.
-/
theorem Inv.of_change
    {i : ℤ} {p : IterPc} {b : Block} {w : W}
    {v : Worker P R}
    (h : Inv s)
    (hCore : Core t)
    (hChange : Change s t i p b)
    (hWorker : t.worker = Function.update s.worker w v)
    (hControl : t.control = s.control)
    (hOthers : ∀ w', w' ≠ w → ¬ s.HoldsIter w' i)
    (hLeft : p.freedLeft = (s.pc i).freedLeft)
    (hOwn : p.freedOwn = (s.pc i).freedOwn)
    (hMoved : (s.pc i).moved = true → p.moved = true)
    (hZeroed : b.zeroedBy = (s.blk i).zeroedBy)
    (hIters :
      ∀ j ∈ v.task.iters, ∀ w', w' ≠ w →
        ¬ s.HoldsIter w' j)
    (hTask :
      TaskOk t.pc s.attachedAt s.control.pc v.task)
    (hParent :
      v.parentResume = (s.worker w).parentResume ∧
        v.flagSetBy = (s.worker w).flagSetBy)
    (hNotControl : v.task ≠ .control ∧ v.task ≠ .nextControl)
    (hFlag :
      FlagOk t.pc s.cur s.control.pc
        (s.Freed (s.cur + 1 - K)) v) :
    Inv t := by
  have hAtt : t.attachedAt = s.attachedAt := by
    funext j
    unfold attachedAt cur
    rw [hControl]
  have hFreed := hChange.freed_iff hLeft hOwn
  have hPc : ∀ w' j, w' ≠ w → s.HoldsIter w' j →
      t.pc j = s.pc j := by
    intro w' j hNe hHolds
    rw [hChange.pc_apply, if_neg]
    rintro rfl
    exact hOthers w' hNe hHolds
  refine ⟨hCore, ?_, ?_, ?_⟩
  · apply h.tasks.reassign hWorker _ _ _ hIters
    · intro hHolds
      apply h.tasks.others_control
      rcases hHolds with hTask' | hTask' | hSelf
      · exact absurd hTask' hNotControl.1
      · exact absurd hTask' hNotControl.2
      · rw [hParent.1] at hSelf
        exact Or.inr (Or.inr hSelf)
    · intro w' j hNe hHolds
      rw [hAtt]
      exact ⟨hPc w' j hNe hHolds, rfl⟩
    · intro w' _ _
      rw [hControl]
    · rw [hAtt, hControl]
      exact hTask
  · apply h.flags.reassign hWorker hPc
    · intro j hJ
      rw [hChange.pc_apply]
      split
      · rename_i hEq
        rw [hEq] at hJ
        exact hMoved hJ
      · exact hJ
    · rw [hChange.cur]
      exact (hFreed _).mpr
    · exact hControl
    · rw [hChange.cur, hControl]
      constructor
      · exact hFlag.selfSteal
      · intro hThrottle
        have hBoth := hFlag.throttleSuspend hThrottle
        exact ⟨hBoth.1, (hFreed _).mpr hBoth.2⟩
      · exact hFlag.travels
      · exact hFlag.unmarked
      · exact hFlag.noParent
      · exact hFlag.onTop
      · exact hFlag.offTop
    · intro hThrottle w' hNe hOther
      rw [hParent.1] at hThrottle
      exact hNe (h.flags.resumesUnique w' w hOther hThrottle)
    · intro hEq
      exact absurd hEq hNotControl.1
    · intro hEq
      exact absurd hEq hNotControl.2
    · intro hEq
      exact absurd hEq hNotControl.2
  · apply h.continues.change h.core.positions.ring hChange
      hControl hLeft hOwn hZeroed
    intro w' hResumes
    unfold Resumes at hResumes ⊢
    rw [hWorker, Function.update_apply]
    split
    · rename_i hEq
      rw [hEq] at hResumes ⊢
      rw [hParent.1, hParent.2]
      exact ⟨hResumes, rfl⟩
    · exact ⟨hResumes, rfl⟩

omit [DecidableEq W] in
/- What a worker knows about the iteration it executes. -/
theorem Inv.of_task_iter
    (h : Inv s) {w : W} {i : ℤ}
    (hTask : (s.worker w).task = .iter i) :
    s.Executes w i ∧ s.attachedAt i = false ∧
      ∀ w', w' ≠ w → ¬ s.HoldsIter w' i := by
  refine ⟨Or.inl hTask, ((h.tasks.task w).iter i hTask).2, ?_⟩
  apply h.tasks.others
  simp [HoldsIter, hTask, Task.iters]

omit [DecidableEq W] in
/- A promoted iteration implies a full control frame. -/
theorem Positions.hasFullFrame
    (h : Positions s) {i : ℤ}
    (hStarted : s.pc i ≠ .notStarted)
    (hFinished : s.pc i ≠ .finished)
    (hAtt : s.attachedAt i = false) :
    s.control.hasFullFrame = true := by
  by_contra hNone
  rw [Bool.not_eq_true] at hNone
  exact hFinished
    (h.unstolen hNone i (h.le_cur hStarted) hStarted hAtt)

/-
  A live iteration that is not attached moves between places
  that worker `w` holds.
-/
theorem Inv.of_live
    {i : ℤ} {p : IterPc} {w : W} {v : Worker P R}
    {f : ResumeFlags}
    (h : Inv s)
    (hO : (s.pc i).IsLive)
    (hN : p.IsLive)
    (hPost : p.posted = (s.pc i).posted)
    (hPlace : p.place ≠ .exiting)
    (hQueued : p.place = .queued → f = .resumingIter)
    (hAtt : s.attachedAt i = false)
    (hOthers : ∀ w', w' ≠ w → ¬ s.HoldsIter w' i)
    (hIters : v.task.iters = [i])
    (hTask :
      TaskOk (Function.update s.pc i p) s.attachedAt
        s.control.pc v.task)
    (hParent :
      v.parentResume = (s.worker w).parentResume ∧
        v.flagSetBy = (s.worker w).flagSetBy)
    (hNotControl : v.task ≠ .control ∧ v.task ≠ .nextControl)
    (hFlag :
      FlagOk (Function.update s.pc i p) s.cur s.control.pc
        (s.Freed (s.cur + 1 - K)) v) :
    Inv (((s.setBlock i
      { s.blk i with resumeFlags := f }).setPc
        i p).setWorker w v) := by
  have hRing := h.core.positions.inRing hO.ne_notStarted
    hO.freedOwn
  have hOk := h.core.blocks i hRing
  have hOne := h.core.positions.one_le hO.ne_finished
  have hBase := change_setBlock_setPc s hRing p
    { s.blk i with resumeFlags := f }
  have hChange : Change s
      (((s.setBlock i
        { s.blk i with resumeFlags := f }).setPc
          i p).setWorker w v) i p
      { s.blk i with resumeFlags := f } :=
    ⟨rfl, hBase.blk, rfl, fun _ _ => rfl,
      fun _ _ => rfl⟩
  have hPos : Positions
      (((s.setBlock i
        { s.blk i with resumeFlags := f }).setPc
          i p).setWorker w v) := by
    apply h.core.positions.move hChange.pc rfl (Or.inl rfl)
      rfl hO.ne_notStarted hO.ne_finished hN.ne_notStarted
    · simp [hO.freedOwn]
    · simp [hO.freedLeft]
    · exact Or.inr ⟨hPlace, hAtt, Or.inl
        (h.core.positions.hasFullFrame hO.ne_notStarted
          hO.ne_finished hAtt)⟩
  apply h.of_change _ hChange rfl rfl hOthers
  · rw [hN.freedLeft, hO.freedLeft]
  · rw [hN.freedOwn, hO.freedOwn]
  · simp [hO.moved]
  · rfl
  · rw [hIters]
    intro j hJ
    rw [List.mem_singleton] at hJ
    rw [hJ]
    exact hOthers
  · exact hTask
  · exact hParent
  · exact hNotControl
  · exact hFlag
  · apply h.core.live hChange hPos rfl rfl rfl hO hN rfl
      hQueued le_rfl
    · intro hEarly
      rw [hPost] at hEarly
      exact hOk.early (by omega) hO.ne_notStarted hEarly
        hO.moved
    · intro hPosted
      rw [hPost] at hPosted
      exact hOk.posted hPosted
    · exact Or.inl rfl

------------------------------------------------------------
-- Switching Stacks
------------------------------------------------------------

/- The flags when a worker goes from one task to another. -/
theorem FlagOk.to_runtime
    {pc : ℤ → IterPc} {cur : ℤ} {cpc : ControlPc}
    {freed : Prop} {v : Worker P R} {i : ℤ} {p : IterPc}
    (h : FlagOk pc cur cpc freed v)
    (hTask : v.task = .iter i)
    (hMark : p.isMarked = false) :
    FlagOk (Function.update pc i p) cur cpc freed
      { v with task := .runtime i none } := by
  constructor
  · intro hSelf
    have hOld := h.selfSteal hSelf
    rw [hTask] at hOld
    exact hOld
  · exact h.throttleSuspend
  · intro hThrottle j hCase
    have hJ : j = i := by
      rcases hCase with hEq | hEq | ⟨r, f, q, hEq, -⟩
      · simp at hEq
      · simp at hEq
      · exact (Task.runtime.inj hEq).1.symm
    subst hJ
    have hOld := h.travels hThrottle j (Or.inl hTask)
    rw [Function.update_of_ne (by omega)]
    exact hOld
  · intro _ j r hEq
    rw [← (Task.runtime.inj hEq).1, Function.update_self]
    exact hMark
  · simp
  · intro _
    exact h.onTop (Or.inl ⟨i, hTask⟩)
  · simp

theorem TaskOk.runtime_none
    {pc : ℤ → IterPc} {attached : ℤ → Bool}
    {cpc : ControlPc} {i : ℤ}
    (hPlace : (pc i).place = .runtime) :
    TaskOk pc attached cpc (.runtime i none) := by
  constructor
  · simp
  · simp
  · intro j r hEq
    rw [← (Task.runtime.inj hEq).1]
    exact hPlace
  · simp
  · simp
  · simp

theorem TaskOk.of_nextIter
    {pc : ℤ → IterPc} {attached : ℤ → Bool}
    {cpc : ControlPc} {j : ℤ}
    (hPlace : (pc j).place = .queued) :
    TaskOk pc attached cpc (.nextIter j) := by
  constructor
  · simp
  · intro k hEq
    rw [← Task.nextIter.inj hEq]
    exact hPlace
  · simp
  · simp
  · simp
  · simp

/- The flags of a worker that is to resume an iteration. -/
theorem FlagOk.of_nextIter
    {pc : ℤ → IterPc} {cur : ℤ} {cpc : ControlPc}
    {freed : Prop} {v : Worker P R} {j : ℤ}
    (hV : v.task = .nextIter j)
    (hSelf :
      v.parentResume = .selfSteal →
        cpc = .continuation ∧ cur = j)
    (hThrottle :
      v.parentResume = .throttleSuspend →
        cpc = .suspended ∧ freed)
    (hMoved :
      v.parentResume = .throttleSuspend →
        (pc (j - 1)).moved = true) :
    FlagOk pc cur cpc freed v := by
  constructor
  · intro hFlag
    rw [hV]
    simpa [Task.iters] using hSelf hFlag
  · exact hThrottle
  · intro hFlag i hCase
    have hI : i = j := by
      rw [hV] at hCase
      rcases hCase with hEq | hEq | ⟨r, f, q, hEq, -⟩
      · simp at hEq
      · exact (Task.nextIter.inj hEq).symm
      · simp at hEq
    rw [hI]
    exact hMoved hFlag
  · simp [hV]
  · simp [hV]
  · simp [hV]
  · simp [hV]

/- A promoted iteration enters the runtime. -/
theorem Inv.to_runtime
    (h : Inv s) {w : W} {i : ℤ} {p : IterPc}
    (hTask : (s.worker w).task = .iter i)
    (hN : p.IsLive)
    (hPost : p.posted = (s.pc i).posted)
    (hPlace : p.place = .runtime) :
    Inv ((s.setWorker w
      { s.worker w with task := .runtime i none }).setPc
        i p) := by
  rcases h.of_task_iter hTask with ⟨hExec, hAtt, hOthers⟩
  have hO := IterPc.isLive (h.place_of_executes hExec)
  have hLive := h.of_live (p := p) (w := w)
    (v := { s.worker w with task := .runtime i none })
    (f := (s.blk i).resumeFlags) hO hN hPost
    (by simp [hPlace]) (by simp [hPlace]) hAtt hOthers
    rfl (TaskOk.runtime_none (by simp [hPlace])) ⟨rfl, rfl⟩
    (by simp)
    ((h.flags.flag w).to_runtime hTask hN.isMarked)
  change Inv (((s.setBlock i (s.blk i)).setPc i p).setWorker
    w { s.worker w with task := .runtime i none }) at hLive
  rw [setBlock_self] at hLive
  exact hLive

theorem Inv.switch
    (h : Inv s) {w : W} {i : ℤ} {f : Bool}
    (hTask : (s.worker w).task = .iter i)
    (hPc : s.pc i = .wait f .stall) :
    Inv (s.suspendPipeIterFrame w i f) := by
  apply h.to_runtime hTask (IterPc.isLive_switching f)
  · rw [hPc]
    rfl
  · rfl

theorem Inv.enterFinish
    (h : Inv s) {w : W} {i : ℤ}
    (hTask : (s.worker w).task = .iter i)
    (hPc : s.pc i = .leaving) :
    Inv (s.enterFinish w i) := by
  apply h.to_runtime hTask IterPc.isLive_enter
  · rw [hPc]
    rfl
  · rfl

------------------------------------------------------------
-- Marking an Iteration as Suspended
------------------------------------------------------------

omit [DecidableEq W] in
/- What a worker knows about its iteration in the runtime. -/
theorem Inv.of_task_runtime
    (h : Inv s) {w : W} {i : ℤ} {r : Option ℤ}
    (hTask : (s.worker w).task = .runtime i r) :
    (s.pc i).place = .runtime ∧ s.attachedAt i = false ∧
      ∀ w', w' ≠ w → ¬ s.HoldsIter w' i := by
  have hPlace := (h.tasks.task w).runtime i r hTask
  have hHolds : s.HoldsIter w i := by
    simp [HoldsIter, hTask, Task.iters]
  refine ⟨hPlace, ?_, h.tasks.others hHolds⟩
  by_contra hAtt
  rw [Bool.not_eq_false] at hAtt
  exact h.tasks.not_holds_attached h.core.positions hAtt w
    hHolds

/- A stalled iteration is suspended under its block's lock. -/
theorem Inv.mark
    (h : Inv s) {w : W} {i : ℤ} {f : Bool}
    (hTask : (s.worker w).task = .runtime i none)
    (hPc : s.pc i = .wait f .switching)
    (hStall : (s.blk (i - 1)).stage ≤ (s.blk i).stage) :
    Inv ((s.setBlock i
      { s.blk i with
        iterStatus := .promotedSuspended
        resumeFlags := .suspendedIter
        dataLock := true }).setPc i (.wait f .marked)) := by
  rcases h.of_task_runtime hTask with ⟨-, hAtt, hOthers⟩
  have hO : (s.pc i).IsLive := by
    rw [hPc]
    exact IterPc.isLive_switching f
  have hRing := h.core.positions.inRing hO.ne_notStarted
    hO.freedOwn
  have hOk := h.core.blocks i hRing
  have hPos := h.core.positions
  have hChange := change_setBlock_setPc s hRing
    (.wait f .marked)
    { s.blk i with
      iterStatus := .promotedSuspended
      resumeFlags := .suspendedIter
      dataLock := true }
  apply h.of_change (w := w) (v := s.worker w) _ hChange
    (Function.update_eq_self _ _).symm rfl hOthers
  · rw [hPc]
    rfl
  · rw [hPc]
    rfl
  · simp [hO.moved]
  · rfl
  · rw [hTask]
    simpa [Task.iters] using hOthers
  · rw [hTask]
    exact TaskOk.runtime_none (by simp [IterPc.place,
      WaitPc.place])
  · exact ⟨rfl, rfl⟩
  · simp [hTask]
  · have hFlag := h.flags.flag w
    constructor
    · exact hFlag.selfSteal
    · exact hFlag.throttleSuspend
    · intro hThrottle j hCase
      have hJ : j = i := by
        rcases hCase with hEq | hEq | ⟨r, f, q, hEq, -⟩
        · simp [hTask] at hEq
        · simp [hTask] at hEq
        · rw [hTask] at hEq
          exact (Task.runtime.inj hEq).1.symm
      have hOld := hFlag.travels hThrottle i
        (Or.inr (Or.inr ⟨none, f, .switching, hTask, hPc⟩))
      rw [hJ, hChange.pc, Function.update_of_ne (by omega)]
      exact hOld
    · -- The left counter has its last value, so the
      -- iteration could not stall.
      intro hThrottle
      have hMoved := hFlag.travels hThrottle i
        (Or.inr (Or.inr ⟨none, f, .switching, hTask, hPc⟩))
      have hOne := hPos.one_le hO.ne_finished
      have hLeft := (h.core.blocks _ (hPos.inRing_left
        hO.ne_notStarted hO.freedLeft)).moved (by omega)
          hMoved
      have hEarly := hOk.early (by omega) hO.ne_notStarted
        (by rw [hPc]; rfl) hO.moved
      rw [hLeft] at hStall
      exact absurd (hStall.trans hEarly)
        (final_lt_post.trans post_lt_finish).not_ge
    · simp [hTask]
    · exact hFlag.onTop
    · exact hFlag.offTop
  · apply h.core.change _ hChange
    · rw [hPc]
      rfl
    · intro _
      change BlockOk i _ _ (s.attachedAt i)
        (s.throttledAt i) _
      constructor
      · simpa [hPc, IterPc.freedOwn] using hOk.counter
      · simpa [hPc, IterPc.freedOwn] using hOk.available
      · simpa [hPc, IterPc.freedOwn] using hOk.marks
      · simpa [hPc, IterPc.freedOwn] using hOk.unzeroed
      · simp [IterPc.freedOwn]
      · simp [IterPc.freedOwn]
      · simp
      · simp [IterPc.isMarked, WaitPc.isMarked]
      · simp [hAtt]
      · simp [IterPc.isMarked, WaitPc.isMarked]
      · simp [IterPc.place, WaitPc.place]
      · simp
      · intro hZero _
        exact hOk.iterNum hZero hO.ne_notStarted
      · intro hZero _
        exact hOk.started hZero hO.ne_notStarted
      · intro hZero _ _ _
        exact hOk.early hZero hO.ne_notStarted
          (by rw [hPc]; rfl) hO.moved
      · simp [IterPc.posted]
      · simp [IterPc.moved]
    · intro hOne _
      have hLink := h.core.links i hOne hO.ne_notStarted
        hO.freedLeft
      refine ⟨hLink.cached, ?_⟩
      intro _ hLt
      exact absurd hStall (by simpa using hLt)
    · intro _ hLink
      exact ⟨hLink.cached, fun _ _ => rfl⟩
    · exact hChange.children h.core rfl (by rw [hPc]; rfl)
        rfl
    · apply hPos.move hChange.pc rfl (Or.inl rfl) rfl
        hO.ne_notStarted hO.ne_finished (by simp)
      · simp [hO.freedOwn]
      · simp [hO.freedLeft]
      · left
        rw [hPc]
        rfl

theorem Inv.trySuspend
    (h : Inv s) {w : W} {i : ℤ} {f : Bool}
    (hTask : (s.worker w).task = .runtime i none)
    (hPc : s.pc i = .wait f .switching) :
    Inv (s.trySuspendAtStageWait w i f) := by
  rcases h.of_task_runtime hTask with ⟨-, hAtt, hOthers⟩
  have hO : (s.pc i).IsLive := by
    rw [hPc]
    exact IterPc.isLive_switching f
  have hRing := h.core.positions.inRing hO.ne_notStarted
    hO.freedOwn
  unfold trySuspendAtStageWait
  dsimp only
  split
  · rename_i hStall
    have hStatus := (h.core.blocks i hRing).promoted hAtt
      hO.joined hO.isMarked
    rw [check_eq hStatus]
    have hMark := h.mark hTask hPc (by
      unfold needToStall at hStall
      rw [leftOf_cast] at hStall
      exact of_decide_eq_true hStall)
    apply SameParts.inv (s := (s.setBlock i
      { s.blk i with
        iterStatus := .promotedSuspended
        resumeFlags := .suspendedIter
        dataLock := true }).setPc i (.wait f .marked)) _ hMark
    constructor <;> intros <;> rfl
  · apply h.of_live hO (IterPc.isLive_queued f)
    · rw [hPc]
      rfl
    · simp [IterPc.place, WaitPc.place]
    · simp
    · exact hAtt
    · exact hOthers
    · rfl
    · exact TaskOk.of_nextIter (by simp [IterPc.place,
        WaitPc.place])
    · exact ⟨rfl, rfl⟩
    · simp
    · have hFlag := h.flags.flag w
      apply FlagOk.of_nextIter rfl
      · intro hSelf
        have hOld := hFlag.selfSteal hSelf
        rw [hTask] at hOld
        simpa [Task.iters] using hOld
      · exact hFlag.throttleSuspend
      · intro hThrottle
        rw [Function.update_of_ne (by omega)]
        exact hFlag.travels hThrottle i
          (Or.inr (Or.inr ⟨none, f, .switching, hTask, hPc⟩))

------------------------------------------------------------
-- Waking the Next Iteration
------------------------------------------------------------

/- A suspended iteration is taken for resumption. -/
def PipeState.wake
    (s : PipeState W P R K) (j : ℤ) (f : Bool) :
    PipeState W P R K :=
  { (s.setBlock j
      { s.blk j with
        iterStatus := .promotedActive
        resumeFlags := .resumingIter }).setPc
          j (.wait f .queued) with
    resumptions :=
      Function.update s.resumptions j (s.resumptions j + 1) }

omit [DecidableEq W] in
@[simp] theorem PipeState.wake_pc
    (s : PipeState W P R K) (j : ℤ) (f : Bool) :
    (s.wake j f).pc =
      Function.update s.pc j (.wait f .queued) := rfl

omit [DecidableEq W] in
/- Other blocks are not touched. -/
theorem PipeState.wake_blk_of_ne
    {i j : ℤ}
    (hNe : (j : ZMod K) ≠ i)
    (s : PipeState W P R K) (f : Bool) :
    (s.wake j f).blk i = s.blk i := by
  unfold wake blk
  change Function.update s.block j _ i = s.block i
  rw [Function.update_of_ne hNe.symm]

omit [DecidableEq W] in
theorem Core.marked_of_suspended
    (h : Core s) {j : ℤ}
    (hRing : s.InRing j)
    (hStatus :
      (s.blk j).iterStatus = .promotedSuspended) :
    (s.pc j).isMarked = true := by
  have hOk := h.blocks j hRing
  by_contra hNot
  rw [Bool.not_eq_true] at hNot
  by_cases hDone : s.pc j = .notStarted ∨
      ((s.pc j).freedOwn && s.rightFreed j) = true
  · have hEq := hOk.done hDone
    rw [hStatus] at hEq
    simp at hEq
  · rw [not_or, Bool.not_eq_true] at hDone
    have hEq := hOk.active hDone.1 hDone.2 hNot
    rw [hStatus] at hEq
    simp at hEq

omit [DecidableEq W] in
/-
  A block to the right that is marked as suspended belongs to
  the next iteration.
-/
theorem Core.suspended_right
    (h : Core s) {i : ℤ}
    (hStarted : s.pc i ≠ .notStarted)
    (hOwn : (s.pc i).freedOwn = false)
    (hStatus :
      (s.blk (i + 1)).iterStatus = .promotedSuspended) :
    s.InRing (i + 1) ∧ (s.pc (i + 1)).isMarked = true := by
  have hPos := h.positions
  have hRing := hPos.inRing hStarted hOwn
  rcases hRing with ⟨hLow, hHigh⟩
  by_cases hLast : i = s.cur
  · -- The block still belongs to an iteration before the
    -- ring, which has decremented its left block.
    exfalso
    have hOld : s.blk (i + 1) = s.blk (s.cur + 1 - K) := by
      unfold blk
      rw [hLast]
      simp
    rw [hOld] at hStatus
    have hMark := h.marked_of_suspended
      (j := s.cur + 1 - K) ⟨by omega, by omega⟩ hStatus
    have hFreed := (hPos.window (s.cur - K) le_rfl).2
    unfold rightFreed at hFreed
    rw [show s.cur - K + 1 = s.cur + 1 - K by omega]
      at hFreed
    cases hPc : s.pc (s.cur + 1 - K) with
    | wait f p =>
        rw [hPc] at hFreed
        simp [IterPc.freedLeft] at hFreed
    | _ =>
        rw [hPc] at hMark
        simp [IterPc.isMarked] at hMark
  · have hNext : s.InRing (i + 1) := ⟨by omega, by omega⟩
    exact ⟨hNext, h.marked_of_suspended hNext hStatus⟩

omit [DecidableEq W] in
/-
  `piper_try_resume_next_iteration_helper` on behalf of
  iteration `i`: it changes nothing, or it wakes iteration
  `i + 1`, which was suspended and need not stall any more.
  The state `t` differs from `s` at most in iteration `i`.
-/
theorem tryResume_spec
    (h : Core s) {i : ℤ} {p : IterPc}
    (hStarted : s.pc i ≠ .notStarted)
    (hOwn : (s.pc i).freedOwn = false)
    (hLock : (s.blk (i + 1)).dataLock = false)
    (hNext : t.blk (i + 1) = s.blk (i + 1))
    (hStage : (t.blk i).stage = (s.blk i).stage)
    (hPc : t.pc = Function.update s.pc i p) :
    (t.tryResumeNextIteration i = (t, none) ∧
        ((s.pc (i + 1)).isMarked = true →
          (s.blk i).stage ≤ (s.blk (i + 1)).stage)) ∨
      ∃ f, s.pc (i + 1) = .wait f .suspended ∧
        s.InRing (i + 1) ∧
        (s.blk (i + 1)).stage < (s.blk i).stage ∧
        t.tryResumeNextIteration i =
          (t.wake (i + 1) f, some (i + 1)) := by
  have hBack : leftOf (rightOf (i : ZMod K)) = i := by
    simp [leftOf, rightOf]
  unfold tryResumeNextIteration
  dsimp only
  rw [rightOf_cast, block_cast, hNext]
  split
  · rename_i hCase
    rcases hCase with ⟨hStatus, hStall⟩
    right
    rcases h.suspended_right hStarted hOwn hStatus with
      ⟨hRing, hMark⟩
    have hOk := h.blocks _ hRing
    have hNum : (s.blk (i + 1)).iterNum = i + 1 := by
      have hRingI := h.positions.inRing hStarted hOwn
      have hStarted' : s.pc (i + 1) ≠ .notStarted := by
        intro hEq
        rw [hEq] at hMark
        simp [IterPc.isMarked] at hMark
      have hFin : s.pc (i + 1) ≠ .finished := by
        intro hEq
        rw [hEq] at hMark
        simp [IterPc.isMarked] at hMark
      have hOne := h.positions.one_le hFin
      exact hOk.iterNum (by omega) hStarted'
    cases hAt : s.pc (i + 1) with
    | wait f q =>
        have hSusp : q = .suspended := by
          rw [hAt] at hMark
          cases q with
          | marked =>
              rw [hOk.locked f hAt] at hLock
              simp at hLock
          | suspended => rfl
          | _ => simp [IterPc.isMarked, WaitPc.isMarked]
              at hMark
        subst hSusp
        have hT : t.pc (i + 1) = .wait f .suspended := by
          rw [hPc, Function.update_of_ne (by omega), hAt]
        refine ⟨f, rfl, hRing, ?_, ?_⟩
        · unfold needToStall at hStall
          rw [← rightOf_cast, hBack, block_cast, hStage,
            rightOf_cast, block_cast, hNext] at hStall
          simpa using hStall
        · rw [check_eq (hOk.marked hMark).2]
          unfold wake
          rw [hNext]
          dsimp only
          rw [hNum, setBlock_pc, hT]
          rfl
    | _ =>
        rw [hAt] at hMark
        simp [IterPc.isMarked] at hMark
  · rename_i hCase
    left
    refine ⟨rfl, ?_⟩
    intro hMark
    by_contra hLt
    apply hCase
    have hStarted' : s.pc (i + 1) ≠ .notStarted := by
      intro hEq
      rw [hEq] at hMark
      simp [IterPc.isMarked] at hMark
    have hOwn' : (s.pc (i + 1)).freedOwn = false := by
      cases hAt : s.pc (i + 1) with
      | wait f q => rfl
      | _ =>
          rw [hAt] at hMark
          simp [IterPc.isMarked] at hMark
    have hRing := h.positions.inRing hStarted' hOwn'
    refine ⟨((h.blocks _ hRing).marked hMark).1, ?_⟩
    unfold needToStall
    rw [← rightOf_cast, hBack, block_cast, hStage,
      rightOf_cast, block_cast, hNext]
    simpa using hLt

/-
  Waking a suspended iteration keeps the invariant; `w` is
  the worker that does it.
-/
theorem Inv.wake
    (h : Inv s) {w : W} {j : ℤ} {f : Bool}
    (hPc : s.pc j = .wait f .suspended)
    (hTask : (s.worker w).task ≠ .control ∧
      (s.worker w).task ≠ .nextControl) :
    Inv (s.wake j f) := by
  have hStarted : s.pc j ≠ .notStarted := by simp [hPc]
  have hFinished : s.pc j ≠ .finished := by simp [hPc]
  have hPos := h.core.positions
  have hRing := hPos.inRing hStarted
    (by rw [hPc]; rfl)
  have hOk := h.core.blocks j hRing
  have hAtt : s.attachedAt j = false := by
    by_contra hNot
    rw [Bool.not_eq_false] at hNot
    have hStatus := hOk.standard hNot hStarted
    have hMark := hOk.marked (by rw [hPc]; rfl)
    rw [hMark.1] at hStatus
    simp at hStatus
  have hFree : ∀ w', ¬ s.HoldsIter w' j := by
    intro w'
    apply h.tasks.not_holds <;>
      simp [hPc, IterPc.place, WaitPc.place]
  have hBase := change_setBlock_setPc s hRing
    (.wait f .queued)
    { s.blk j with
      iterStatus := .promotedActive
      resumeFlags := .resumingIter }
  have hChange : Change s (s.wake j f) j (.wait f .queued)
      { s.blk j with
        iterStatus := .promotedActive
        resumeFlags := .resumingIter } :=
    ⟨rfl, hBase.blk, rfl, fun _ _ => rfl,
      fun _ _ => rfl⟩
  have hPcT : ∀ k ∈ (s.worker w).task.iters,
      (s.wake j f).pc k = s.pc k := by
    intro k hK
    rw [hChange.pc_apply, if_neg]
    rintro rfl
    exact hFree w hK
  apply h.of_change (w := w) (v := s.worker w) _ hChange
    (Function.update_eq_self _ _).symm rfl
    (fun w' _ => hFree w')
  · rw [hPc]
    rfl
  · rw [hPc]
    rfl
  · rw [hPc]
    simp [IterPc.moved]
  · rfl
  · intro k hK
    exact h.tasks.others hK
  · apply (h.tasks.task w).congr
    · intro k hK
      exact ⟨hPcT k hK, rfl⟩
    · intro _
      rfl
  · exact ⟨rfl, rfl⟩
  · exact hTask
  · apply (h.flags.flag w).congr hPcT
    · intro k hK
      rw [hChange.pc_apply]
      split
      · rename_i hEq
        rw [hEq, hPc] at hK
        simp [IterPc.moved] at hK
      · exact hK
    · exact id
  · apply h.core.change _ hChange
    · rw [hPc]
      rfl
    · intro _
      change BlockOk j _ _ (s.attachedAt j)
        (s.throttledAt j) _
      constructor
      · simpa [hPc, IterPc.freedOwn] using hOk.counter
      · simpa [hPc, IterPc.freedOwn] using hOk.available
      · simpa [hPc, IterPc.freedOwn] using hOk.marks
      · simpa [hPc, IterPc.freedOwn] using hOk.unzeroed
      · simp [IterPc.freedOwn]
      · simp [IterPc.freedOwn]
      · simp [IterPc.isMarked, WaitPc.isMarked]
      · simp
      · simp [hAtt]
      · simp
      · simp
      · simp
      · intro hZero _
        exact hOk.iterNum hZero hStarted
      · intro hZero _
        exact hOk.started hZero hStarted
      · intro hZero _ _ _
        exact hOk.early hZero hStarted (by rw [hPc]; rfl)
          (by rw [hPc]; rfl)
      · simp [IterPc.posted]
      · simp [IterPc.moved]
    · intro hOne _
      have hLink := h.core.links j hOne hStarted
        (by rw [hPc]; rfl)
      exact ⟨hLink.cached, by
        simp [IterPc.isMarked, WaitPc.isMarked]⟩
    · intro _ hLink
      exact ⟨hLink.cached, fun _ _ => rfl⟩
    · exact hChange.children h.core rfl (by rw [hPc]; rfl)
        rfl
    · apply hPos.move hChange.pc rfl (Or.inl rfl) rfl
        hStarted hFinished (by simp)
      · simp [hPc, IterPc.freedOwn]
      · simp [hPc, IterPc.freedLeft]
      · right
        refine ⟨by simp [IterPc.place, WaitPc.place], hAtt,
          Or.inl ?_⟩
        exact hPos.hasFullFrame hStarted hFinished hAtt

end Piper

end PRacer
