import Mathlib.Tactic.Common
import PRacer.Piper.Handover

/-
  The steps that resume an iteration or its parent keep the
  invariant.

  Main declarations:
    * `Inv.of_alike`
    * `Inv.resumeOnSuspend`, `Inv.iterSetup`
    * `Inv.stealNext`, `Inv.stealParent`
-/

------------------------------------------------------------
-- Going to a Like Position
------------------------------------------------------------

namespace PRacer

namespace Piper

open PipeState

variable {W P R : Type} {K : ℕ} [DecidableEq W]
variable {s t : PipeState W P R K}

/-
  A promoted iteration goes to a like position, while worker
  `w` becomes `v`.
-/
theorem Inv.of_alike
    {i : ℤ} {p : IterPc} {b : Block} {w : W}
    {v : Worker P R}
    (h : Inv s)
    (hChange : Change s t i p b)
    (hWorker : t.worker = Function.update s.worker w v)
    (hControl : t.control = s.control)
    (hAlike : (s.pc i).Alike p)
    (hLeft : p.freedLeft = (s.pc i).freedLeft)
    (hOwn : p.freedOwn = (s.pc i).freedOwn)
    (hJoined : p.joined = (s.pc i).joined)
    (hFinished : s.pc i ≠ .finished)
    (hPlace : p.place ≠ .exiting)
    (hAtt : s.attachedAt i = false)
    (hB : b = { s.blk i with dataLock := b.dataLock })
    (hWakes :
      p.wakes = true ∨
        ((s.pc (i + 1)).isMarked = true →
          (s.blk i).stage ≤ (s.blk (i + 1)).stage))
    (hOthers : ∀ w', w' ≠ w → ¬ s.HoldsIter w' i)
    (hIters :
      ∀ j ∈ v.task.iters, ∀ w', w' ≠ w →
        ¬ s.HoldsIter w' j)
    (hTask :
      TaskOk t.pc s.attachedAt s.control.pc v.task)
    (hParent :
      v.parentResume = (s.worker w).parentResume ∧
        v.flagSetBy = (s.worker w).flagSetBy)
    (hNotControl : v.task ≠ .control ∧ v.task ≠ .nextControl)
    (hFlag :
      FlagOk t.pc s.cur s.control.pc
        (s.Freed (s.cur + 1 - K)) v) :
    Inv t := by
  have hPos := h.core.positions
  have hSame : t.attachedAt i = s.attachedAt i := by
    unfold attachedAt cur
    rw [hControl]
  have hThr : t.throttledAt i = s.throttledAt i := by
    unfold throttledAt cur
    rw [hControl]
  apply h.of_change _ hChange hWorker hControl hOthers
    hLeft hOwn _ _ hIters hTask hParent
    hNotControl hFlag
  · apply h.core.alike hChange _ hAlike hLeft hOwn hSame hThr hB
      hWakes
    · apply hChange.children h.core _ hJoined hSame
      rw [hControl]
    · apply hPos.move hChange.pc hChange.cur
        (Or.inl (by rw [hControl])) (by rw [hControl])
        hAlike.started hFinished hAlike.started'
      · rw [hOwn]
        exact id
      · rw [hLeft]
        exact id
      · exact Or.inr ⟨hPlace, hAtt, Or.inl
          (hPos.hasFullFrame hAlike.started hFinished hAtt)⟩
  · rw [hAlike.moved]
    exact id
  · rw [hB]

theorem IterPc.alike_suspended (f : Bool) :
    (IterPc.wait f .marked).Alike (.wait f .suspended) := by
  constructor <;>
    simp [isMarked, WaitPc.isMarked, posted, moved, joined,
      place, WaitPc.place]

------------------------------------------------------------
-- Resuming on a Suspension
------------------------------------------------------------

omit [DecidableEq W] in
/- The helper writes to the right block only. -/
theorem PipeState.wake_setBlock_setPc
    {i j : ℤ}
    (hNe : (j : ZMod K) ≠ i)
    (s : PipeState W P R K) (b : Block) (p : IterPc)
    (f : Bool) :
    ((s.setBlock i b).setPc i p).wake j f =
      ((s.wake j f).setBlock i b).setPc i p := by
  have hNeInt : j ≠ i := by
    rintro rfl
    exact hNe rfl
  have hBlk : (s.setBlock i b).blk j = s.blk j := by
    unfold blk
    rw [setBlock_block, Function.update_of_ne hNe]
  unfold wake
  rw [blk_setPc, hBlk]
  unfold setBlock setPc
  simp only [PipeState.mk.injEq, true_and, and_true]
  exact ⟨(Function.update_comm hNe _ _ _).symm,
    (Function.update_comm hNeInt _ _ _).symm⟩

omit [DecidableEq W] in
theorem PipeState.setBlock_blk_succ
    (hK : 1 < K) (s : PipeState W P R K) (i : ℤ)
    (b : Block) :
    (s.setBlock i b).blk (i + 1) = s.blk (i + 1) := by
  unfold blk
  rw [setBlock_block, Function.update_of_ne]
  exact cast_ne_succ hK i

/- A suspension during which the next iteration is resumed. -/
theorem Inv.resumeOnSuspend_some
    {w : W} {i : ℤ} {f f' : Bool} {v : Worker P R}
    (h : Inv s)
    (hTask : (s.worker w).task = .runtime i none)
    (hPc : s.pc i = .wait f .marked)
    (hNext : s.pc (i + 1) = .wait f' .suspended)
    (hV : v.task = .nextIter (i + 1))
    (hParent :
      v.parentResume = (s.worker w).parentResume ∧
        v.flagSetBy = (s.worker w).flagSetBy) :
    Inv (((((s.wake (i + 1) f').setBlock i
      { s.blk i with dataLock := false }).setPc i
        (.wait f .suspended)).setWorker w v)) := by
  rcases h.of_task_runtime hTask with ⟨-, hAtt, hOthers⟩
  have hRing := h.core.positions.inRing
    (i := i) (by simp [hPc]) (by rw [hPc]; rfl)
  have hLe := h.core.positions.le_cur (i := i + 1)
    (by simp [hNext])
  have hFlag := h.flags.flag w
  have hNe := cast_ne_succ h.core.positions.ring i
  have hFree : ∀ w', ¬ s.HoldsIter w' (i + 1) := by
    intro w'
    apply h.tasks.not_holds <;>
      simp [hNext, IterPc.place, WaitPc.place]
  have hWake := h.wake (w := w) hNext (by simp [hTask])
  have hPcWake : (s.wake (i + 1) f').pc i = s.pc i := by
    rw [wake_pc, Function.update_of_ne (by omega)]
  have hPcNext :
      (s.wake (i + 1) f').pc (i + 1) = .wait f' .queued := by
    rw [wake_pc, Function.update_self]
  have hBase := change_setBlock_setPc (s.wake (i + 1) f')
    hRing (.wait f .suspended)
    { s.blk i with dataLock := false }
  apply hWake.of_alike (w := w) (v := v) (i := i)
    (p := .wait f .suspended)
    (b := { s.blk i with dataLock := false })
  · exact ⟨rfl, hBase.blk, rfl, fun _ _ => rfl,
      fun _ _ => rfl⟩
  · rfl
  · rfl
  · rw [hPcWake, hPc]
    exact IterPc.alike_suspended f
  · rw [hPcWake, hPc]
    rfl
  · rw [hPcWake, hPc]
    rfl
  · rw [hPcWake, hPc]
    rfl
  · simp [hPcWake, hPc]
  · simp [IterPc.place, WaitPc.place]
  · exact hAtt
  · rw [wake_blk_of_ne hNe]
  · right
    rw [hPcNext]
    simp [IterPc.isMarked, WaitPc.isMarked]
  · exact hOthers
  · rw [hV]
    intro j hJ w' _
    simp only [Task.iters, List.mem_singleton] at hJ
    rw [hJ]
    exact hFree w'
  · rw [hV]
    apply TaskOk.of_nextIter
    rw [setWorker_pc, setPc_pc,
      Function.update_of_ne (by omega)]
    exact congrArg IterPc.place hPcNext
  · exact hParent
  · simp [hV]
  · apply FlagOk.of_nextIter hV
    · -- The promoted parent belongs to this iteration, which
      -- has no right neighbour yet.
      rw [hParent.1]
      intro hSelf
      have hOld := (hFlag.selfSteal hSelf).2
      rw [hTask] at hOld
      simp only [Task.iters, Option.toList_none,
        List.mem_singleton] at hOld
      omega
    · intro hThrottle
      rw [hParent.1] at hThrottle
      have hOld := hFlag.unmarked hThrottle i none hTask
      rw [hPc] at hOld
      exact absurd hOld (by simp [IterPc.isMarked,
        WaitPc.isMarked])
    · intro hThrottle
      rw [hParent.1] at hThrottle
      have hOld := hFlag.unmarked hThrottle i none hTask
      rw [hPc] at hOld
      exact absurd hOld (by simp [IterPc.isMarked,
        WaitPc.isMarked])

/- A suspension after which the worker has no frame. -/
theorem Inv.resumeOnSuspend_none
    {w : W} {i : ℤ} {f : Bool} {v : Worker P R}
    (h : Inv s)
    (hTask : (s.worker w).task = .runtime i none)
    (hPc : s.pc i = .wait f .marked)
    (hStall :
      (s.pc (i + 1)).isMarked = true →
        (s.blk i).stage ≤ (s.blk (i + 1)).stage)
    (hNone : (s.worker w).parentResume = .noParent)
    (hV : v.task = .idle)
    (hParent :
      v.parentResume = (s.worker w).parentResume ∧
        v.flagSetBy = (s.worker w).flagSetBy) :
    Inv (((s.setBlock i
      { s.blk i with dataLock := false }).setPc i
        (.wait f .suspended)).setWorker w v) := by
  rcases h.of_task_runtime hTask with ⟨-, hAtt, hOthers⟩
  have hRing := h.core.positions.inRing
    (i := i) (by simp [hPc]) (by rw [hPc]; rfl)
  have hBase := change_setBlock_setPc s
    hRing (.wait f .suspended)
    { s.blk i with dataLock := false }
  apply h.of_alike (w := w) (v := v) (i := i)
    (p := .wait f .suspended)
    (b := { s.blk i with dataLock := false })
  · exact ⟨rfl, hBase.blk, rfl, fun _ _ => rfl,
      fun _ _ => rfl⟩
  · rfl
  · rfl
  · rw [hPc]
    exact IterPc.alike_suspended f
  · rw [hPc]
    rfl
  · rw [hPc]
    rfl
  · rw [hPc]
    rfl
  · simp [hPc]
  · simp [IterPc.place, WaitPc.place]
  · exact hAtt
  · rfl
  · exact Or.inr hStall
  · exact hOthers
  · simp [hV, Task.iters]
  · rw [hV]
    exact TaskOk.of_idle
  · exact hParent
  · simp [hV]
  · apply FlagOk.of_noParent
    · rw [hParent.1, hNone]
    · simp [hV]
    · simp [hV]

/-
  `piper_try_resume_next_iter_on_suspend`: where it hands out
  the parent, the worker has promoted it.
-/
theorem Inv.resumeOnSuspend
    {w : W} {i : ℤ} {f : Bool}
    (h : Inv s)
    (hTask : (s.worker w).task = .runtime i none)
    (hPc : s.pc i = .wait f .marked)
    (hLock : (s.block (rightOf i)).dataLock = false) :
    Inv (s.tryResumeNextIterOnSuspend w i f) ∧
      (s.tryResumeNextIterOnSuspend w i f).failure =
        s.failure := by
  have hRing := h.core.positions.ring
  have hNe := cast_ne_succ hRing i
  rw [rightOf_cast, block_cast] at hLock
  have hSpec := tryResume_spec
    (t := (s.setBlock i
      { s.blk i with dataLock := false }).setPc i
        (.wait f .suspended))
    h.core (i := i) (by simp [hPc]) (by rw [hPc]; rfl) hLock
    (setBlock_blk_succ hRing s i _) (by simp) rfl
  unfold tryResumeNextIterOnSuspend
  rcases hSpec with ⟨hNone, hStall⟩ | ⟨f', hNext, -, -, hSome⟩
  · dsimp only at hNone ⊢
    rw [hNone]
    dsimp only
    split
    · rename_i hParent
      refine ⟨?_, rfl⟩
      exact h.resumeOnSuspend_none hTask hPc hStall hParent
        rfl ⟨rfl, rfl⟩
    · rename_i hParent
      refine ⟨?_, rfl⟩
      have hSelf :
          (s.worker w).parentResume = .selfSteal := by
        cases hFlag : (s.worker w).parentResume with
        | noParent => exact absurd hFlag hParent
        | selfSteal => rfl
        | throttleSuspend =>
            have hMark :=
              (h.flags.flag w).unmarked hFlag i none hTask
            rw [hPc] at hMark
            simp [IterPc.isMarked, WaitPc.isMarked] at hMark
      have hCpc := ((h.flags.flag w).selfSteal hSelf).1
      rcases h.takeSelf hSelf with ⟨hTaken, hFree⟩
      have hIdle := hTaken.resumeOnSuspend_none (w := w)
        (i := i) (f := f)
        (v := { s.worker w with
          iterFfOnTop := false
          parentResume := .noParent
          task := .idle })
        (by simp [hTask]) hPc hStall (by simp) rfl (by simp)
      have hHand := hIdle.handControl (w := w) (by simp) (by
          intro w' hEq
          unfold HoldsControl
          rw [setWorker_worker, Function.update_of_ne hEq]
          rw [setPc_worker, setBlock_worker,
            setWorker_worker, Function.update_of_ne hEq]
          exact hFree w' hEq)
        (Or.inl hCpc)
      convert hHand using 1
      simp [PipeState.handControl, setWorker, setPc, setBlock,
        setControl, blk]
  · dsimp only at hSome ⊢
    rw [hSome, wake_setBlock_setPc hNe]
    dsimp only
    refine ⟨?_, rfl⟩
    exact h.resumeOnSuspend_some hTask hPc hNext rfl
      ⟨rfl, rfl⟩

------------------------------------------------------------
-- Taking up an Iteration
------------------------------------------------------------

/- A queued iteration stands in a wait. -/
theorem IterPc.isLive_of_queued
    {p : IterPc} (hPlace : p.place = .queued) :
    p.IsLive := by
  cases p with
  | wait f q =>
      cases q <;>
        simp [place, WaitPc.place] at hPlace
      exact IterPc.isLive_queued f
  | _ => simp [place] at hPlace

omit [DecidableEq W] in
/- What a worker knows about the iteration in its queue. -/
theorem Inv.of_task_nextIter
    {w : W} {i : ℤ}
    (h : Inv s)
    (hTask : (s.worker w).task = .nextIter i) :
    (s.pc i).place = .queued ∧ s.attachedAt i = false ∧
      (∀ w', w' ≠ w → ¬ s.HoldsIter w' i) ∧
      (s.blk i).resumeFlags = .resumingIter := by
  have hPlace := (h.tasks.task w).nextIter i hTask
  have hHolds : s.HoldsIter w i := by
    simp [HoldsIter, hTask, Task.iters]
  have hLive := IterPc.isLive_of_queued hPlace
  refine ⟨hPlace, ?_, h.tasks.others hHolds, ?_⟩
  · by_contra hAtt
    rw [Bool.not_eq_false] at hAtt
    exact h.tasks.not_holds_attached h.core.positions hAtt w
      hHolds
  · exact (h.core.blocks i (h.core.positions.inRing
      hLive.ne_notStarted hLive.freedOwn)).queued hPlace

/- `piper_sched_iter_setup_for_execution`. -/
theorem Inv.iterSetup
    {w : W} {i : ℤ} {f : Bool}
    (h : Inv s)
    (hTask : (s.worker w).task = .nextIter i)
    (hPc : s.pc i = .wait f .queued) :
    Inv (s.iterSetup w i f) ∧
      (s.iterSetup w i f).failure = s.failure := by
  rcases h.of_task_nextIter hTask with
    ⟨-, hAtt, hOthers, hFlags⟩
  have hO : (s.pc i).IsLive := by
    rw [hPc]
    exact IterPc.isLive_queued f
  have hFlag := h.flags.flag w
  unfold PipeState.iterSetup
  rw [check_eq hFlags]
  refine ⟨?_, rfl⟩
  apply h.of_live (p := .wait f .check) hO
    (IterPc.isLive rfl)
  · rw [hPc]
    rfl
  · simp [IterPc.place, WaitPc.place]
  · simp [IterPc.place, WaitPc.place]
  · exact hAtt
  · exact hOthers
  · rfl
  · constructor
    · intro j hJ
      rw [← Task.iter.inj hJ, Function.update_self]
      exact ⟨rfl, hAtt⟩
    · simp
    · simp
    · simp
    · simp
    · simp
  · exact ⟨rfl, rfl⟩
  · simp
  · constructor
    · intro hSelf
      have hOld := hFlag.selfSteal hSelf
      rw [hTask] at hOld
      exact hOld
    · exact hFlag.throttleSuspend
    · intro hThrottle j hCase
      have hJ : j = i := by
        rcases hCase with hEq | hEq | ⟨r, f', q, hEq, -⟩
        · exact (Task.iter.inj hEq).symm
        · simp at hEq
        · simp at hEq
      rw [hJ, Function.update_of_ne (by omega)]
      exact hFlag.travels hThrottle i (Or.inr (Or.inl hTask))
    · simp
    · simp
    · simp
    · simp

/-
  The second half of `piper_try_implicit_steals`: a thief
  takes the suspended iteration after the victim's.
-/
theorem Inv.stealNext
    {u w : W} {i : ℤ}
    (h : Inv s)
    (hThief : (s.worker u).task = .idle)
    (hTask : (s.worker w).task = .iter i)
    (hLock : (s.block (rightOf i)).dataLock = false) :
    Inv (s.stealNext u i) ∧
      (s.stealNext u i).failure = s.failure := by
  rcases h.of_task_iter hTask with ⟨hExec, -, -⟩
  have hLive := IterPc.isLive (h.place_of_executes hExec)
  rw [rightOf_cast, block_cast] at hLock
  have hSpec := tryResume_spec (t := s) (p := s.pc i)
    h.core hLive.ne_notStarted hLive.freedOwn hLock rfl rfl
    (Function.update_eq_self _ _).symm
  have hNone := (h.flags.flag u).noParent (Or.inl hThief)
  unfold PipeState.stealNext
  rcases hSpec with ⟨hSame, -⟩ | ⟨f', hNext, -, -, hSome⟩
  · rw [hSame]
    exact ⟨h, rfl⟩
  · rw [hSome]
    refine ⟨?_, rfl⟩
    have hWake := h.wake (w := u) hNext (by simp [hThief])
    apply hWake.giveIter (j := i + 1)
    · rw [wake_pc, Function.update_self]
      rfl
    · intro w' _
      exact h.tasks.not_holds
        (by simp [hNext, IterPc.place, WaitPc.place])
        (by simp [hNext, IterPc.place, WaitPc.place])
        (by simp [hNext, IterPc.place, WaitPc.place]) w'
    · rfl
    · exact ⟨rfl, rfl⟩
    · intro hSelf
      exact absurd (hSelf.symm.trans hNone) (by simp)
    · intro hThrottle
      exact absurd (hThrottle.symm.trans hNone) (by simp)

/-
  The first half of `piper_try_implicit_steals`: a thief takes
  the parent from the victim's deque.
-/
theorem Inv.stealParent
    {u w : W}
    (h : Inv s)
    (hThief : (s.worker u).task = .idle)
    (hFlag : (s.worker w).parentResume ≠ .noParent) :
    Inv (s.stealParent u w) ∧
      (s.stealParent u w).failure = s.failure := by
  have hNone := (h.flags.flag u).noParent (Or.inl hThief)
  rcases takeParent_spec h hFlag with
    ⟨t, hTaken, hInv, hFailure, hWorker, -, -, hFree, hCpc⟩
  unfold PipeState.stealParent
  rw [hTaken]
  refine ⟨?_, hFailure⟩
  have hSame := SameParts.foundWork t u
  apply (hSame.inv hInv).handControl
  · rw [hSame.parentResume, hWorker, Function.update_apply]
    split
    · rfl
    · exact hNone
  · intro w' _ hHolds
    apply hFree w'
    unfold HoldsControl Worker.HoldsControl at hHolds ⊢
    rw [hSame.task, hSame.parentResume] at hHolds
    exact hHolds
  · rcases hCpc with hCase | hCase
    · exact Or.inl hCase
    · exact Or.inr (Or.inl hCase)

end Piper

end PRacer
