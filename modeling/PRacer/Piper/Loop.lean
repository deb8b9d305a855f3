import Mathlib.Data.Int.Interval
import Mathlib.Tactic.Common
import PRacer.Piper.Exit

/-
  The steps that promote the current iteration, and those of
  the control frame between two iterations, keep the
  invariant.

  Main declarations:
    * `Inv.install`, `Inv.promote`, `Inv.steal`
    * `Inv.throttle`, `Inv.suspendControl`,
      `Inv.passThrottle`
    * `Inv.sync`, `Inv.setupControl`
-/

------------------------------------------------------------
-- Promoting the Current Iteration
------------------------------------------------------------

namespace PRacer

namespace Piper

open PipeState

variable {W P R : Type} {K : ℕ}
variable {s t : PipeState W P R K}

/- An attached child becomes a full frame. -/
theorem BlockOk.promote
    {i : ℤ} {p : IterPc} {right throttled : Bool} {b : Block}
    (h : BlockOk i p right true throttled b)
    (hLive : p.IsLive)
    (hPlace : p.place = .executing) :
    BlockOk i p right false throttled
      { b with
        iterStatus := .promotedActive
        resumeFlags := .normalCilk } := by
  constructor
  · exact h.counter
  · exact h.available
  · exact h.marks
  · exact h.unzeroed
  · exact h.zeroed
  · simp [hLive.freedOwn, hLive.ne_notStarted]
  · simp [hLive.isMarked]
  · simp
  · simp
  · simp
  · simp [hPlace]
  · intro f hEq
    rw [hEq] at hPlace
    simp [IterPc.place, WaitPc.place] at hPlace
  · exact h.iterNum
  · exact h.started
  · exact h.early
  · exact h.posted
  · exact h.moved

variable [DecidableEq W]

/-
  `piper_install_iteration_frame`: the victim keeps the
  current iteration, and nobody has the control frame but as
  a parent on the victim's deque.
-/
theorem Inv.install
    {u w : W}
    (h : Inv s)
    (hTask : (s.worker w).task = .control)
    (hCpc : s.control.pc = .child true) :
    Inv (s.installIterationFrame u w) ∧
      (s.installIterationFrame u w).failure = s.failure ∧
      (s.installIterationFrame u w).worker =
        Function.update s.worker w
          { s.worker w with
            task := .iter s.cur
            iterFfOnTop := true
            parentResume :=
              if u = w then .selfSteal else .noParent } ∧
      (s.installIterationFrame u w).control.pc =
        .continuation := by
  have hPos := h.core.positions
  have hCurPos := hPos.curPos
  have hK := hPos.ring
  have hFlag := h.flags.flag w
  rcases h.of_task_control hTask with
    ⟨hHeld, hNoResume, hNormal, -⟩
  have hPlace := hPos.child true hCpc
  have hLive := IterPc.isLive hPlace
  have hRing : s.InRing s.cur := ⟨by omega, le_rfl⟩
  have hOk := h.core.blocks _ hRing
  have hAtt : ∀ j, s.attachedAt j = decide (j = s.cur) := by
    intro j
    simp [attachedAt, hCpc, ControlPc.attached]
  have hStandard := hOk.standard
    (by rw [hAtt, decide_eq_true rfl]) hLive.ne_notStarted
  have hNone := hFlag.noParent (Or.inr (Or.inl hTask))
  have hOffTop := hFlag.offTop hTask
  have hRunning := h.flags.running (by simp [hCpc])
  have hNotChild : s.cur ∉ s.control.children := by
    rw [h.core.children s.cur, hAtt]
    simp
  unfold installIterationFrame
  dsimp only
  rw [check_eq ⟨hStandard, hNone, hOffTop⟩]
  refine ⟨?_, rfl, by rw [hNone]; rfl, rfl⟩
  generalize hT : setControl _ _ = t
  have hControl : t.control =
      { s.control with
        hasFullFrame := true
        joinCounter := s.control.joinCounter + 1
        children := insert s.cur s.control.children
        pc := .continuation } := by
    rw [← hT]
    rfl
  have hWorker : t.worker = Function.update s.worker w
      { s.worker w with
        task := .iter s.cur
        iterFfOnTop := true
        parentResume :=
          if u = w then .selfSteal
          else (s.worker w).parentResume } := by
    rw [← hT]
    rfl
  have hCur : t.cur = s.cur := by
    unfold cur
    rw [hControl]
  have hAttT : ∀ j, t.attachedAt j = false := by
    intro j
    unfold attachedAt
    rw [hControl]
    rfl
  have hThr : ∀ j, t.throttledAt j = s.throttledAt j := by
    intro j
    rw [throttledAt_eq_false (s := s) (by rw [hCpc]; rfl),
      throttledAt_eq_false]
    rw [hControl]
    rfl
  have hChange : Change s t s.cur (s.pc s.cur)
      { s.blk s.cur with
        iterStatus := .promotedActive
        resumeFlags := .normalCilk } := by
    constructor
    · rw [← hT, Function.update_eq_self]
      rfl
    · intro j hJ
      rw [← hT, blk_setControl, blk_setWorker,
        blk_setBlock_of_inRing hRing hJ]
    · exact hCur
    · intro j hNe
      rw [hAttT, hAtt, decide_eq_false hNe]
    · intro j _
      exact hThr j
  have hPcT : t.pc = s.pc := by
    rw [hChange.pc, Function.update_eq_self]
  apply h.of_holder _ hWorker
  · intro w' j _ hHolds
    rw [hPcT]
    refine ⟨rfl, ?_⟩
    rw [hAttT, hAtt, decide_eq_false]
    rintro rfl
    apply h.tasks.not_holds_attached hPos _ w' hHolds
    rw [hAtt, decide_eq_true rfl]
  · intro j hJ w' _
    simp only [Task.iters, List.mem_singleton] at hJ
    rw [hJ]
    apply h.tasks.not_holds_attached hPos
    rw [hAtt, decide_eq_true rfl]
  · constructor
    · intro j hJ
      rw [← Task.iter.inj hJ, hPcT, hAttT]
      exact ⟨hPlace, rfl⟩
    · simp
    · simp
    · simp
    · simp
    · simp
  · exact hHeld
  · intro w' _
    exact hNoResume w'
  · constructor
    · intro _
      rw [hCur, hControl]
      simp [Task.iters]
    · intro hThrottle
      dsimp only at hThrottle
      rw [hNone] at hThrottle
      split at hThrottle <;> simp at hThrottle
    · intro hThrottle
      dsimp only at hThrottle
      rw [hNone] at hThrottle
      split at hThrottle <;> simp at hThrottle
    · simp
    · simp
    · simp
    · simp
  · rw [hControl]
    constructor
    · simp [hNormal]
    · simp [hNormal]
    · simp [hNormal]
    · simp
    · simp
    · intro _
      dsimp only
      rw [Finset.card_insert_of_notMem hNotChild]
      push_cast
      omega
    · simp
  · apply Continues.of_not_throttled <;> simp [hControl]
  · apply h.core.change _ hChange
    · rfl
    · intro _
      rw [hAttT, hThr]
      rw [hAtt, decide_eq_true rfl] at hOk
      exact hOk.promote hLive hPlace
    · intro hOne _
      have hLink := h.core.links _ hOne hLive.ne_notStarted
        hLive.freedLeft
      exact ⟨hLink.cached, hLink.wakes⟩
    · intro _ hLink
      exact ⟨hLink.cached, hLink.wakes⟩
    · intro j
      rw [hControl, hPcT, hAttT]
      dsimp only
      rw [Finset.mem_insert, h.core.children j, hAtt]
      by_cases hEq : j = s.cur
      · simp [hEq, hLive.joined]
      · simp [hEq]
    · apply hPos.moveCurrent hChange.pc hCur
      · intro _
        rw [hControl]
      · simp [hControl, ControlPc.ahead, hLive.ne_notStarted]
      · simp [hControl]
      · simp [hControl, hPlace]
      · simp [hControl]
      · exact id
      · exact id
      · simp [hControl]

/- `piper_sched_promote_rightmost_iter`. -/
theorem Inv.promote
    {w : W}
    (h : Inv s)
    (hTask : (s.worker w).task = .control)
    (hCpc : s.control.pc = .child true) :
    Inv (s.promoteRightmostIter w) ∧
      (s.promoteRightmostIter w).failure = s.failure := by
  rcases h.install (u := w) hTask hCpc with
    ⟨hInv, hFailure, -, -⟩
  refine ⟨?_, hFailure⟩
  apply SameParts.inv _ hInv
  constructor <;> intros <;> rfl

/- `detach_for_steal` of the control frame. -/
theorem Inv.steal
    {u w : W}
    (h : Inv s)
    (hThief : (s.worker u).task = .idle)
    (hTask : (s.worker w).task = .control)
    (hCpc : s.control.pc = .child true) :
    Inv (s.stealControl u w) ∧
      (s.stealControl u w).failure = s.failure := by
  have hNe : u ≠ w := by
    rintro rfl
    rw [hThief] at hTask
    simp at hTask
  have hNone := (h.flags.flag u).noParent (Or.inl hThief)
  rcases h.of_task_control hTask with ⟨hHeld, -⟩
  rcases h.install (u := u) hTask hCpc with
    ⟨hInv, hFailure, hWorker, hPc⟩
  refine ⟨?_, hFailure⟩
  have hHand := hInv.handControl (w := u)
    (by rw [hWorker, Function.update_of_ne hNe, hNone])
    (by
      intro w' hNe'
      unfold HoldsControl
      rw [hWorker, Function.update_apply]
      split
      · simp [Worker.HoldsControl]
      · rename_i hNeW
        exact hHeld w' hNeW)
    (Or.inl hPc)
  apply SameParts.inv _ hHand
  unfold stealControl PipeState.handControl
  constructor <;> try rfl
  all_goals
    intro w'
    by_cases hW : w' = u
    · rw [hW]
      simp
    · simp [hW]

------------------------------------------------------------
-- The Throttle Point
------------------------------------------------------------

omit [DecidableEq W] in
/- The decrement of the control frame. -/
theorem BlockOk.throttle
    {i : ℤ} {p : IterPc} {right attached : Bool} {b : Block}
    (h : BlockOk i p right attached false b) :
    BlockOk i p right attached true b.startThrottlePoint := by
  have hCounter :
      b.cleanupCounter - cleanupThrottleVal =
        counterOf p.freedOwn right true := by
    rw [h.counter, counterOf_throttled]
  have hZeroed : b.startThrottlePoint.zeroedBy =
      if (p.freedOwn && right) = true then [.control]
      else [] := by
    have hOld := h.unzeroed (Bool.and_false _)
    change (if b.cleanupCounter - cleanupThrottleVal ≤ 0
      then _ else _) = _
    rw [hCounter, hOld]
    simp only [counterOf_le_zero, Bool.and_true]
  constructor
  · exact hCounter
  · exact h.available
  · exact h.marks
  · intro hAll
    rw [Bool.and_true] at hAll
    rw [hZeroed, hAll]
    rfl
  · intro hAll
    rw [Bool.and_true] at hAll
    rw [hZeroed, if_pos hAll]
    exact ⟨.control, rfl, by simp⟩
  · exact h.done
  · exact h.marked
  · exact h.active
  · exact h.standard
  · exact h.promoted
  · exact h.queued
  · exact h.locked
  · exact h.iterNum
  · exact h.started
  · exact h.early
  · exact h.posted
  · exact h.moved

omit [DecidableEq W] in
/- The control frame decrements the next block. -/
theorem Core.throttle
    (h : Core s)
    (hOld :
      s.control.pc = .continuation ∨
        s.control.pc = .slowPath)
    (hNew :
      t.control.pc = .passing ∨ t.control.pc = .suspended)
    (hPassing :
      t.control.pc = .passing → s.Freed (s.cur + 1 - K))
    (hBlock :
      t.block =
        (s.setBlock ((s.cur + 1 - K : ℤ) : ZMod K)
          (s.blk (s.cur + 1 - K)).startThrottlePoint).block)
    (hPc : t.pc = s.pc)
    (hCur : t.cur = s.cur)
    (hFull :
      t.control.hasFullFrame = s.control.hasFullFrame)
    (hChildren :
      t.control.children = s.control.children) :
    Core t := by
  have hK := h.positions.ring
  have hRing : s.InRing (s.cur + 1 - K) :=
    ⟨by omega, by omega⟩
  have hAttS : ∀ j, s.attachedAt j = false := by
    intro j
    rcases hOld with hCpc | hCpc <;>
      simp [attachedAt, hCpc, ControlPc.attached]
  have hAttT : ∀ j, t.attachedAt j = false := by
    intro j
    rcases hNew with hCpc | hCpc <;>
      simp [attachedAt, hCpc, ControlPc.attached]
  have hThrS : ∀ j, s.throttledAt j = false := by
    apply throttledAt_eq_false
    rcases hOld with hCpc | hCpc <;> rw [hCpc] <;> rfl
  have hThrT : ∀ j, t.throttledAt j =
      decide (j = s.cur + 1 - K) := by
    intro j
    unfold throttledAt
    rw [hCur]
    rcases hNew with hCpc | hCpc <;>
      simp [hCpc, ControlPc.throttled]
  have hChange : Change s t (s.cur + 1 - K)
      (s.pc (s.cur + 1 - K))
      (s.blk (s.cur + 1 - K)).startThrottlePoint := by
    constructor
    · rw [hPc, Function.update_eq_self]
    · intro j hJ
      have hSet := blk_setBlock_of_inRing hRing hJ
        (s.blk (s.cur + 1 - K)).startThrottlePoint
      unfold blk at hSet ⊢
      rw [hBlock]
      exact hSet
    · exact hCur
    · intro j _
      rw [hAttS, hAttT]
    · intro j hNe
      rw [hThrS, hThrT, decide_eq_false hNe]
  apply h.change _ hChange
  · rfl
  · intro _
    have hOk := h.blocks _ hRing
    rw [hThrS, hAttS] at hOk
    rw [hAttT, hThrT, decide_eq_true rfl]
    exact hOk.throttle
  · intro hOne hFree
    have hStarted : s.pc (s.cur + 1 - K) ≠ .notStarted :=
      h.positions.started _ (by omega)
    have hLink := h.links _ hOne hStarted hFree
    exact ⟨hLink.cached, hLink.wakes⟩
  · intro _ hLink
    exact ⟨hLink.cached, hLink.wakes⟩
  · intro j
    rw [hChildren, hPc, hAttT, h.children j, hAttS]
  · apply h.positions.of_control hPc hCur hFull
    · rcases hOld with hCpc | hCpc <;>
        rcases hNew with hCpc' | hCpc' <;>
        simp [hCpc, hCpc', ControlPc.attached]
    · rcases hOld with hCpc | hCpc <;>
        rcases hNew with hCpc' | hCpc' <;>
        simp [hCpc, hCpc', ControlPc.ahead]
    · rcases hNew with hCpc' | hCpc' <;> simp [hCpc']
    · rcases hOld with hCpc | hCpc <;>
        rcases hNew with hCpc' | hCpc' <;>
        simp [hCpc, hCpc']
    · exact hPassing

omit [DecidableEq W] in
/- What the counter of the next block tells. -/
theorem Core.next_counter
    (h : Core s)
    (hThr : s.control.pc.throttled = false) :
    (s.blk (s.cur + 1 - K)).cleanupCounter =
        counterOf (s.pc (s.cur + 1 - K)).freedOwn
          (s.rightFreed (s.cur + 1 - K)) false ∧
      ((s.blk (s.cur + 1 - K)).blockStatus = .available ↔
        s.Freed (s.cur + 1 - K)) := by
  have hK := h.positions.ring
  have hOk := h.blocks (s.cur + 1 - K) ⟨by omega, by omega⟩
  rw [throttledAt_eq_false hThr] at hOk
  exact ⟨hOk.counter, hOk.available⟩

omit [DecidableEq W] in
/- Both are through, and the control frame is the last. -/
theorem Core.zeroedBy_control
    (h : Core s)
    (hThr : s.control.pc.throttled = false)
    (hFreed : s.Freed (s.cur + 1 - K)) :
    (s.blk (s.cur + 1 - K)).startThrottlePoint.zeroedBy =
      [.control] := by
  have hK := h.positions.ring
  have hOk := h.blocks (s.cur + 1 - K) ⟨by omega, by omega⟩
  rw [throttledAt_eq_false hThr] at hOk
  have hOld := hOk.unzeroed (Bool.and_false _)
  have hZero :
      (s.blk (s.cur + 1 - K)).cleanupCounter -
        cleanupThrottleVal ≤ 0 := by
    rw [hOk.counter, ← counterOf_throttled,
      counterOf_le_zero, hFreed.1, hFreed.2]
    rfl
  change (if _ - cleanupThrottleVal ≤ 0 then _ else _) = _
  rw [if_pos hZero, hOld]

/- `__cilkrts_piper_throttle`: its assertions hold. -/
theorem Inv.throttle
    {w : W}
    (h : Inv s)
    (hTask : (s.worker w).task = .control)
    (hCpc : s.control.pc = .continuation) :
    Inv s.throttle ∧ s.throttle.failure = s.failure := by
  have hPos := h.core.positions
  have hK := hPos.ring
  have hCurPos := hPos.curPos
  have hRunning := h.flags.running (by simp [hCpc])
  rcases h.core.next_counter (by rw [hCpc]; rfl) with
    ⟨hCounter, -⟩
  have hRing : s.InRing (s.cur + 1 - K) :=
    ⟨by omega, by omega⟩
  have hReady :
      (s.blk (s.cur + 1 - K)).readyForReuse = true ↔
        s.Freed (s.cur + 1 - K) := by
    unfold Block.readyForReuse Freed
    rw [decide_eq_true_iff, hCounter, counterOf_le_one,
      Bool.and_eq_true]
  unfold PipeState.throttle
  dsimp only
  simp only [nextBlock_eq, block_cast]
  split
  · rename_i hReuse
    have hFreed := hReady.mp hReuse
    have hZero :
        (s.blk (s.cur + 1 - K)).startThrottlePoint.cleanupCounter
          = 0 := by
      change (s.blk (s.cur + 1 - K)).cleanupCounter -
        cleanupThrottleVal = 0
      rw [hCounter, hFreed.1, hFreed.2]
      rfl
    have hResume :
        (s.blk (s.cur + 1 -
          K)).startThrottlePoint.readyToResumeAfterThrottle
            = true := by
      apply decide_eq_true
      rw [hZero]
    rw [check_eq ⟨hZero.ge, hResume⟩]
    refine ⟨?_, rfl⟩
    generalize hT : setControl _ _ = t
    have hControl : t.control =
        { s.control with
          pc := .passing
          continuedBy := .control } := by
      rw [← hT]
      rfl
    have hCur : t.cur = s.cur := by
      unfold cur
      rw [hControl]
    have hAttT : ∀ j, t.attachedAt j = s.attachedAt j := by
      intro j
      simp [attachedAt, hControl, hCpc, ControlPc.attached]
    have hCore : Core t := by
      apply h.core.throttle (Or.inl hCpc)
      · rw [hControl]
        exact Or.inl rfl
      · intro _
        exact hFreed
      · rw [← hT]
        rfl
      · rw [← hT]
        rfl
      · exact hCur
      · rw [hControl]
      · rw [hControl]
    have hOk := hCore.blocks (s.cur + 1 - K) (by
      unfold InRing
      rw [hCur]
      exact hRing)
    apply h.of_control hTask hCore
    · rw [← hT]
      rfl
    · intro j
      left
      rw [← hT]
      rfl
    · intro j
      exact Or.inl (hAttT j)
    · simp [hControl]
    · rw [hControl]
    · rw [hControl]
      exact hRunning
    · intro _
      rw [hCur, hControl, ← hT]
      rw [blk_setControl, blk_setBlock_self]
      exact h.core.zeroedBy_control (by rw [hCpc]; rfl)
        hFreed
  · rename_i hReuse
    have hFull : s.control.hasFullFrame = true := by
      by_contra hNone
      rw [Bool.not_eq_true] at hNone
      have hAll : ∀ j, j ≤ s.cur → s.pc j = .finished := by
        intro j hJ
        apply hPos.unstolen hNone j hJ
        · intro hEq
          by_cases hLast : j = s.cur
          · rw [hLast, hPos.current, hCpc] at hEq
            simp [ControlPc.ahead] at hEq
          · exact hPos.started j (by omega) hEq
        · simp [attachedAt, hCpc, ControlPc.attached]
      apply hReuse
      apply hReady.mpr
      unfold Freed rightFreed
      rw [hAll _ (by omega), hAll _ (by omega)]
      exact ⟨rfl, rfl⟩
    rw [check_eq hFull]
    refine ⟨?_, rfl⟩
    apply h.of_control hTask
    · apply h.core.of_control <;> try rfl
      · apply hPos.of_control <;> try rfl
        · simp [hCpc, ControlPc.attached]
        · simp [hCpc, ControlPc.ahead]
        · simp
        · simp [hCpc]
        · simp
      · simp [hCpc, ControlPc.attached]
      · simp [hCpc, ControlPc.throttled]
    · rfl
    · intro j
      exact Or.inl rfl
    · intro j
      left
      simp [attachedAt, hCpc, ControlPc.attached]
    · simp
    · rfl
    · exact hRunning
    · simp

/-
  A worker gives up the control frame at a throttle point,
  and it is suspended or goes on at once.
-/
theorem Inv.of_slowPath
    {w : W} {v : Worker P R}
    (h : Inv s)
    (hTask : (s.worker w).task = .control)
    (hCpc : s.control.pc = .slowPath)
    (hBlock :
      t.block =
        (s.setBlock ((s.cur + 1 - K : ℤ) : ZMod K)
          (s.blk (s.cur + 1 - K)).startThrottlePoint).block)
    (hPc : t.pc = s.pc)
    (hCur : t.cur = s.cur)
    (hWorker : t.worker = Function.update s.worker w v)
    (hV : v.task = .idle)
    (hParent :
      v.parentResume = (s.worker w).parentResume)
    (hFull :
      t.control.hasFullFrame = s.control.hasFullFrame)
    (hChildren : t.control.children = s.control.children)
    (hJoin : t.control.joinCounter = s.control.joinCounter)
    (hCase :
      t.control.pc = .suspended ∧
          t.control.resumeFlags = .suspendedControl ∧
          ¬ s.Freed (s.cur + 1 - K) ∨
        t.control.pc = .passing ∧
          t.control.resumeFlags = .resumingControl ∧
          t.control.continuedBy = .control ∧
          s.Freed (s.cur + 1 - K)) :
    Inv t := by
  have hK := h.core.positions.ring
  have hRing : s.InRing (s.cur + 1 - K) :=
    ⟨by omega, by omega⟩
  have hFlag := h.flags.flag w
  have hNone := hFlag.noParent (Or.inr (Or.inl hTask))
  have hRunning := h.flags.running (by simp [hCpc])
  have hThr : s.control.pc.throttled = false := by
    rw [hCpc]
    rfl
  rcases h.of_task_control hTask with
    ⟨hHeld, hNoResume, -, -⟩
  have hAttS : ∀ j, s.attachedAt j = false := by
    intro j
    simp [attachedAt, hCpc, ControlPc.attached]
  have hAttT : ∀ j, t.attachedAt j = false := by
    intro j
    rcases hCase with ⟨hPcT, -⟩ | ⟨hPcT, -⟩ <;>
      simp [attachedAt, hPcT, ControlPc.attached]
  have hFreedT : t.Freed = s.Freed := by
    funext j
    unfold Freed rightFreed
    rw [hPc]
  have hCore : Core t := by
    apply h.core.throttle (Or.inr hCpc) _ _ hBlock hPc hCur
      hFull hChildren
    · rcases hCase with ⟨hPcT, -⟩ | ⟨hPcT, -⟩
      · exact Or.inr hPcT
      · exact Or.inl hPcT
    · intro hPassing
      rcases hCase with ⟨hPcT, -⟩ | ⟨-, -, -, hFreed⟩
      · rw [hPcT] at hPassing
        simp at hPassing
      · exact hFreed
  apply h.of_holder hCore hWorker
  · intro w' j _ _
    rw [hPc, hAttT, hAttS]
    exact ⟨rfl, rfl⟩
  · simp [hV, Task.iters]
  · rw [hV]
    exact TaskOk.of_idle
  · exact hHeld
  · intro w' _
    exact hNoResume w'
  · apply FlagOk.of_noParent
    · rw [hParent, hNone]
    · simp [hV]
    · simp [hV]
  · rcases hCase with ⟨hPcT, hFlags, -⟩ |
      ⟨hPcT, hFlags, -, -⟩
    · constructor <;>
        simp [hPcT, hFlags, hJoin, hChildren, hRunning, hV]
    · constructor <;>
        simp [hPcT, hFlags, hJoin, hChildren, hRunning, hV]
  · constructor
    · intro hSuspended hFreed
      rw [hCur, hFreedT] at hFreed
      rcases hCase with ⟨-, -, hNot⟩ | ⟨hPcT, -⟩
      · exact absurd hFreed hNot
      · rw [hPcT] at hSuspended
        simp at hSuspended
    · intro hPassing
      rcases hCase with ⟨hPcT, -⟩ | ⟨-, -, hBy, hFreed⟩
      · rw [hPcT] at hPassing
        simp at hPassing
      · have hBlk : t.blk (s.cur + 1 - K) =
            (s.blk (s.cur + 1 - K)).startThrottlePoint := by
          unfold blk
          rw [hBlock]
          exact blk_setBlock_self s _ _
        rw [hCur, hBy, hBlk]
        exact h.core.zeroedBy_control hThr hFreed

/- The frame is suspended, or handed back to the worker. -/
theorem Inv.trySuspendControl
    {w : W} {v : Worker P R}
    (h : Inv s)
    (hTask : (s.worker w).task = .control)
    (hCpc : s.control.pc = .slowPath)
    (hBlock : t.block = s.block)
    (hPc : t.pc = s.pc)
    (hCur : t.cur = s.cur)
    (hWorker : t.worker = Function.update s.worker w v)
    (hV : v.task = .idle)
    (hParent :
      v.parentResume = (s.worker w).parentResume)
    (hFull :
      t.control.hasFullFrame = s.control.hasFullFrame)
    (hChildren : t.control.children = s.control.children)
    (hJoin :
      t.control.joinCounter = s.control.joinCounter) :
    Inv (t.trySuspendControlFrameAtThrottle w) ∧
      (t.trySuspendControlFrameAtThrottle w).failure =
        t.failure := by
  have hK := h.core.positions.ring
  have hNone :=
    (h.flags.flag w).noParent (Or.inr (Or.inl hTask))
  rcases h.of_task_control hTask with ⟨hHeld, -⟩
  rcases h.core.next_counter (by rw [hCpc]; rfl) with
    ⟨hCounter, hAvailable⟩
  have hAfter :
      (s.blk (s.cur + 1 - K)).cleanupCounter -
          cleanupThrottleVal =
        counterOf (s.pc (s.cur + 1 - K)).freedOwn
          (s.rightFreed (s.cur + 1 - K)) true := by
    rw [counterOf_throttled, ← hCounter]
  have hNonneg :
      0 ≤ (s.blk (s.cur + 1 -
        K)).startThrottlePoint.cleanupCounter := by
    change 0 ≤ _ - cleanupThrottleVal
    rw [hAfter]
    exact counterOf_nonneg _ _ _
  have hReady :
      (s.blk (s.cur + 1 -
        K)).startThrottlePoint.readyForReuse = true ↔
        s.Freed (s.cur + 1 - K) := by
    unfold Block.readyForReuse Freed
    rw [decide_eq_true_iff]
    change _ - cleanupThrottleVal ≤ _ ↔ _
    rw [hAfter, counterOf_le_one, Bool.and_eq_true]
  have hNext : t.nextBlock =
      ((s.cur + 1 - K : ℤ) : ZMod K) := by
    rw [nextBlock_eq, hCur]
  have hBlk : t.block ((s.cur + 1 - K : ℤ) : ZMod K) =
      s.blk (s.cur + 1 - K) := by
    rw [hBlock]
    rfl
  have hSet : ∀ b,
      (t.setBlock ((s.cur + 1 - K : ℤ) : ZMod K) b).block =
        (s.setBlock ((s.cur + 1 - K : ℤ) : ZMod K)
          b).block := by
    intro b
    unfold setBlock
    rw [hBlock]
  unfold trySuspendControlFrameAtThrottle
  rw [hNext, hBlk]
  dsimp only
  rw [check_eq hNonneg]
  split
  · rename_i hNot
    refine ⟨?_, rfl⟩
    apply h.of_slowPath (v := v) hTask hCpc
    · rw [hNext]
      exact hSet _
    · exact hPc
    · exact hCur
    · exact hWorker
    · exact hV
    · exact hParent
    · exact hFull
    · exact hChildren
    · exact hJoin
    · left
      refine ⟨rfl, rfl, ?_⟩
      intro hFreed
      rw [hReady.mpr hFreed] at hNot
      exact Bool.noConfusion hNot
  · rename_i hNot
    rw [Bool.not_eq_false] at hNot
    have hFreed := hReady.mp hNot
    have hStatus :
        (s.blk (s.cur + 1 -
          K)).startThrottlePoint.blockStatus =
            .available :=
      hAvailable.mpr hFreed
    rw [check_eq hStatus]
    refine ⟨?_, rfl⟩
    have hInv : Inv ((t.setBlock t.nextBlock
        (s.blk (s.cur + 1 - K)).startThrottlePoint).setControl
        { t.control with
          resumeFlags := .resumingControl
          pc := .passing
          continuedBy := .control }) := by
      apply h.of_slowPath (v := v) hTask hCpc
      · rw [hNext]
        exact hSet _
      · exact hPc
      · exact hCur
      · exact hWorker
      · exact hV
      · exact hParent
      · exact hFull
      · exact hChildren
      · exact hJoin
      · right
        exact ⟨rfl, rfl, rfl, hFreed⟩
    apply hInv.handControl
    · change (t.worker w).parentResume = _
      rw [hWorker, Function.update_self, hParent, hNone]
    · intro w' hNe
      unfold HoldsControl
      change ¬ (t.worker w').HoldsControl
      rw [hWorker, Function.update_of_ne hNe]
      exact hHeld w' hNe
    · exact Or.inr (Or.inl ⟨rfl, rfl⟩)

/-
  `do_suspend_pipe_control_frame`.  The assertion that no
  reducer map is saved is about the state that the control
  frame restores.
-/
theorem Inv.suspendControl
    {w : W}
    (h : Inv s)
    (hTask : (s.worker w).task = .control)
    (hCpc : s.control.pc = .slowPath) :
    Inv (s.suspendControlFrame w) ∧
      (s.control.savedReducerMap = none →
        (s.suspendControlFrame w).failure = s.failure) := by
  have hCheck : ∃ f,
      s.check (s.control.savedReducerMap = none) =
          { s with failure := f } ∧
        (s.control.savedReducerMap = none →
          f = s.failure) := by
    unfold check
    split
    · exact ⟨s.failure, rfl, fun _ => rfl⟩
    · rename_i hNot
      exact ⟨some .internal, rfl,
        fun hEq => absurd hEq hNot⟩
  rcases hCheck with ⟨f, hCheck, hFailure⟩
  have hTry := h.trySuspendControl
    (t := s.saveWorkerStateForSuspendControl w)
    (v := { s.worker w with
      reducerMap := none
      task := .idle }) hTask hCpc
  unfold saveWorkerStateForSuspendControl at hTry
  unfold suspendControlFrame saveWorkerStateForSuspendControl
  dsimp only at hTry ⊢
  rw [hCheck] at hTry ⊢
  have hBoth := hTry rfl rfl rfl rfl rfl rfl rfl rfl rfl
  refine ⟨hBoth.1, ?_⟩
  intro hSaved
  rw [hBoth.2]
  exact hFailure hSaved

------------------------------------------------------------
-- Between Two Iterations
------------------------------------------------------------

omit [DecidableEq W] in
/-
  The children that the control frame waits for fit into the
  ring with the current iteration and the next one.
-/
theorem Core.card_children
    (h : Core s)
    (hFreed : s.Freed (s.cur + 1 - K)) :
    (s.control.children.card : ℤ) + 1 < K := by
  have hPos := h.positions
  have hK := hPos.ring
  have hSub : s.control.children ⊆
      Finset.Ioc (s.cur + 2 - K) s.cur := by
    intro j hJ
    rcases (h.children j).mp hJ with ⟨hJoined, -⟩
    have hOwn := IterPc.freedOwn_of_joined hJoined
    have hLeft : (s.pc j).freedLeft = false := by
      by_contra hNot
      rw [Bool.not_eq_false] at hNot
      cases hPc : s.pc j with
      | finishing p =>
          cases p <;> simp [hPc, IterPc.joined] at hJoined
          simp [hPc, IterPc.freedLeft] at hNot
      | exiting p => simp [hPc, IterPc.joined] at hJoined
      | finished => simp [hPc, IterPc.joined] at hJoined
      | _ => simp [hPc, IterPc.freedLeft] at hNot
    have hStarted : s.pc j ≠ .notStarted := by
      intro hEq
      rw [hEq] at hJoined
      simp [IterPc.joined] at hJoined
    have hRing := hPos.inRing_left hStarted hLeft
    have hNe₁ : j ≠ s.cur + 1 - K := by
      rintro rfl
      rw [hFreed.1] at hOwn
      exact Bool.noConfusion hOwn
    have hNe₂ : j ≠ s.cur + 2 - K := by
      rintro rfl
      have hRight := hFreed.2
      unfold rightFreed at hRight
      rw [show s.cur + 1 - K + 1 = s.cur + 2 - K by omega,
        hLeft] at hRight
      exact Bool.noConfusion hRight
    have hLow := hRing.1
    have hHigh := hPos.le_cur hStarted
    rw [Finset.mem_Ioc]
    omega
  have hCard := Finset.card_le_card hSub
  rw [Int.card_Ioc] at hCard
  omega

omit [DecidableEq W] in
/- The block of the oldest iteration is used again. -/
theorem Core.passThrottle
    (h : Core s)
    (hCpc : s.control.pc = .passing)
    (hBlock :
      t.block =
        (s.setBlock ((s.cur + 1 - K : ℤ) : ZMod K)
          { (s.blk (s.cur + 1 - K)).resetForNewIter with
            blockStatus := .inUse }).block)
    (hPc : t.pc = s.pc)
    (hCur : t.cur = s.cur + 1)
    (hCpcT : t.control.pc = .loopHead)
    (hFull :
      t.control.hasFullFrame = s.control.hasFullFrame)
    (hChildren :
      t.control.children = s.control.children) :
    Core t := by
  have hPos := h.positions
  have hK := hPos.ring
  have hFreed := hPos.passing hCpc
  have hRing : s.InRing (s.cur + 1 - K) :=
    ⟨by omega, by omega⟩
  have hCurPos := hPos.curPos
  have hCurStarted : s.pc s.cur ≠ .notStarted := by
    rw [Ne, hPos.current, hCpc]
    simp [ControlPc.ahead]
  have hNew : s.pc (s.cur + 1) = .notStarted :=
    hPos.after _ (by omega)
  have hAttS : ∀ j, s.attachedAt j = false := by
    intro j
    simp [attachedAt, hCpc, ControlPc.attached]
  have hAttT : ∀ j, t.attachedAt j = false := by
    intro j
    simp [attachedAt, hCpcT, ControlPc.attached]
  have hThrT : ∀ j, t.throttledAt j = false := by
    intro j
    simp [throttledAt, hCpcT, ControlPc.throttled]
  have hFreedT : t.Freed = s.Freed := by
    funext j
    unfold Freed rightFreed
    rw [hPc]
  -- Blocks that the step does not touch.
  have hBlk : ∀ j, s.InRing j → j ≠ s.cur + 1 - K →
      t.blk j = s.blk j := by
    intro j hJ hNe
    have hSet := blk_setBlock_of_inRing hRing hJ
      { (s.blk (s.cur + 1 - K)).resetForNewIter with
        blockStatus := .inUse }
    rw [if_neg hNe] at hSet
    unfold blk at hSet ⊢
    rw [hBlock]
    exact hSet
  constructor
  · constructor
    · exact hK
    · omega
    · rw [hPc]
      exact hPos.before
    · intro j hJ
      rw [hPc]
      exact hPos.after j (by omega)
    · intro j hJ
      rw [hPc]
      by_cases hEq : j = s.cur
      · rw [hEq]
        exact hCurStarted
      · exact hPos.started j (by omega)
    · rw [hPc, hCur, hNew, hCpcT]
      simp [ControlPc.ahead]
    · simp [hCpcT]
    · simp [hCpcT]
    · intro j hJ
      rw [hPc] at hJ
      have hOld := (hPos.exiting j hJ).2
      rw [hCpc] at hOld
      simp at hOld
    · rw [hFull, hPc]
      intro hNone j hJ hStarted _
      exact hPos.unstolen hNone j (hPos.le_cur hStarted)
        hStarted (hAttS j)
    · intro j hJ
      rw [hFreedT]
      by_cases hEq : j = s.cur + 1 - K
      · rw [hEq]
        exact hFreed
      · exact hPos.window j (by omega)
    · simp [hCpcT]
  · intro j hJ
    have hLow : s.cur + 1 - K < j := by
      have hOld := hJ.1
      omega
    have hHigh : j ≤ s.cur + 1 := by
      have hOld := hJ.2
      omega
    rw [hAttT, hThrT]
    unfold rightFreed
    rw [hPc]
    by_cases hEq : j = s.cur + 1
    · have hOk := h.blocks _ hRing
      have hBlkNew : t.blk j =
          { (s.blk (s.cur + 1 - K)).resetForNewIter with
            blockStatus := .inUse } := by
        have hCast : ((j : ℤ) : ZMod K) =
            ((s.cur + 1 - K : ℤ) : ZMod K) := by
          rw [hEq]
          simp
        unfold blk
        rw [hBlock, hCast]
        exact blk_setBlock_self s _ _
      have hDone := hOk.done (Or.inr (by
        rw [hFreed.1, hFreed.2]
        rfl))
      rw [hBlkNew, hEq, hNew, hPos.after _ (by omega)]
      constructor
      · rfl
      · simp [IterPc.freedOwn]
      · rfl
      · intro _
        rfl
      · simp [IterPc.freedOwn]
      · intro _
        exact hDone
      · simp [IterPc.isMarked]
      · simp
      · simp
      · simp [IterPc.joined]
      · simp [IterPc.place]
      · simp
      · simp
      · simp
      · simp
      · simp [IterPc.posted]
      · simp [IterPc.moved]
    · have hOld : s.InRing j := ⟨by omega, by omega⟩
      have hOk := h.blocks j hOld
      have hThrS : s.throttledAt j = false := by
        unfold throttledAt
        rw [decide_eq_false (by omega), Bool.and_false]
      rw [hAttS, hThrS] at hOk
      rw [hBlk j hOld (by omega)]
      exact hOk
  · intro j hOne hStarted hFree
    rw [hPc] at hStarted hFree
    have hLink := h.links j hOne hStarted hFree
    have hOwn := IterPc.freedOwn_of_freedLeft hFree
    have hRingJ := hPos.inRing hStarted hOwn
    have hRingL := hPos.inRing_left hStarted hFree
    have hNe₁ : j ≠ s.cur + 1 - K := by
      rintro rfl
      rw [hFreed.1] at hOwn
      exact Bool.noConfusion hOwn
    have hNe₂ : j - 1 ≠ s.cur + 1 - K := by
      intro hEq
      have hRight := hFreed.2
      unfold rightFreed at hRight
      rw [← hEq, show j - 1 + 1 = j by omega, hFree]
        at hRight
      exact Bool.noConfusion hRight
    rw [hPc, hBlk j hRingJ hNe₁, hBlk _ hRingL hNe₂]
    exact hLink
  · intro j
    rw [hChildren, hPc, hAttT, h.children j, hAttS]

/- The rest of `__cilkrts_piper_throttle`. -/
theorem Inv.passThrottle
    {w : W}
    (h : Inv s)
    (hTask : (s.worker w).task = .control)
    (hCpc : s.control.pc = .passing) :
    Inv s.passThrottle ∧
      s.passThrottle.failure = s.failure := by
  have hPos := h.core.positions
  have hK := hPos.ring
  have hFreed := hPos.passing hCpc
  have hRunning := h.flags.running (by simp [hCpc])
  have hRing : s.InRing (s.cur + 1 - K) :=
    ⟨by omega, by omega⟩
  have hOk := h.core.blocks _ hRing
  have hStatus :
      (s.blk (s.cur + 1 - K)).blockStatus = .available :=
    hOk.available.mpr hFreed
  have hZero :
      (s.blk (s.cur + 1 - K)).cleanupCounter = 0 := by
    rw [hOk.counter, hFreed.1, hFreed.2]
    simp [throttledAt, hCpc, ControlPc.throttled, counterOf]
  have hJoin : s.control.joinCounter < K := by
    have hCard := h.core.card_children hFreed
    omega
  unfold PipeState.passThrottle
  dsimp only
  simp only [nextBlock_eq, block_cast]
  rw [check_eq ⟨hStatus, hZero, fun _ => hJoin⟩]
  refine ⟨?_, rfl⟩
  apply h.of_control hTask
  · apply h.core.passThrottle hCpc
    · rfl
    · rfl
    · rfl
    · rfl
    · rfl
    · rfl
  · rfl
  · intro j
    exact Or.inl rfl
  · intro j
    left
    simp [attachedAt, hCpc, ControlPc.attached]
  · simp
  · rfl
  · exact hRunning
  · simp

/- The control frame comes to its sync. -/
theorem Inv.sync
    {w : W}
    (h : Inv s)
    (hTask : (s.worker w).task = .control)
    (hCpc : s.control.pc = .loopHead) :
    Inv (s.sync w) := by
  have hPos := h.core.positions
  have hRunning := h.flags.running (by simp [hCpc])
  have hFlag := h.flags.flag w
  rcases h.of_task_control hTask with
    ⟨hHeld, hNoResume, hNormal, -⟩
  have hNone := hFlag.noParent (Or.inr (Or.inl hTask))
  have hCore : ∀ t : PipeState W P R K,
      t.block = s.block → t.pc = s.pc → t.cur = s.cur →
        t.control.hasFullFrame = s.control.hasFullFrame →
        t.control.children = s.control.children →
        t.control.pc = .exited ∨ t.control.pc = .synced →
        Core t := by
    intro t hBlock hPcT hCur hFull hChildren hPc
    apply h.core.of_control _ hBlock hPcT hCur hChildren
    · rcases hPc with hPc | hPc <;>
        simp [hPc, hCpc, ControlPc.attached]
    · rcases hPc with hPc | hPc <;>
        simp [hPc, hCpc, ControlPc.throttled]
    · apply hPos.of_control hPcT hCur hFull
      · rcases hPc with hPc | hPc <;>
          simp [hPc, hCpc, ControlPc.attached]
      · rcases hPc with hPc | hPc <;>
          simp [hPc, hCpc, ControlPc.ahead]
      · rcases hPc with hPc | hPc <;> simp [hPc]
      · rcases hPc with hPc | hPc <;> simp [hPc, hCpc]
      · rcases hPc with hPc | hPc <;> simp [hPc]
  unfold PipeState.sync
  split
  · apply h.of_control hTask
    · exact hCore _ rfl rfl rfl rfl rfl (Or.inl rfl)
    · rfl
    · intro j
      exact Or.inl rfl
    · intro j
      left
      simp [attachedAt, hCpc, ControlPc.attached]
    · simp
    · rfl
    · exact hRunning
    · simp
  · apply h.of_holder _ rfl
    · intro w' j _ _
      refine ⟨rfl, ?_⟩
      simp [attachedAt, hCpc, ControlPc.attached]
    · simp [Task.iters]
    · exact TaskOk.of_idle
    · exact hHeld
    · intro w' _
      exact hNoResume w'
    · exact FlagOk.of_noParent hNone (by simp) (by simp)
    · constructor
      · simp [hNormal]
      · simp [hNormal]
      · simp [hNormal]
      · simp
      · simp
      · simp
      · intro _
        left
        refine ⟨?_, by simp⟩
        change s.control.joinCounter - 1 =
          (s.control.children.card : ℤ)
        omega
    · apply Continues.of_not_throttled <;> simp
    · exact hCore _ rfl rfl rfl rfl rfl (Or.inr rfl)

/- A worker takes up the control frame from its queue. -/
theorem Inv.of_nextControl
    {w : W} {v : Worker P R}
    (h : Inv s)
    (hTask : (s.worker w).task = .nextControl)
    (hBlock : t.block = s.block)
    (hPc : t.pc = s.pc)
    (hCur : t.cur = s.cur)
    (hWorker : t.worker = Function.update s.worker w v)
    (hV : v.task = .control)
    (hTop : v.iterFfOnTop = false)
    (hParent : v.parentResume = (s.worker w).parentResume)
    (hFull :
      t.control.hasFullFrame = s.control.hasFullFrame)
    (hChildren : t.control.children = s.control.children)
    (hJoin : t.control.joinCounter = s.control.joinCounter)
    (hBy : t.control.continuedBy = s.control.continuedBy)
    (hFlags : t.control.resumeFlags = .normalCilk)
    (hCpcT :
      t.control.pc =
        if s.control.pc = .synced then .exited
        else s.control.pc) :
    Inv t := by
  have hPos := h.core.positions
  have hFlag := h.flags.flag w
  have hNone := hFlag.noParent (Or.inr (Or.inr hTask))
  have hHeld := h.tasks.others_control (w := w)
    (Or.inr (Or.inl hTask))
  have hCpc := (h.tasks.task w).nextControl hTask
  have hNotSuspended : s.control.pc ≠ .suspended := by
    rcases hCpc with hCpc | hCpc | hCpc <;> simp [hCpc]
  have hAttS : ∀ j, s.attachedAt j = false := by
    intro j
    rcases hCpc with hCpc | hCpc | hCpc <;>
      simp [attachedAt, hCpc, ControlPc.attached]
  have hAttT : ∀ j, t.attachedAt j = false := by
    intro j
    rcases hCpc with hCpc | hCpc | hCpc <;>
      simp [attachedAt, hCpcT, hCpc, ControlPc.attached]
  apply h.of_holder _ hWorker
  · intro w' j _ _
    rw [hPc, hAttT, hAttS]
    exact ⟨rfl, rfl⟩
  · simp [hV, Task.iters]
  · rw [hV]
    constructor
    · simp
    · simp
    · simp
    · simp
    · intro _
      rcases hCpc with hCpc | hCpc | hCpc <;>
        simp [hCpcT, hCpc]
    · simp
  · exact hHeld
  · intro w' _
    exact h.not_resumes hNotSuspended w'
  · apply FlagOk.of_noParent
    · rw [hParent, hNone]
    · simp [hV]
    · intro _
      exact hTop
  · constructor
    · rw [hFlags, hCpcT]
      rcases hCpc with hCpc | hCpc | hCpc <;> simp [hCpc]
    · simp [hFlags]
    · exact Or.inl hFlags
    · intro _
      exact hFlags
    · simp [hV]
    · intro _
      rw [hJoin, hChildren]
      by_cases hSynced : s.control.pc = .synced
      · rcases h.flags.waiting hSynced with ⟨-, hNot⟩ |
          ⟨hOne, hEmpty⟩
        · exact absurd hTask (hNot w)
        · rw [hOne, hEmpty]
          rfl
      · exact h.flags.running hSynced
    · rw [hCpcT]
      rcases hCpc with hCpc | hCpc | hCpc <;> simp [hCpc]
  · constructor
    · rw [hCpcT]
      rcases hCpc with hCpc | hCpc | hCpc <;> simp [hCpc]
    · intro hPassing
      rw [hCpcT] at hPassing
      rw [hCur, hBy]
      unfold blk
      rw [hBlock]
      apply h.continues.passing
      rcases hCpc with hCpc | hCpc | hCpc <;>
        simp [hCpc] at hPassing ⊢
  · apply h.core.of_control _ hBlock hPc hCur hChildren
    · rcases hCpc with hCpc | hCpc | hCpc <;>
        simp [hCpcT, hCpc, ControlPc.attached]
    · rcases hCpc with hCpc | hCpc | hCpc <;>
        simp [hCpcT, hCpc, ControlPc.throttled]
    · apply hPos.of_control hPc hCur hFull
      · rcases hCpc with hCpc | hCpc | hCpc <;>
          simp [hCpcT, hCpc, ControlPc.attached]
      · rcases hCpc with hCpc | hCpc | hCpc <;>
          simp [hCpcT, hCpc, ControlPc.ahead]
      · rcases hCpc with hCpc | hCpc | hCpc <;>
          simp [hCpcT, hCpc]
      · rcases hCpc with hCpc | hCpc | hCpc <;>
          simp [hCpcT, hCpc]
      · rw [hCpcT]
        rcases hCpc with hCpc | hCpc | hCpc
        · simp [hCpc]
        · intro _
          exact hPos.passing hCpc
        · simp [hCpc]

/- The frame goes on, with its state restored. -/
theorem Inv.restoreControl
    {w : W}
    (h : Inv s)
    (hTask : (s.worker w).task = .nextControl) :
    Inv (s.restoreControl w) := by
  have hCpc := (h.tasks.task w).nextControl hTask
  unfold PipeState.restoreControl
  dsimp only
  split
  · apply h.of_nextControl hTask <;> rfl
  · rename_i hNot
    apply h.of_nextControl hTask <;> try rfl
    rcases h.flags.normal with hCase | hCase | hCase
    · exact hCase
    · exact absurd hCase hNot
    · have hSuspended := h.flags.suspended.mp hCase
      rcases hCpc with hCpc | hCpc | hCpc <;>
        simp [hCpc] at hSuspended

/- `setup_for_execution` of the control frame. -/
theorem Inv.setupControl
    {w : W}
    (h : Inv s)
    (hTask : (s.worker w).task = .nextControl) :
    Inv (s.setupControl w) :=
  (SameParts.setupForExecutionPedigree _ w).inv
    (h.restoreControl hTask)

end Piper

end PRacer
