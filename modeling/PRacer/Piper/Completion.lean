import Mathlib.Tactic.Common
import PRacer.Piper.Cleanup

/-
  The steps of an iteration that finishes in the runtime keep
  the invariant.

  Main declarations:
    * `Keeps`
    * `Inv.pipeIterFinish`, `Inv.finishFreeLeft`, ...
-/

------------------------------------------------------------
-- The Left Block
------------------------------------------------------------

namespace PRacer

namespace Piper

open PipeState

variable {W P R : Type} {K : ℕ}
variable {s t : PipeState W P R K}

/- The counters of the blocks, with the history of their use. -/
def PipeState.uses
    (s : PipeState W P R K) (x : ZMod K) :
    ℤ × ℕ × List Party :=
  ((s.block x).cleanupCounter, (s.block x).marks,
    (s.block x).zeroedBy)

theorem uses_setBlock
    {x : ZMod K} {b : Block}
    (hCounter :
      b.cleanupCounter = (s.block x).cleanupCounter)
    (hMarks : b.marks = (s.block x).marks)
    (hZeroed : b.zeroedBy = (s.block x).zeroedBy) :
    (s.setBlock x b).uses = s.uses := by
  funext y
  unfold PipeState.uses setBlock
  by_cases hY : y = x
  · rw [hY]
    simp [hCounter, hMarks, hZeroed]
  · simp [hY]

/-
  The step keeps the invariant, unless the assertion about a
  stage number stops it.
-/
def Keeps (s t : PipeState W P R K) : Prop :=
  t.failure = some .stage ∧ t.uses = s.uses ∨
    Inv t ∧ t.failure = s.failure

theorem IterPc.alike_self
    {p : IterPc}
    (hLate : p.posted = true ∨ p.moved = true) :
    p.Alike p := by
  constructor
  · rfl
  · rfl
  · rfl
  · exact id
  all_goals
    cases p <;> simp [posted, moved] at hLate <;>
      simp [place]

/- A block whose stage is late belongs to a late iteration. -/
theorem Core.late
    (h : Core s) {i : ℤ}
    (hZero : 0 ≤ i)
    (hRing : s.InRing i)
    (hStarted : s.pc i ≠ .notStarted)
    (hStage :
      stageUserToSys postIterCleanupStage ≤
        (s.blk i).stage) :
    (s.pc i).posted = true ∨ (s.pc i).moved = true := by
  by_contra hNot
  simp only [not_or, Bool.not_eq_true] at hNot
  have hEarly := (h.blocks i hRing).early hZero hStarted
    hNot.1 hNot.2
  exact absurd (hStage.trans hEarly) final_lt_post.not_ge

theorem Positions.left_started
    (h : Positions s) {i : ℤ}
    (hStarted : s.pc i ≠ .notStarted) :
    s.pc (i - 1) ≠ .notStarted := by
  have hLe := h.le_cur hStarted
  exact h.started (i - 1) (by omega)

variable [DecidableEq W]

/- `piper_try_free_iter_data_block_common` on the left. -/
theorem Core.tryFreeLeft
    (h : Core s) {i : ℤ} {w : Option W} {q : Party}
    (hOne : 1 ≤ i)
    (hStarted : s.pc i ≠ .notStarted)
    (hO : (s.pc i).freedLeft = false)
    (hNone : w = none → s.throttledAt (i - 1) = false) :
    s.tryFreeIterDataBlock (leftOf i) w q =
        s.fail .stage ∨
      (s.pc (i - 1)).Alike (s.pc (i - 1)) ∧
        s.tryFreeIterDataBlock (leftOf i) w q =
          s.freeBlock (i - 1) w q := by
  have hRing := h.positions.inRing_left hStarted hO
  have hLeft := h.positions.left_started hStarted
  rw [leftOf_cast]
  have hSpec := tryFree_spec (s := s) (j := i - 1) (w := w)
    (q := q) (h.blocks _ hRing) hLeft
    (by
      intro hStage
      have hLate := h.late (by omega) hRing hLeft hStage
      cases hPc : s.pc (i - 1) <;>
        simp [hPc, IterPc.posted, IterPc.moved] at hLate <;>
        rfl)
    (by
      unfold rightFreed
      rw [show i - 1 + 1 = i by omega, hO]
      exact Bool.and_false _)
    hNone
  rcases hSpec with hFail | ⟨hStage, hFree⟩
  · exact Or.inl hFail
  · refine Or.inr ⟨IterPc.alike_self ?_, hFree⟩
    exact h.late (by omega) hRing hLeft hStage

------------------------------------------------------------
-- Returning to the Stolen Parent
------------------------------------------------------------

omit [DecidableEq W] in
/- An iteration that waits to be resumed is a child. -/
theorem Core.child_of_marked
    (h : Core s) {i : ℤ}
    (hMark : (s.pc i).isMarked = true) :
    i ∈ s.control.children := by
  have hJoined : (s.pc i).joined = true := by
    cases hPc : s.pc i with
    | wait f p => rfl
    | _ => simp [hPc, IterPc.isMarked] at hMark
  have hStarted : s.pc i ≠ .notStarted := by
    intro hEq
    rw [hEq] at hMark
    simp [IterPc.isMarked] at hMark
  have hRing := h.positions.inRing hStarted
    (IterPc.freedOwn_of_joined hJoined)
  have hOk := h.blocks i hRing
  rw [h.children i]
  refine ⟨hJoined, ?_⟩
  by_contra hAtt
  rw [Bool.not_eq_false] at hAtt
  have hStandard := hOk.standard hAtt hStarted
  rw [(hOk.marked hMark).1] at hStandard
  simp at hStandard

omit [DecidableEq W] in
/- While the control frame waits at its sync, nobody has it. -/
theorem Inv.not_holdsControl_of_synced
    (h : Inv s)
    (hCpc : s.control.pc = .synced)
    (hChildren : s.control.children ≠ ∅) (w : W) :
    ¬ s.HoldsControl w := by
  rintro (hTask | hTask | hSelf)
  · exact ((h.tasks.task w).control hTask).2 hCpc
  · rcases h.flags.waiting hCpc with ⟨-, hNone⟩ | ⟨-, hNone⟩
    · exact hNone w hTask
    · exact hChildren hNone
  · have hOld := ((h.flags.flag w).selfSteal hSelf).1
    simp [hCpc] at hOld

omit [DecidableEq W] in
theorem Inv.not_resumes
    (h : Inv s)
    (hCpc : s.control.pc ≠ .suspended) (w : W) :
    ¬ s.Resumes w := by
  intro hResumes
  exact hCpc ((h.flags.flag w).throttleSuspend hResumes).1

/- The last child of a control frame that waits for it. -/
theorem Inv.lastAtSync
    {w : W} {i : ℤ}
    (h : Inv s)
    (hTask : (s.worker w).task = .runtime i none)
    (hPc : s.pc i = .finishing .enter)
    (hCpc : s.control.pc = .synced)
    (hOnly : s.control.children = {i}) :
    Inv (((s.setControl
      { s.control with
        joinCounter := 1
        children := ∅ }).setWorker w
      { s.worker w with
        iterFfOnTop := false
        task := .idle }).setPc i .lastAtSync) := by
  have hPos := h.core.positions
  have hStarted : s.pc i ≠ .notStarted := by simp [hPc]
  have hFinished : s.pc i ≠ .finished := by simp [hPc]
  rcases h.of_task_runtime hTask with ⟨-, hAtt, hOthers⟩
  have hHeld := h.not_holdsControl_of_synced hCpc
    (by simp [hOnly])
  have hNoResume := h.not_resumes (by simp [hCpc])
  have hNone : (s.worker w).parentResume = .noParent := by
    cases hParent : (s.worker w).parentResume with
    | noParent => rfl
    | selfSteal =>
        exact absurd (Or.inr (Or.inr hParent)) (hHeld w)
    | throttleSuspend => exact absurd hParent (hNoResume w)
  have hFlags : s.control.resumeFlags = .normalCilk := by
    rcases h.flags.normal with hCase | hCase | hCase
    · exact hCase
    · have hPassing := h.flags.resuming hCase
      simp [hCpc] at hPassing
    · have hSuspended := h.flags.suspended.mp hCase
      simp [hCpc] at hSuspended
  have hChange : Change s
      (((s.setControl
        { s.control with
          joinCounter := 1
          children := ∅ }).setWorker w
        { s.worker w with
          iterFfOnTop := false
          task := .idle }).setPc i .lastAtSync) i
      .lastAtSync (s.blk i) := by
    constructor
    · rfl
    · intro j _
      split
      · rename_i hEq
        rw [hEq]
        rfl
      · rfl
    · rfl
    · intro _ _
      rfl
    · intro _ _
      rfl
  apply h.of_holder (w := w) _ rfl
  · intro w' j hNe hHolds
    refine ⟨?_, rfl⟩
    rw [hChange.pc_apply, if_neg]
    rintro rfl
    exact hOthers w' hNe hHolds
  · simp [Task.iters]
  · exact TaskOk.of_idle
  · intro w' _
    exact hHeld w'
  · intro w' _
    exact hNoResume w'
  · exact FlagOk.of_noParent hNone (by simp) (by simp)
  · constructor
    · simp [hFlags, hCpc]
    · simp [hFlags]
    · simp [hFlags]
    · simp
    · simp
    · simp [hCpc]
    · intro _
      exact Or.inr ⟨rfl, rfl⟩
  · apply Continues.of_not_throttled <;> simp [hCpc]
  · apply h.core.alike hChange
    · apply hPos.move hChange.pc rfl (Or.inl rfl) rfl hStarted
        hFinished (by simp)
      · simp [hPc, IterPc.freedOwn]
      · simp [hPc, IterPc.freedLeft]
      · right
        refine ⟨by simp [IterPc.place], hAtt, Or.inl ?_⟩
        exact hPos.hasFullFrame hStarted hFinished hAtt
    · rw [hPc]
      constructor <;> simp [IterPc.isMarked, IterPc.posted,
        IterPc.moved, IterPc.joined, IterPc.place]
    · rw [hPc]
      rfl
    · rw [hPc]
      rfl
    · rfl
    · rfl
    · rfl
    · right
      intro hMark
      have hChild := h.core.child_of_marked hMark
      rw [hOnly, Finset.mem_singleton] at hChild
      omega
    · intro j
      have hOld := h.core.children j
      rw [hOnly, Finset.mem_singleton] at hOld
      rw [hChange.pc_apply]
      change j ∈ (∅ : Finset ℤ) ↔
        _ ∧ s.attachedAt j = false
      split
      · simp [IterPc.joined]
      · rename_i hNe
        rw [← hOld]
        simp [hNe]

/- Another child leaves its parent. -/
theorem Inv.leaveParent
    {w : W} {i : ℤ}
    (h : Inv s)
    (hTask : (s.worker w).task = .runtime i none)
    (hPc : s.pc i = .finishing .enter)
    (hBlock : t.block = s.block)
    (hWorker : t.worker = s.worker)
    (hPcT :
      t.pc = Function.update s.pc i (.finishing .freeLeft))
    (hControl :
      t.control =
        { s.control with
          joinCounter := s.control.joinCounter - 1
          children := s.control.children.erase i }) :
    Inv t := by
  have hPos := h.core.positions
  have hStarted : s.pc i ≠ .notStarted := by simp [hPc]
  have hFinished : s.pc i ≠ .finished := by simp [hPc]
  have hFlag := h.flags.flag w
  rcases h.of_task_runtime hTask with ⟨-, hAtt, hOthers⟩
  have hChild : i ∈ s.control.children := by
    rw [h.core.children i, hPc]
    exact ⟨rfl, hAtt⟩
  have hCard := Finset.card_erase_add_one hChild
  have hCur : t.cur = s.cur := by
    unfold cur
    rw [hControl]
  have hAttT : t.attachedAt = s.attachedAt := by
    funext j
    unfold attachedAt
    rw [hCur, hControl]
  have hChange : Change s t i (.finishing .freeLeft)
      (s.blk i) := by
    constructor
    · exact hPcT
    · intro j _
      unfold blk
      rw [hBlock]
      split
      · rename_i hEq
        rw [hEq]
      · rfl
    · exact hCur
    · intro j _
      rw [hAttT]
    · intro j _
      unfold throttledAt
      rw [hCur, hControl]
  have hPcOthers : ∀ w' j, w' ≠ w → s.HoldsIter w' j →
      t.pc j = s.pc j := by
    intro w' j hNe hHolds
    rw [hChange.pc_apply, if_neg]
    rintro rfl
    exact hOthers w' hNe hHolds
  have hSelf : t.worker =
      Function.update s.worker w (s.worker w) := by
    rw [hWorker, Function.update_eq_self]
  have hFreed := hChange.freed_iff
    (by rw [hPc]; rfl) (by rw [hPc]; rfl)
  constructor
  · apply h.core.alike hChange
    · apply hPos.move hChange.pc hCur
        (Or.inl (by rw [hControl])) (by rw [hControl])
        hStarted hFinished (by simp)
      · simp [hPc, IterPc.freedOwn]
      · simp [hPc, IterPc.freedLeft]
      · left
        rw [hPc]
        rfl
    · rw [hPc]
      constructor <;> simp [IterPc.isMarked, IterPc.posted,
        IterPc.moved, IterPc.joined, IterPc.place]
    · rw [hPc]
      rfl
    · rw [hPc]
      rfl
    · rw [hAttT]
    · unfold throttledAt
      rw [hCur, hControl]
    · rfl
    · exact Or.inl rfl
    · intro j
      rw [hChange.pc_apply, hAttT, hControl,
        Finset.mem_erase, h.core.children j]
      split
      · rename_i hEq
        simp [hEq, IterPc.joined]
      · rename_i hNe
        simp [hNe]
  · apply h.tasks.reassign hSelf
    · intro w' j hNe hHolds
      rw [hAttT]
      exact ⟨hPcOthers w' j hNe hHolds, rfl⟩
    · intro _ _ _
      rw [hControl]
    · rw [hTask]
      apply TaskOk.runtime_none
      rw [hPcT, Function.update_self]
      rfl
    · intro j hJ
      exact h.tasks.others hJ
    · intro hHolds
      exact h.tasks.others_control hHolds
  · have hResumes : t.Resumes = s.Resumes := by
      funext w'
      unfold Resumes
      rw [hWorker]
    constructor
    · apply h.flags.flag_reassign hSelf hPcOthers
      · intro j hJ
        rw [hChange.pc_apply]
        split
        · rename_i hEq
          rw [hEq, hPc] at hJ
          simp [IterPc.moved] at hJ
        · exact hJ
      · rw [hCur]
        exact (hFreed _).mpr
      · intro _ _ _
        rw [hCur, hControl]
        exact ⟨rfl, rfl⟩
      · rw [hCur, hControl]
        apply FlagOk.of_runtime hTask
        · rw [hPcT, Function.update_self]
          simp
        · exact hFlag.selfSteal
        · intro hThrottle
          have hOld := hFlag.throttleSuspend hThrottle
          exact ⟨hOld.1, (hFreed _).mpr hOld.2⟩
        · exact hFlag.onTop (Or.inr ⟨i, none, hTask⟩)
    · rw [hResumes]
      exact h.flags.resumesUnique
    · rw [hControl]
      exact h.flags.suspended
    · rw [hControl]
      exact h.flags.resuming
    · rw [hControl]
      exact h.flags.normal
    · rw [hControl, hWorker]
      exact h.flags.executing
    · rw [hControl, hWorker]
      exact h.flags.handed
    · rw [hControl]
      intro hCpc
      have hOld := h.flags.running hCpc
      dsimp only
      omega
    · rw [hControl, hWorker]
      intro hCpc
      left
      rcases h.flags.waiting hCpc with ⟨hJoin, hNone⟩ |
        ⟨-, hNone⟩
      · refine ⟨?_, hNone⟩
        dsimp only
        omega
      · rw [hNone] at hChild
        simp at hChild
  · apply h.continues.keep hCur (by rw [hControl])
      (by rw [hControl]) _ (hFreed _).mp
    · intro w' hR
      unfold Resumes
      rw [hWorker]
      exact ⟨hR, rfl⟩
    · unfold blk
      rw [hBlock]

/- `pipe_iter_finish`: its assertions hold. -/
theorem Inv.pipeIterFinish
    {w : W} {i : ℤ}
    (h : Inv s)
    (hTask : (s.worker w).task = .runtime i none)
    (hPc : s.pc i = .finishing .enter) :
    Inv (s.pipeIterFinish w i) ∧
      (s.pipeIterFinish w i).failure = s.failure := by
  have hOnTop :=
    (h.flags.flag w).onTop (Or.inr ⟨i, none, hTask⟩)
  rcases h.of_task_runtime hTask with ⟨-, hAtt, -⟩
  have hChild : i ∈ s.control.children := by
    rw [h.core.children i, hPc]
    exact ⟨rfl, hAtt⟩
  have hNonempty : s.control.children ≠ ∅ :=
    Finset.ne_empty_of_mem hChild
  have hCard := Finset.card_pos.mpr ⟨i, hChild⟩
  unfold PipeState.pipeIterFinish
  dsimp only
  rw [check_eq hOnTop]
  split
  · rename_i hZero
    have hCpc : s.control.pc = .synced := by
      by_contra hNot
      have hJoin := h.flags.running hNot
      omega
    have hOne : s.control.children.card = 1 := by
      rcases h.flags.waiting hCpc with ⟨hJoin, -⟩ |
        ⟨-, hNone⟩
      · omega
      · exact absurd hNone hNonempty
    have hOnly : s.control.children = {i} := by
      rcases Finset.card_eq_one.mp hOne with ⟨j, hJ⟩
      rw [hJ, Finset.mem_singleton] at hChild
      rw [hJ, hChild]
    have hHeld := h.not_holdsControl_of_synced hCpc hNonempty
    have hNone :
        (s.worker w).parentResume = .noParent := by
      cases hParent : (s.worker w).parentResume with
      | noParent => rfl
      | selfSteal =>
          exact absurd (Or.inr (Or.inr hParent)) (hHeld w)
      | throttleSuspend =>
          exact absurd hParent
            (h.not_resumes (by simp [hCpc]) w)
    have hFlags :
        s.control.resumeFlags ≠ .suspendedControl := by
      intro hEq
      have hSuspended := h.flags.suspended.mp hEq
      simp [hCpc] at hSuspended
    rw [check_eq ⟨hNone, hFlags, hCpc⟩]
    have hLast := h.lastAtSync hTask hPc hCpc hOnly
    have hHand := hLast.handControl (w := w)
      (by simp [hNone])
      (by
        intro w' hNe
        unfold HoldsControl
        simp only [setPc_worker, setWorker_worker,
          setControl_worker, Function.update_of_ne hNe]
        exact hHeld w')
      (Or.inr (Or.inr ⟨hCpc, rfl, rfl⟩))
    refine ⟨?_, rfl⟩
    convert hHand using 1
    simp [PipeState.handControl, setWorker, setPc,
      setControl, hOnly, hZero]
  · refine ⟨?_, rfl⟩
    exact h.leaveParent hTask hPc rfl rfl rfl rfl

------------------------------------------------------------
-- Finishing in the Runtime
------------------------------------------------------------

/- The first step of `piper_finish_iter_and_get_next`. -/
theorem Inv.finishFreeLeft
    {w : W} {i : ℤ}
    (h : Inv s)
    (hTask : (s.worker w).task = .runtime i none)
    (hPc : s.pc i = .finishing .freeLeft) :
    Keeps s (s.finishFreeLeft w i) := by
  have hPos := h.core.positions
  have hStarted : s.pc i ≠ .notStarted := by simp [hPc]
  have hFinished : s.pc i ≠ .finished := by simp [hPc]
  have hOne := hPos.one_le hFinished
  have hO : (s.pc i).freedLeft = false := by rw [hPc]; rfl
  have hRing := hPos.inRing_left hStarted hO
  rcases h.of_task_runtime hTask with ⟨-, hAtt, -⟩
  unfold PipeState.finishFreeLeft
  rcases h.core.tryFreeLeft (w := some w)
    (q := .finish i) hOne hStarted hO (by simp) with
    hFail | ⟨hLeft, hFree⟩
  · rw [hFail]
    exact Or.inl ⟨rfl, rfl⟩
  · rw [hFree]
    right
    refine ⟨?_, freeBlock_failure _ _ _ _⟩
    have hOk := h.core.blocks _ hRing
    have hRight : s.rightFreed (i - 1) = false := by
      unfold rightFreed
      rw [show i - 1 + 1 = i by omega]
      exact hO
    have hOld : (s.blk (i - 1)).zeroedBy = [] :=
      hOk.unzeroed (by simp [hRight])
    have hPcT :
        ((s.freeBlock (i - 1) (some w) (.finish i)).setPc i
          (.finishing .move)).pc =
          Function.update s.pc i (.finishing .move) := by
      unfold setPc
      rw [freeBlock_pc]
    apply h.of_free (w := w) (i := i) (j := i - 1)
      (p := .finishing .move) (r := none)
      (z := (s.blk (i - 1)).cleanupCounter -
        cleanupFinishIterVal ≤ 0)
      (q := .finish i)
    · apply h.core.freeLeft (i := i) (p := .finishing .move)
        (q := .finish i)
      · apply hPos.move hPcT
        · simp [cur]
        · simp
        · simp
        · exact hStarted
        · exact hFinished
        · simp
        · simp [hPc, IterPc.freedOwn]
        · simp [hPc, IterPc.freedLeft]
        · left
          rw [hPc]
          rfl
      · exact hPcT
      · intro j hJ
        rw [blk_setPc, freeBlock_blk hRing hJ]
        split
        · rename_i hEq
          rw [hEq]
        · rfl
      · simp
      · rw [hPc]
        constructor <;> simp [IterPc.isMarked, IterPc.posted,
          IterPc.moved, IterPc.joined, IterPc.place]
      · rw [hPc]
        rfl
      · rw [hPc]
        rfl
      · exact hO
      · rfl
      · exact Or.inl rfl
      · exact hLeft
      · simp
    · exact hTask
    · exact hPcT
    · rfl
    · simp
    · simp
    · simp [hPc, IterPc.moved]
    · simp
    · unfold Freed
      simp [hRight]
    · intro k hNe
      unfold Freed rightFreed
      rw [hPcT, Function.update_apply, Function.update_apply,
        if_neg (show ¬ k + 1 = i by omega)]
      split
      · rename_i hEq
        rw [hEq, hPc]
        rfl
      · rfl
    · unfold Freed rightFreed
      rw [hPcT, Function.update_apply, Function.update_apply,
        if_neg (by omega), if_pos (by omega),
        decide_eq_true_iff, hOk.counter, hRight,
        ← counterOf_right, counterOf_le_zero]
      simp [IterPc.freedLeft]
    · unfold setPc
      simp only [freeBlock_worker, decide_eq_true_iff]
    · intro k hK
      rw [blk_setPc, freeBlock_blk hRing hK]
      by_cases hEq : k = i - 1
      · rw [if_pos hEq, Block.freed_zeroedBy, hOld]
        simp [hEq, hOld]
      · simp [hEq]

/- The second step: the counter gets its last value. -/
theorem Inv.finishMove
    {w : W} {i : ℤ}
    (h : Inv s)
    (hTask : (s.worker w).task = .runtime i none)
    (hPc : s.pc i = .finishing .move) :
    Inv (s.finishMove i) ∧
      (s.finishMove i).failure = s.failure := by
  have hPos := h.core.positions
  have hStarted : s.pc i ≠ .notStarted := by simp [hPc]
  have hFinished : s.pc i ≠ .finished := by simp [hPc]
  have hOwn : (s.pc i).freedOwn = false := by rw [hPc]; rfl
  have hRing := hPos.inRing hStarted hOwn
  have hPosted : (s.pc i).posted = true := by rw [hPc]; rfl
  have hStage := (h.core.blocks i hRing).posted hPosted
  have hFlag := h.flags.flag w
  rcases h.of_task_runtime hTask with ⟨-, hAtt, hOthers⟩
  have hState : s.finishMove i =
      (s.setBlock i
        { s.blk i with
          stage := runtimeFinishIterStage
          dataLock := true }).setPc i
            (.finishing .resumeNext) := by
    unfold PipeState.finishMove moveIterStageToDone
    rw [check_eq hStage]
    simp [setBlock, setPc, blk]
  rw [hState]
  refine ⟨?_, rfl⟩
  have hChange := change_setBlock_setPc s hRing
    (.finishing .resumeNext)
    { s.blk i with
      stage := runtimeFinishIterStage
      dataLock := true }
  apply h.of_change (w := w) (v := s.worker w) _ hChange
    (Function.update_eq_self _ _).symm rfl hOthers
  · rw [hPc]
    rfl
  · rw [hPc]
    rfl
  · intro _
    rfl
  · rfl
  · intro j hJ
    exact h.tasks.others hJ
  · rw [hTask]
    apply TaskOk.runtime_none
    simp [IterPc.place]
  · exact ⟨rfl, rfl⟩
  · simp [hTask]
  · apply FlagOk.of_runtime hTask
    · simp
    · exact hFlag.selfSteal
    · exact hFlag.throttleSuspend
    · exact hFlag.onTop (Or.inr ⟨i, none, hTask⟩)
  · apply h.core.movedOn _ hChange rfl hPosted hOwn
      (by rw [hPc]; rfl) rfl rfl rfl rfl rfl
      (by simp [IterPc.place]) (by simp) (by rw [hPc]; rfl)
      (by rw [hPc]; rfl) (Or.inl rfl)
    apply hPos.move hChange.pc rfl (Or.inl rfl) rfl hStarted
      hFinished (by simp)
    · simp [hPc, IterPc.freedOwn]
    · simp [IterPc.freedLeft]
    · left
      rw [hPc]
      rfl

/-
  The worker has looked at the next iteration, which does not
  wait in vain, and goes on with what it has taken.
-/
theorem Inv.to_freeOwn
    {w : W} {i : ℤ} {r : Option ℤ}
    (h : Inv s)
    (hTask : (s.worker w).task = .runtime i none)
    (hPc : s.pc i = .finishing .resumeNext)
    (hStall :
      (s.pc (i + 1)).isMarked = true →
        (s.blk i).stage ≤ (s.blk (i + 1)).stage)
    (hResume :
      ∀ j, r = some j →
        j = i + 1 ∧ (s.pc j).place = .queued ∧
          ∀ w', ¬ s.HoldsIter w' j) :
    Inv ((s.setWorker w
      { s.worker w with task := .runtime i r }).setPc
        i (.finishing .freeOwn)) := by
  have hFlag := h.flags.flag w
  rcases h.of_task_runtime hTask with ⟨-, hAtt, hOthers⟩
  apply h.of_alike (w := w)
    (v := { s.worker w with task := .runtime i r })
    (i := i) (p := .finishing .freeOwn) (b := s.blk i)
  · constructor
    · rfl
    · intro j _
      split
      · rename_i hEq
        rw [hEq]
        rfl
      · rfl
    · rfl
    · intro _ _
      rfl
    · intro _ _
      rfl
  · rfl
  · rfl
  · rw [hPc]
    constructor <;> simp [IterPc.isMarked, IterPc.posted,
      IterPc.moved, IterPc.joined, IterPc.place]
  · rw [hPc]
    rfl
  · rw [hPc]
    rfl
  · rw [hPc]
    rfl
  · simp [hPc]
  · simp [IterPc.place]
  · exact hAtt
  · rfl
  · exact Or.inr hStall
  · exact hOthers
  · intro j hJ w' hNe
    simp only [Task.iters, List.mem_cons,
      Option.mem_toList] at hJ
    rcases hJ with rfl | hJ
    · exact hOthers w' hNe
    · exact (hResume j hJ).2.2 w'
  · apply TaskOk.of_runtime
    · simp [IterPc.place]
    · intro j hJ
      rcases hResume j hJ with ⟨hNext, hPlace, -⟩
      refine ⟨hNext, ?_, by simp⟩
      rw [setPc_pc, Function.update_of_ne (by omega)]
      exact hPlace
  · exact ⟨rfl, rfl⟩
  · simp
  · apply FlagOk.of_runtime (i := i) (r := r)
    · rfl
    · simp
    · intro hSelf
      have hOld := hFlag.selfSteal hSelf
      rw [hTask] at hOld
      simp only [Task.iters, Option.toList_none,
        List.mem_singleton] at hOld
      refine ⟨hOld.1, ?_⟩
      rw [hOld.2]
      exact List.mem_cons_self
    · exact hFlag.throttleSuspend
    · exact hFlag.onTop (Or.inr ⟨i, none, hTask⟩)

/- The third step: the next iteration may be resumed. -/
theorem Inv.finishResumeNext
    {w : W} {i : ℤ}
    (h : Inv s)
    (hTask : (s.worker w).task = .runtime i none)
    (hPc : s.pc i = .finishing .resumeNext)
    (hLock : (s.block (rightOf i)).dataLock = false) :
    Inv (s.finishResumeNext w i) ∧
      (s.finishResumeNext w i).failure = s.failure := by
  have hStarted : s.pc i ≠ .notStarted := by simp [hPc]
  have hOwn : (s.pc i).freedOwn = false := by rw [hPc]; rfl
  rw [rightOf_cast, block_cast] at hLock
  have hSpec := tryResume_spec (t := s) (p := s.pc i)
    h.core hStarted hOwn hLock rfl rfl
    (Function.update_eq_self _ _).symm
  unfold PipeState.finishResumeNext
  rcases hSpec with ⟨hNone, hStall⟩ | ⟨f', hNext, -, -, hSome⟩
  · rw [hNone]
    refine ⟨?_, rfl⟩
    apply h.to_freeOwn hTask hPc hStall
    simp
  · rw [hSome]
    refine ⟨?_, rfl⟩
    have hWake := h.wake (w := w) hNext (by simp [hTask])
    apply hWake.to_freeOwn hTask
    · rw [wake_pc, Function.update_of_ne (by omega)]
      exact hPc
    · rw [wake_pc, Function.update_self]
      simp [IterPc.isMarked, WaitPc.isMarked]
    · intro j hJ
      rw [← Option.some.inj hJ]
      refine ⟨rfl, ?_, ?_⟩
      · rw [wake_pc, Function.update_self]
        rfl
      · intro w'
        apply h.tasks.not_holds <;>
          simp [hNext, IterPc.place, WaitPc.place]

/- The fourth step: its own block. -/
theorem Inv.finishFreeOwn
    {w : W} {i : ℤ} {r : Option ℤ}
    (h : Inv s)
    (hTask : (s.worker w).task = .runtime i r)
    (hPc : s.pc i = .finishing .freeOwn) :
    Keeps s (s.finishFreeOwn w i) := by
  have hPos := h.core.positions
  have hStarted : s.pc i ≠ .notStarted := by simp [hPc]
  have hFinished : s.pc i ≠ .finished := by simp [hPc]
  have hO : (s.pc i).freedOwn = false := by rw [hPc]; rfl
  have hRing := hPos.inRing hStarted hO
  have hOk := h.core.blocks i hRing
  rcases h.of_task_runtime hTask with ⟨-, hAtt, -⟩
  have hSpec := tryFree_spec (s := s) (j := i) (w := some w)
    (q := .finish i) hOk hStarted
    (by rw [hPc]; intro _; rfl) (by simp [hO]) (by simp)
  unfold PipeState.finishFreeOwn
  rcases hSpec with hFail | ⟨-, hFree⟩
  · rw [hFail]
    left
    constructor
    · rfl
    · apply uses_setBlock (s := s) (b :=
        { s.blk i with dataLock := false })
      · rfl
      · rfl
      · rfl
  · rw [hFree]
    right
    refine ⟨?_, freeBlock_failure _ _ _ _⟩
    have hOld : (s.blk i).zeroedBy = [] :=
      hOk.unzeroed (by simp [hO])
    have hBlkI :
        (s.freeBlock i (some w) (.finish i)).blk i =
          (s.blk i).freed (.finish i) := by
      rw [freeBlock_blk hRing hRing, if_pos rfl]
    have hPcT : ∀ b,
        (((s.freeBlock i (some w) (.finish i)).setBlock i
          b).setPc i (.finishing .getNext)).pc =
          Function.update s.pc i (.finishing .getNext) := by
      intro b
      unfold setPc setBlock
      rw [freeBlock_pc]
    have hBlkT : ∀ b k, s.InRing k →
        (((s.freeBlock i (some w) (.finish i)).setBlock i
          b).setPc i (.finishing .getNext)).blk k =
          if k = i then b else s.blk k := by
      intro b k hK
      have hRingT :
          (s.freeBlock i (some w) (.finish i)).InRing i := by
        unfold InRing cur
        rw [freeBlock_control]
        exact hRing
      have hRingK :
          (s.freeBlock i (some w) (.finish i)).InRing k := by
        unfold InRing cur
        rw [freeBlock_control]
        exact hK
      rw [blk_setPc, blk_setBlock_of_inRing hRingT hRingK]
      split
      · rfl
      · rename_i hNe
        rw [freeBlock_blk hRing hK, if_neg hNe]
    dsimp only
    rw [hBlkI]
    have hChange : Change s
        (((s.freeBlock i (some w) (.finish i)).setBlock i
          { (s.blk i).freed (.finish i) with
            dataLock := false }).setPc i
              (.finishing .getNext)) i (.finishing .getNext)
        { (s.blk i).freed (.finish i) with
          dataLock := false } := by
      constructor
      · exact hPcT _
      · intro k hK
        exact hBlkT _ k hK
      · simp [cur]
      · intro k _
        simp [attachedAt, cur]
      · intro k _
        simp [throttledAt, cur]
    apply h.of_free (w := w) (i := i) (j := i)
      (p := .finishing .getNext) (r := r)
      (z := (s.blk i).cleanupCounter -
        cleanupFinishIterVal ≤ 0)
      (q := .finish i)
    · apply h.core.freeOwn _ hChange
      · rw [hPc]
        constructor <;> simp [IterPc.isMarked,
          IterPc.posted, IterPc.moved, IterPc.joined,
          IterPc.place]
      · exact IterPc.alike_self (Or.inr rfl)
      · rfl
      · rw [hPc]
        rfl
      · rfl
      · exact hO
      · rfl
      · rw [hPc]
        rfl
      · simpa [attachedAt, cur] using hAtt
      · simp [throttledAt, cur]
      · simp
      · apply hChange.children h.core
        · simp
        · rw [hPc]
          rfl
        · simp [attachedAt, cur]
      · apply hPos.move hChange.pc hChange.cur
        · simp
        · simp
        · exact hStarted
        · exact hFinished
        · simp
        · simp [IterPc.freedOwn]
        · simp [IterPc.freedLeft]
        · left
          rw [hPc]
          rfl
    · exact hTask
    · exact hChange.pc
    · rfl
    · simp
    · simp
    · intro _
      rfl
    · simp
    · unfold Freed
      simp [hO]
    · intro k hNe
      unfold Freed rightFreed
      rw [hChange.pc_apply, hChange.pc_apply, if_neg hNe]
      split
      · rename_i hEq
        rw [hEq, hPc]
        rfl
      · rfl
    · unfold Freed
      rw [hChange.pc_apply, if_pos rfl, decide_eq_true_iff,
        hOk.counter, hO, ← counterOf_own, counterOf_le_zero]
      unfold rightFreed
      rw [hChange.pc_apply, if_neg (by omega)]
      simp [IterPc.freedOwn]
    · unfold setPc setBlock
      simp only [freeBlock_worker, decide_eq_true_iff]
    · intro k hK
      rw [hBlkT _ k hK]
      by_cases hEq : k = i
      · rw [if_pos hEq]
        dsimp only
        rw [Block.freed_zeroedBy, hOld]
        simp [hEq, hOld]
      · simp [hEq]

omit [DecidableEq W] in
/- Who does not wake the next iteration need not. -/
theorem Core.stalls
    (h : Core s) {i : ℤ}
    (hZero : 0 ≤ i)
    (hWakes : (s.pc i).wakes = false)
    (hMark : (s.pc (i + 1)).isMarked = true) :
    (s.blk i).stage ≤ (s.blk (i + 1)).stage := by
  by_contra hLt
  have hStarted : s.pc (i + 1) ≠ .notStarted := by
    intro hEq
    rw [hEq] at hMark
    simp [IterPc.isMarked] at hMark
  have hFree : (s.pc (i + 1)).freedLeft = false := by
    cases hPc : s.pc (i + 1) with
    | wait f p => rfl
    | _ => simp [hPc, IterPc.isMarked] at hMark
  have hLink := h.links (i + 1) (by omega) hStarted hFree
  rw [show i + 1 - 1 = i by omega] at hLink
  have hTrue := hLink.wakes hMark (not_le.mp hLt)
  rw [hWakes] at hTrue
  exact Bool.noConfusion hTrue

/- The iteration is over, and nobody has it any more. -/
theorem Inv.leave
    {w : W} {i : ℤ}
    (h : Inv s)
    (hPc : s.pc i = .finishing .getNext)
    (hFree : ∀ w', ¬ s.HoldsIter w' i)
    (hTask :
      (s.worker w).task ≠ .control ∧
        (s.worker w).task ≠ .nextControl) :
    Inv (s.setPc i .finished) := by
  have hPos := h.core.positions
  have hAtt : s.attachedAt i = false := by
    by_contra hNot
    simp only [attachedAt, Bool.not_eq_false,
      Bool.and_eq_true, decide_eq_true_eq] at hNot
    rcases hNot with ⟨hCpc, rfl⟩
    cases hAt : s.control.pc with
    | child b =>
        have hPlace := hPos.child b hAt
        rw [hPc] at hPlace
        simp [IterPc.place] at hPlace
    | popped =>
        have hPlace := hPos.popped hAt
        rw [hPc] at hPlace
        simp [IterPc.place] at hPlace
    | _ =>
        rw [hAt] at hCpc
        simp [ControlPc.attached] at hCpc
  have hPcT : ∀ j ∈ (s.worker w).task.iters,
      (s.setPc i .finished).pc j = s.pc j := by
    intro j hJ
    rw [setPc_pc, Function.update_of_ne]
    rintro rfl
    exact hFree w hJ
  have hMoved : ∀ j, (s.pc j).moved = true →
      ((s.setPc i .finished).pc j).moved = true := by
    intro j hJ
    rw [setPc_pc, Function.update_apply]
    split
    · rfl
    · exact hJ
  apply h.of_alike (w := w) (v := s.worker w) (i := i)
    (p := .finished) (b := s.blk i)
  · constructor
    · rfl
    · intro j _
      split
      · rename_i hEq
        rw [hEq]
        rfl
      · rfl
    · rfl
    · intro _ _
      rfl
    · intro _ _
      rfl
  · exact (Function.update_eq_self _ _).symm
  · rfl
  · rw [hPc]
    constructor <;> simp [IterPc.isMarked, IterPc.posted,
      IterPc.moved, IterPc.joined, IterPc.place]
  · rw [hPc]
    rfl
  · rw [hPc]
    rfl
  · rw [hPc]
    rfl
  · simp [hPc]
  · simp [IterPc.place]
  · exact hAtt
  · rfl
  · right
    have hOne := hPos.one_le (i := i) (by simp [hPc])
    exact h.core.stalls (by omega) (by rw [hPc]; rfl)
  · intro w' _
    exact hFree w'
  · intro j hJ
    exact h.tasks.others hJ
  · apply (h.tasks.task w).congr
    · intro j hJ
      exact ⟨hPcT j hJ, rfl⟩
    · intro _
      rfl
  · exact ⟨rfl, rfl⟩
  · exact hTask
  · exact (h.flags.flag w).congr hPcT hMoved id

/- The worker has finished its iteration, and has no frame. -/
theorem Inv.retire
    {w : W} {i : ℤ} {v : Worker P R}
    (h : Inv s)
    (hTask : (s.worker w).task = .runtime i none)
    (hPc : s.pc i = .finishing .getNext)
    (hNone : (s.worker w).parentResume = .noParent)
    (hV : v.task = .idle)
    (hParent : v.parentResume = .noParent) :
    Inv ((s.setWorker w v).setPc i .finished) := by
  rcases h.of_task_runtime hTask with ⟨-, -, hOthers⟩
  have hIdle := h.release (w := w) hV hParent
    (by simp [Resumes, hNone])
  apply hIdle.leave (w := w) hPc
  · intro w'
    unfold HoldsIter
    rw [setWorker_worker, Function.update_apply]
    split
    · simp [hV, Task.iters]
    · rename_i hNe
      exact hOthers w' hNe
  · simp [hV]

/-
  The last steps of `piper_finish_iter_and_get_next`: the
  next iteration, the parent, or nothing.
-/
theorem Inv.finishGetNext
    {w : W} {i : ℤ} {r : Option ℤ}
    (h : Inv s)
    (hTask : (s.worker w).task = .runtime i r)
    (hPc : s.pc i = .finishing .getNext) :
    Inv (s.finishGetNext w i r) ∧
      (s.finishGetNext w i r).failure = s.failure := by
  have hFlag := h.flags.flag w
  rcases h.of_task_runtime hTask with ⟨-, -, hOthers⟩
  cases r with
  | some j =>
      refine ⟨?_, rfl⟩
      have hResume := (h.tasks.task w).resume i j hTask
      have hHolds : s.HoldsIter w j := by
        simp [HoldsIter, hTask, Task.iters]
      have hLe := h.core.positions.le_cur (i := j) (by
        intro hEq
        have hPlace := hResume.2.1
        rw [hEq] at hPlace
        simp [IterPc.place] at hPlace)
      have hGive := h.giveIter (w := w) (j := j)
        (v := { s.worker w with
          iterFfOnTop := false
          task := .nextIter j })
        hResume.2.1 (h.tasks.others hHolds) rfl ⟨rfl, rfl⟩
        (by
          intro hSelf
          have hOld := (hFlag.selfSteal hSelf).2
          rw [hTask] at hOld
          simp only [Task.iters, List.mem_cons,
            Option.mem_toList, Option.some.injEq] at hOld
          rcases hOld with hEq | hEq <;> omega)
        (by
          intro _
          rw [hResume.1, show i + 1 - 1 = i by omega, hPc]
          rfl)
      have hLeave := hGive.leave (w := w) (i := i) hPc
        (by
          intro w'
          unfold HoldsIter
          rw [setWorker_worker, Function.update_apply]
          split
          · simp only [Task.iters, List.mem_singleton]
            omega
          · rename_i hNe
            exact hOthers w' hNe)
        (by simp)
      unfold PipeState.finishGetNext
      convert hLeave using 1
      simp [setWorker, setPc]
  | none =>
      cases hParent : (s.worker w).parentResume with
      | noParent =>
          have hRetire := h.retire (w := w)
            (v := { s.worker w with
              iterFfOnTop := false
              task := .idle })
            hTask hPc hParent rfl hParent
          have hState : s.finishGetNext w i none =
              (s.setWorker w
                { s.worker w with
                  iterFfOnTop := false
                  task := .idle }).setPc i .finished := by
            simp [PipeState.finishGetNext,
              tryRemoveImplicitParent, hParent, setWorker,
              setPc, check]
          rw [hState]
          exact ⟨hRetire, rfl⟩
      | selfSteal =>
          have hCpc := (hFlag.selfSteal hParent).1
          have hFlags : s.control.resumeFlags =
              .normalCilk :=
            h.flags.normal_of_continuation hCpc
          rcases h.takeSelf hParent with ⟨hTaken, hFree⟩
          have hRetire := hTaken.retire (w := w) (i := i)
            (v := { s.worker w with
              parentResume := .noParent
              iterFfOnTop := false
              task := .idle })
            (by simp [hTask]) hPc (by simp) rfl rfl
          have hHand := hRetire.handControl (w := w)
            (by simp)
            (by
              intro w' hNe
              unfold HoldsControl
              simp only [setPc_worker, setWorker_worker,
                Function.update_of_ne hNe]
              exact hFree w' hNe)
            (Or.inl hCpc)
          have hState : s.finishGetNext w i none =
              (((s.setWorker w
                { s.worker w with
                  parentResume := .noParent }).setWorker w
                { s.worker w with
                  parentResume := .noParent
                  iterFfOnTop := false
                  task := .idle }).setPc
                    i .finished).handControl w := by
            simp [PipeState.finishGetNext,
              tryRemoveImplicitParent, hParent, setWorker,
              setPc, check, hFlags, PipeState.handControl]
          rw [hState]
          exact ⟨hHand, rfl⟩
      | throttleSuspend =>
          have hCpc := (hFlag.throttleSuspend hParent).1
          have hFlags := h.flags.suspended.mpr hCpc
          have hHeld := h.not_holdsControl hCpc
          have hTaken := h.takeThrottle hParent
          have hRetire := hTaken.retire (w := w) (i := i)
            (v := { s.worker w with
              parentResume := .noParent
              iterFfOnTop := false
              task := .idle })
            (by simp [hTask]) hPc (by simp) rfl rfl
          have hHand := hRetire.handControl (w := w)
            (by simp)
            (by
              intro w' hNe
              unfold HoldsControl
              simp only [setPc_worker, setWorker_worker,
                setControl_worker, Function.update_of_ne hNe]
              exact hHeld w')
            (Or.inr (Or.inl ⟨rfl, rfl⟩))
          have hState : s.finishGetNext w i none =
              ((((s.setWorker w
                { s.worker w with
                  parentResume := .noParent }).setControl
                { s.control with
                  resumeFlags := .resumingControl
                  pc := .passing
                  continuedBy :=
                    (s.worker w).flagSetBy }).setWorker w
                { s.worker w with
                  parentResume := .noParent
                  iterFfOnTop := false
                  task := .idle }).setPc
                    i .finished).handControl w := by
            simp [PipeState.finishGetNext,
              tryRemoveImplicitParent, hParent, setWorker,
              setPc, setControl, hFlags,
              PipeState.handControl]
          rw [hState]
          exact ⟨hHand, rfl⟩

end Piper

end PRacer
