import Mathlib.Tactic.Common
import PRacer.Piper.Resumption

/-
  The decrements of the cleanup counters by iterations.

  Main declarations:
    * `counterOf_le_one`, `counterOf_le_zero`
    * `Block.freed`, `BlockOk.freed`, `tryFree_spec`
    * `Core.freeLeft`, `Core.freeOwn`
-/

------------------------------------------------------------
-- Counters
------------------------------------------------------------

namespace PRacer

namespace Piper

open PipeState

variable {W P R : Type} {K : ℕ}

theorem counterOf_nonneg (own right throttled : Bool) :
    0 ≤ counterOf own right throttled := by
  cases own <;> cases right <;> cases throttled <;> decide

/- Ready for reuse: both iterations are through. -/
theorem counterOf_le_one (own right throttled : Bool) :
    counterOf own right throttled ≤ cleanupThrottleVal ↔
      (own && right) = true := by
  cases own <;> cases right <;> cases throttled <;> decide

/- Ready to resume: the control frame has been here, too. -/
theorem counterOf_le_zero (own right throttled : Bool) :
    counterOf own right throttled ≤ 0 ↔
      (own && right && throttled) = true := by
  cases own <;> cases right <;> cases throttled <;> decide

theorem counterOf_right (own throttled : Bool) :
    counterOf own true throttled =
      counterOf own false throttled -
        cleanupFinishIterVal := by
  cases own <;> cases throttled <;> decide

theorem counterOf_own (right throttled : Bool) :
    counterOf true right throttled =
      counterOf false right throttled -
        cleanupFinishIterVal := by
  cases right <;> cases throttled <;> decide

theorem counterOf_throttled (own right : Bool) :
    counterOf own right true =
      counterOf own right false - cleanupThrottleVal := by
  cases own <;> cases right <;> decide

------------------------------------------------------------
-- Blocks
------------------------------------------------------------

/- A block after the decrement of an iteration. -/
def Block.freed (b : Block) (party : Party) : Block :=
  if (b.finishIter party).readyForReuse then
    (b.finishIter party).markFrameAsDone
  else b.finishIter party

namespace Block

variable {b : Block} {party : Party}

@[simp] theorem finishIter_counter :
    (b.finishIter party).cleanupCounter =
      b.cleanupCounter - cleanupFinishIterVal := rfl

@[simp] theorem freed_counter :
    (b.freed party).cleanupCounter =
      b.cleanupCounter - cleanupFinishIterVal := by
  unfold freed
  split <;> rfl

theorem freed_zeroedBy :
    (b.freed party).zeroedBy =
      if b.cleanupCounter - cleanupFinishIterVal ≤ 0 then
        party :: b.zeroedBy
      else b.zeroedBy := by
  unfold freed
  split <;> rfl

/- Both iterations are through now. -/
theorem freed_of_ready
    (hReady :
      b.cleanupCounter - cleanupFinishIterVal ≤
        cleanupThrottleVal) :
    (b.freed party).iterStatus = .finished ∧
      (b.freed party).blockStatus = .available ∧
      (b.freed party).marks = b.marks + 1 := by
  have hIf : (b.finishIter party).readyForReuse = true :=
    decide_eq_true hReady
  unfold freed
  rw [if_pos hIf]
  exact ⟨rfl, rfl, rfl⟩

theorem freed_of_not_ready
    (hReady :
      ¬ b.cleanupCounter - cleanupFinishIterVal ≤
        cleanupThrottleVal) :
    (b.freed party).iterStatus = b.iterStatus ∧
      (b.freed party).blockStatus = b.blockStatus ∧
      (b.freed party).marks = b.marks := by
  have hIf : (b.finishIter party).readyForReuse = false :=
    decide_eq_false hReady
  unfold freed
  rw [if_neg (by rw [hIf]; exact Bool.false_ne_true)]
  exact ⟨rfl, rfl, rfl⟩

theorem freed_rest (b : Block) (party : Party) :
    (b.freed party).iterNum = b.iterNum ∧
      (b.freed party).stage = b.stage ∧
      (b.freed party).cachedLeftStage = b.cachedLeftStage ∧
      (b.freed party).resumeFlags = b.resumeFlags ∧
      (b.freed party).dataLock = b.dataLock := by
  unfold freed
  split <;> exact ⟨rfl, rfl, rfl, rfl, rfl⟩

end Block

theorem IterPc.freedOwn_of_joined
    {p : IterPc} (hJoined : p.joined = true) :
    p.freedOwn = false := by
  cases p with
  | finishing q =>
      cases q <;> simp [joined] at hJoined
      rfl
  | _ => first | rfl | simp [joined] at hJoined

/-
  A decrement of the iteration itself or of its right
  neighbour, which has not been made before.
-/
theorem BlockOk.freed
    {i : ℤ} {p p' : IterPc} {right right' : Bool}
    {attached attached' throttled : Bool} {b : Block}
    {party : Party}
    (h : BlockOk i p right attached throttled b)
    (hAlike : p.Alike p')
    (hCount :
      counterOf p'.freedOwn right' throttled =
        counterOf p.freedOwn right throttled -
          cleanupFinishIterVal)
    (hNot : (p.freedOwn && right) = false)
    (hAtt : attached = false ∨ p'.joined = false)
    (hAtt' : attached' = false)
    (hParty :
      throttled = true → ∀ k, party ≠ .attachedExit k) :
    BlockOk i p' right' attached' throttled
      (b.freed party) := by
  have hCounter :
      b.cleanupCounter - cleanupFinishIterVal =
        counterOf p'.freedOwn right' throttled := by
    rw [h.counter, hCount]
  have hReady :
      b.cleanupCounter - cleanupFinishIterVal ≤
          cleanupThrottleVal ↔
        (p'.freedOwn && right') = true := by
    rw [hCounter, counterOf_le_one]
  have hZero :
      b.cleanupCounter - cleanupFinishIterVal ≤ 0 ↔
        (p'.freedOwn && right' && throttled) = true := by
    rw [hCounter, counterOf_le_zero]
  have hRest := Block.freed_rest b party
  have hOld : b.zeroedBy = [] :=
    h.unzeroed (by simp [hNot])
  have hMarks : b.marks = 0 := by
    rw [h.marks, hNot]
    rfl
  have hInUse : b.blockStatus ≠ .available := by
    intro hEq
    have hBoth := h.available.mp hEq
    rw [hBoth.1, hBoth.2] at hNot
    exact Bool.noConfusion hNot
  have hStatus :
      (b.freed party).iterStatus =
        if (p'.freedOwn && right') = true then .finished
        else b.iterStatus := by
    split
    · rename_i hBoth
      exact (Block.freed_of_ready (hReady.mpr hBoth)).1
    · rename_i hBoth
      exact (Block.freed_of_not_ready
        (fun hLe => hBoth (hReady.mp hLe))).1
  constructor
  · rw [Block.freed_counter, hCounter]
  · by_cases hBoth : (p'.freedOwn && right') = true
    · rw [(Block.freed_of_ready (hReady.mpr hBoth)).2.1]
      simpa using hBoth
    · rw [(Block.freed_of_not_ready
        (fun hLe => hBoth (hReady.mp hLe))).2.1]
      simpa [hInUse] using hBoth
  · split
    · rename_i hBoth
      rw [(Block.freed_of_ready (hReady.mpr hBoth)).2.2,
        hMarks]
    · rename_i hBoth
      rw [(Block.freed_of_not_ready
        (fun hLe => hBoth (hReady.mp hLe))).2.2, hMarks]
  · intro hAll
    rw [Block.freed_zeroedBy, if_neg, hOld]
    rw [hZero, hAll]
    exact Bool.false_ne_true
  · intro hAll
    rw [Block.freed_zeroedBy, if_pos (hZero.mpr hAll), hOld]
    refine ⟨party, rfl, hParty ?_⟩
    simp only [Bool.and_eq_true] at hAll
    exact hAll.2
  · rintro (hEq | hBoth)
    · exact absurd hEq hAlike.started'
    · rw [hStatus, if_pos hBoth]
  · intro hMark
    have hOwn : p'.freedOwn = false := by
      cases hP : p' with
      | wait f q => rfl
      | _ => simp [hP, IterPc.isMarked] at hMark
    rw [hStatus, hRest.2.2.2.1, hOwn]
    rw [hAlike.isMarked] at hMark
    exact h.marked hMark
  · intro hStarted hBoth hMark
    rw [hStatus, hBoth]
    rw [hAlike.isMarked] at hMark
    exact h.active hAlike.started hNot hMark
  · simp [hAtt']
  · intro _ hJoined hMark
    have hOwn := IterPc.freedOwn_of_joined hJoined
    have hAtt₀ : attached = false := by
      rcases hAtt with hCase | hCase
      · exact hCase
      · rw [hJoined] at hCase
        exact Bool.noConfusion hCase
    rw [hStatus, hOwn]
    rw [hAlike.isMarked] at hMark
    exact h.promoted hAtt₀ (hAlike.joined hJoined) hMark
  · intro hQueued
    exact absurd hQueued hAlike.queued
  · intro f hEq
    exact absurd hEq (hAlike.locked f)
  · rw [hRest.1]
    intro hZ _
    exact h.iterNum hZ hAlike.started
  · rw [hRest.2.1]
    intro hZ _
    exact h.started hZ hAlike.started
  · rw [hRest.2.1, hAlike.posted, hAlike.moved]
    intro hZ _
    exact h.early hZ hAlike.started
  · rw [hRest.2.1, hAlike.posted]
    exact h.posted
  · rw [hRest.2.1, hAlike.moved]
    exact h.moved

------------------------------------------------------------
-- The Core
------------------------------------------------------------

variable {s t : PipeState W P R K}

/- The link depends on few fields of the blocks. -/
theorem LinkOk.congr
    {p pl : IterPc} {b b' bl bl' : Block}
    (h : LinkOk p b pl bl)
    (hStage : b'.stage = b.stage)
    (hCached : b'.cachedLeftStage = b.cachedLeftStage)
    (hLeft : bl'.stage = bl.stage) :
    LinkOk p b' pl bl' := by
  constructor
  · rw [hCached, hLeft]
    exact h.cached
  · rw [hStage, hLeft]
    exact h.wakes

/- Iteration `i` decrements its left block. -/
theorem Core.freeLeft
    {i : ℤ} {p : IterPc} {q : Party}
    (h : Core s)
    (hPos : Positions t)
    (hPc : t.pc = Function.update s.pc i p)
    (hBlk :
      ∀ j, s.InRing j →
        t.blk j =
          if j = i - 1 then (s.blk j).freed q
          else s.blk j)
    (hControl : t.control = s.control)
    (hAlike : (s.pc i).Alike p)
    (hJoined : p.joined = (s.pc i).joined)
    (hOwn : p.freedOwn = (s.pc i).freedOwn)
    (hO : (s.pc i).freedLeft = false)
    (hN : p.freedLeft = true)
    (hWakes :
      p.wakes = true ∨ (s.pc (i + 1)).isMarked = false)
    (hLeft : (s.pc (i - 1)).Alike (s.pc (i - 1)))
    (hParty :
      s.throttledAt (i - 1) = true →
        ∀ k, q ≠ .attachedExit k) :
    Core t := by
  have hCur : t.cur = s.cur := by
    unfold cur
    rw [hControl]
  have hAtt : t.attachedAt = s.attachedAt := by
    funext j
    unfold attachedAt
    rw [hCur, hControl]
  have hThr : t.throttledAt = s.throttledAt := by
    funext j
    unfold throttledAt
    rw [hCur, hControl]
  have hRing : ∀ j, t.InRing j ↔ s.InRing j := by
    intro j
    unfold InRing
    rw [hCur]
  have hApply : ∀ j,
      t.pc j = if j = i then p else s.pc j := by
    intro j
    rw [hPc, Function.update_apply]
  have hFields : ∀ j, s.InRing j →
      (t.blk j).stage = (s.blk j).stage ∧
        (t.blk j).cachedLeftStage =
          (s.blk j).cachedLeftStage := by
    intro j hJ
    rw [hBlk j hJ]
    split
    · have hRest := Block.freed_rest (s.blk j) q
      exact ⟨hRest.2.1, hRest.2.2.1⟩
    · exact ⟨rfl, rfl⟩
  refine ⟨hPos, ?_, ?_, ?_⟩
  · intro j hJ
    rw [hRing] at hJ
    have hOk := h.blocks j hJ
    rw [hApply, hBlk j hJ, hAtt, hThr]
    unfold rightFreed at hOk ⊢
    rw [hApply]
    by_cases hEq : j = i
    · subst hEq
      rw [if_pos rfl, if_neg (by omega), if_neg (by omega)]
      exact hOk.alike hAlike hOwn rfl
    · rw [if_neg hEq]
      by_cases hNext : j = i - 1
      · subst hNext
        rw [if_pos (by omega), if_pos rfl, hN]
        rw [show i - 1 + 1 = i by omega, hO] at hOk
        have hNot := h.positions.not_attached_left
          hAlike.started
        apply hOk.freed hLeft (counterOf_right _ _) _
          (Or.inl hNot) hNot hParty
        exact Bool.and_false _
      · rw [if_neg (by omega), if_neg hNext]
        exact hOk
  · intro j hOne hStarted hFree
    have hRingJ := hPos.inRing hStarted
      (IterPc.freedOwn_of_freedLeft hFree)
    have hRingL := hPos.inRing_left hStarted hFree
    rw [hRing] at hRingJ hRingL
    rw [hApply] at hStarted hFree
    have hNe : j ≠ i := by
      rintro rfl
      rw [if_pos rfl, hN] at hFree
      exact Bool.noConfusion hFree
    rw [if_neg hNe] at hStarted hFree
    have hLink := (h.links j hOne hStarted hFree).congr
      (hFields j hRingJ).1 (hFields j hRingJ).2
      (hFields _ hRingL).1
    rw [hApply, hApply, if_neg hNe]
    refine ⟨hLink.cached, ?_⟩
    intro hMark hLt
    split
    · rename_i hNext
      rcases hWakes with hWakes | hNone
      · exact hWakes
      · rw [← hNext, show j - 1 + 1 = j by omega, hMark]
          at hNone
        exact Bool.noConfusion hNone
    · exact hLink.wakes hMark hLt
  · intro j
    rw [hControl, hAtt, hApply, h.children j]
    split
    · rename_i hEq
      rw [hEq, hJoined]
    · rfl

/- Iteration `i` decrements its own block. -/
theorem Core.freeOwn
    {i : ℤ} {p : IterPc} {q : Party} {lock : Bool}
    (h : Core s)
    (hPos : Positions t)
    (hChange : Change s t i p
      { (s.blk i).freed q with dataLock := lock })
    (hAlike : (s.pc i).Alike p)
    (hAlike' : p.Alike p)
    (hJoined : p.joined = false)
    (hLeft : p.freedLeft = (s.pc i).freedLeft)
    (hLeft' : p.freedLeft = true)
    (hO : (s.pc i).freedOwn = false)
    (hN : p.freedOwn = true)
    (hWakes : p.wakes = (s.pc i).wakes)
    (hAtt : t.attachedAt i = false)
    (hThr : t.throttledAt i = s.throttledAt i)
    (hParty :
      s.throttledAt i = true → ∀ k, q ≠ .attachedExit k)
    (hChildren :
      ∀ j, j ∈ t.control.children ↔
        (t.pc j).joined = true ∧ t.attachedAt j = false) :
    Core t := by
  have hRest := Block.freed_rest (s.blk i) q
  apply h.change hPos hChange hLeft
  · intro hRing
    have hOk := h.blocks i hRing
    rw [hAtt, hThr]
    have hFreed : BlockOk i p (s.rightFreed i) false
        (s.throttledAt i) ((s.blk i).freed q) := by
      apply hOk.freed hAlike _ _ (Or.inr hJoined) rfl hParty
      · rw [hN, hO]
        exact counterOf_own _ _
      · rw [hO]
        rfl
    exact hFreed.alike hAlike' rfl rfl
  · intro _ hFree
    rw [hLeft'] at hFree
    exact Bool.noConfusion hFree
  · intro _ hLink
    have hSame : LinkOk (s.pc (i + 1)) (s.blk (i + 1))
        (s.pc i) ((s.blk i).freed q) :=
      hLink.congr rfl rfl hRest.2.1
    refine ⟨hSame.cached, ?_⟩
    rw [hWakes]
    exact hSame.wakes
  · exact hChildren

/- The stage counter gets its last value. -/
theorem BlockOk.movedOn
    {i : ℤ} {p p' : IterPc} {right attached throttled : Bool}
    {b : Block} {lock : Bool}
    (h : BlockOk i p right attached throttled b)
    (hPosted : p.posted = true)
    (hOwn : p.freedOwn = false)
    (hMark : p.isMarked = false)
    (hPosted' : p'.posted = false)
    (hMoved' : p'.moved = true)
    (hOwn' : p'.freedOwn = false)
    (hMark' : p'.isMarked = false)
    (hJoined' : p'.joined = false)
    (hQueued' : p'.place ≠ .queued)
    (hStarted' : p' ≠ .notStarted) :
    BlockOk i p' right attached throttled
      { b with
        stage := runtimeFinishIterStage
        dataLock := lock } := by
  have hStarted : p ≠ .notStarted := by
    rintro rfl
    simp [IterPc.posted] at hPosted
  constructor
  · rw [hOwn', ← hOwn]
    exact h.counter
  · rw [hOwn', ← hOwn]
    exact h.available
  · rw [hOwn', ← hOwn]
    exact h.marks
  · intro _
    exact h.unzeroed (by simp [hOwn])
  · simp [hOwn']
  · simp [hOwn', hStarted']
  · simp [hMark']
  · intro _ _ _
    exact h.active hStarted (by simp [hOwn]) hMark
  · intro hAtt _
    exact h.standard hAtt hStarted
  · simp [hJoined']
  · intro hQueued
    exact absurd hQueued hQueued'
  · intro f hEq
    rw [hEq] at hMark'
    simp [IterPc.isMarked, WaitPc.isMarked] at hMark'
  · intro hZero _
    exact h.iterNum hZero hStarted
  · intro _ _
    exact (zero_lt_final.trans
      (final_lt_post.trans post_lt_finish)).le
  · simp [hMoved']
  · simp [hPosted']
  · intro _ _
    rfl

/- Iteration `i` publishes the end of its last stage. -/
theorem Core.movedOn
    {i : ℤ} {p : IterPc} {lock : Bool}
    (h : Core s)
    (hPos : Positions t)
    (hChange : Change s t i p
      { s.blk i with
        stage := runtimeFinishIterStage
        dataLock := lock })
    (hControl : t.control = s.control)
    (hPosted : (s.pc i).posted = true)
    (hOwn : (s.pc i).freedOwn = false)
    (hMark : (s.pc i).isMarked = false)
    (hPosted' : p.posted = false)
    (hMoved' : p.moved = true)
    (hOwn' : p.freedOwn = false)
    (hMark' : p.isMarked = false)
    (hJoined' : p.joined = false)
    (hQueued' : p.place ≠ .queued)
    (hStarted' : p ≠ .notStarted)
    (hJoined : (s.pc i).joined = false)
    (hLeft : p.freedLeft = (s.pc i).freedLeft)
    (hWakes :
      p.wakes = true ∨ (s.pc (i + 1)).isMarked = false) :
    Core t := by
  have hStarted : s.pc i ≠ .notStarted := by
    intro hEq
    rw [hEq] at hPosted
    simp [IterPc.posted] at hPosted
  have hAtt : t.attachedAt i = s.attachedAt i := by
    unfold attachedAt cur
    rw [hControl]
  have hThr : t.throttledAt i = s.throttledAt i := by
    unfold throttledAt cur
    rw [hControl]
  apply h.change hPos hChange hLeft
  · intro hRing
    rw [hAtt, hThr]
    exact (h.blocks i hRing).movedOn hPosted hOwn hMark
      hPosted' hMoved' hOwn' hMark' hJoined' hQueued'
      hStarted'
  · intro hOne hFree
    rw [hLeft] at hFree
    refine ⟨(h.links i hOne hStarted hFree).cached, ?_⟩
    simp [hMark']
  · intro _ hLink
    constructor
    · by_cases hRing : s.InRing i
      · have hStage := (h.blocks i hRing).posted hPosted
        exact hLink.cached.trans
          (hStage.trans_le post_lt_finish.le)
      · exact absurd (h.positions.inRing hStarted hOwn) hRing
    · intro hWait _
      rcases hWakes with hWakes | hNone
      · exact hWakes
      · rw [hWait] at hNone
        exact Bool.noConfusion hNone
  · apply hChange.children h _ _ hAtt
    · rw [hControl]
    · rw [hJoined', hJoined]

------------------------------------------------------------
-- Decrements
------------------------------------------------------------

variable [DecidableEq W]

/- What the decrement of block `j` does. -/
def PipeState.freeBlock
    (s : PipeState W P R K) (j : ℤ) (w : Option W)
    (party : Party) : PipeState W P R K :=
  let t := s.setBlock j ((s.blk j).freed party)
  match w with
  | none => t
  | some w =>
      if (s.blk j).cleanupCounter - cleanupFinishIterVal ≤ 0
      then
        t.setWorker w
          { s.worker w with
            parentResume := .throttleSuspend
            flagSetBy := party }
      else t

section FreeBlock

variable (s : PipeState W P R K) (j : ℤ) (w : Option W)
variable (party : Party)

theorem PipeState.freeBlock_block :
    (s.freeBlock j w party).block =
      (s.setBlock j ((s.blk j).freed party)).block := by
  unfold freeBlock
  cases w with
  | none => rfl
  | some w =>
      dsimp only
      split <;> rfl

@[simp] theorem PipeState.freeBlock_pc :
    (s.freeBlock j w party).pc = s.pc := by
  unfold freeBlock
  cases w with
  | none => rfl
  | some w =>
      dsimp only
      split <;> rfl

@[simp] theorem PipeState.freeBlock_control :
    (s.freeBlock j w party).control = s.control := by
  unfold freeBlock
  cases w with
  | none => rfl
  | some w =>
      dsimp only
      split <;> rfl

@[simp] theorem PipeState.freeBlock_failure :
    (s.freeBlock j w party).failure = s.failure := by
  unfold freeBlock
  cases w with
  | none => rfl
  | some w =>
      dsimp only
      split <;> rfl

theorem PipeState.freeBlock_worker (w : W) :
    (s.freeBlock j (some w) party).worker =
      Function.update s.worker w
        (if (s.blk j).cleanupCounter -
            cleanupFinishIterVal ≤ 0 then
          { s.worker w with
            parentResume := .throttleSuspend
            flagSetBy := party }
        else s.worker w) := by
  unfold freeBlock
  dsimp only
  split
  · rfl
  · rw [Function.update_eq_self]
    rfl

end FreeBlock

theorem PipeState.freeBlock_blk
    {j k : ℤ} {w : Option W} {party : Party}
    (hJ : s.InRing j)
    (hK : s.InRing k) :
    (s.freeBlock j w party).blk k =
      if k = j then (s.blk j).freed party else s.blk k := by
  have hSet := blk_setBlock_of_inRing hJ hK
    ((s.blk j).freed party)
  unfold blk at hSet ⊢
  rw [freeBlock_block]
  exact hSet

/-
  `piper_try_free_iter_data_block_common`: only the assertion
  on the stage number can fail.
-/
theorem tryFree_spec
    {j : ℤ} {p : IterPc} {right attached throttled : Bool}
    {w : Option W} {q : Party}
    (hOk : BlockOk j p right attached throttled (s.blk j))
    (hStarted : p ≠ .notStarted)
    (hMark :
      stageUserToSys postIterCleanupStage ≤
        (s.blk j).stage → p.isMarked = false)
    (hNot : (p.freedOwn && right) = false)
    (hNone : w = none → throttled = false) :
    s.tryFreeIterDataBlock j w q = s.fail .stage ∨
      stageUserToSys postIterCleanupStage ≤
          (s.blk j).stage ∧
        s.tryFreeIterDataBlock j w q =
          s.freeBlock j w q := by
  unfold tryFreeIterDataBlock
  rw [block_cast]
  split
  · rename_i hStage
    right
    refine ⟨hStage, ?_⟩
    dsimp only
    have hCheck :
        ((s.blk j).finishIter q).blockStatus ≠
            .available ∧
          0 ≤ ((s.blk j).finishIter q).cleanupCounter ∧
          (w = none →
            ((s.blk j).finishIter
              q).readyToResumeAfterThrottle = false) ∧
          (((s.blk j).finishIter q).readyForReuse =
              true →
            ((s.blk j).finishIter q).iterStatus =
                .promotedActive ∨
              ((s.blk j).finishIter q).iterStatus =
                .standardExec) := by
      have hBig : cleanupFinishIterVal ≤
          (s.blk j).cleanupCounter := by
        rw [hOk.counter]
        cases hOwn : p.freedOwn <;> cases hRight : right <;>
          cases throttled <;>
          simp [hOwn, hRight] at hNot <;> decide
      refine ⟨?_, ?_, ?_, ?_⟩
      · intro hEq
        have hBoth := hOk.available.mp hEq
        rw [hBoth.1, hBoth.2] at hNot
        exact Bool.noConfusion hNot
      · rw [Block.finishIter_counter]
        omega
      · intro hW
        apply decide_eq_false
        rw [Block.finishIter_counter, hOk.counter, hNone hW]
        cases hOwn : p.freedOwn <;> cases hRight : right <;>
          simp [hOwn, hRight] at hNot <;> decide
      · intro _
        exact hOk.active hStarted hNot (hMark hStage)
    rw [check_eq hCheck]
    unfold freeBlock Block.freed
    cases w with
    | none => rfl
    | some w =>
        dsimp only
        have hReady :
            ((s.blk j).finishIter
                q).readyToResumeAfterThrottle = true ↔
              (s.blk j).cleanupCounter -
                cleanupFinishIterVal ≤ 0 :=
          decide_eq_true_iff
        simp only [hReady]
        rfl
  · exact Or.inl rfl

theorem TaskOk.of_runtime
    {pc : ℤ → IterPc} {attached : ℤ → Bool}
    {cpc : ControlPc} {i : ℤ} {r : Option ℤ}
    (hPlace : (pc i).place = .runtime)
    (hResume :
      ∀ j, r = some j →
        j = i + 1 ∧ (pc j).place = .queued ∧
          (pc i = .finishing .freeOwn ∨
            pc i = .finishing .getNext)) :
    TaskOk pc attached cpc (.runtime i r) := by
  constructor
  · simp
  · simp
  · intro k r' hEq
    rw [← (Task.runtime.inj hEq).1]
    exact hPlace
  · intro k j hEq
    rw [← (Task.runtime.inj hEq).1]
    exact hResume j (Task.runtime.inj hEq).2
  · simp
  · simp

/- The flags of a worker whose iteration cleans up. -/
theorem FlagOk.of_runtime
    {pc : ℤ → IterPc} {cur : ℤ} {cpc : ControlPc}
    {freed : Prop} {v : Worker P R} {i : ℤ} {r : Option ℤ}
    (hV : v.task = .runtime i r)
    (hWait : ∀ f q, pc i ≠ .wait f q)
    (hSelf :
      v.parentResume = .selfSteal →
        cpc = .continuation ∧ cur ∈ v.task.iters)
    (hThrottle :
      v.parentResume = .throttleSuspend →
        cpc = .suspended ∧ freed)
    (hOnTop : v.iterFfOnTop = true) :
    FlagOk pc cur cpc freed v := by
  constructor
  · exact hSelf
  · exact hThrottle
  · intro _ k hCase
    rcases hCase with hEq | hEq | ⟨r', f, q, hEq, hAt⟩
    · simp [hV] at hEq
    · simp [hV] at hEq
    · rw [hV] at hEq
      rw [← (Task.runtime.inj hEq).1] at hAt
      exact absurd hAt (hWait f q)
  · intro _ k r' hEq
    rw [hV] at hEq
    rw [← (Task.runtime.inj hEq).1]
    cases hAt : pc i with
    | wait f q => exact absurd hAt (hWait f q)
    | _ => rfl
  · simp [hV]
  · intro _
    exact hOnTop
  · simp [hV]

/-
  A worker in the runtime decrements block `j` on behalf of
  iteration `i`, and marks the parent if the counter is 0
  then.
-/
theorem Inv.of_free
    {w : W} {i j : ℤ} {p : IterPc} {q : Party}
    {r : Option ℤ} {z : Bool}
    (h : Inv s)
    (hCore : Core t)
    (hTask : (s.worker w).task = .runtime i r)
    (hPc : t.pc = Function.update s.pc i p)
    (hPlace : p.place = .runtime)
    (hWait : ∀ f x, p ≠ .wait f x)
    (hResume :
      r ≠ none →
        p = .finishing .freeOwn ∨ p = .finishing .getNext)
    (hMoved : (s.pc i).moved = true → p.moved = true)
    (hControl : t.control = s.control)
    (hNot : ¬ s.Freed j)
    (hFreed : ∀ k, k ≠ j → (t.Freed k ↔ s.Freed k))
    (hZ : z = true ↔ t.Freed j ∧ s.throttledAt j = true)
    (hWorker :
      t.worker = Function.update s.worker w
        (if z = true then
          { s.worker w with
            parentResume := .throttleSuspend
            flagSetBy := q }
        else s.worker w))
    (hZeroed :
      ∀ k, s.InRing k →
        (t.blk k).zeroedBy =
          if k = j ∧ z = true then [q]
          else (s.blk k).zeroedBy) :
    Inv t := by
  rcases h.of_task_runtime hTask with ⟨-, -, hOthers⟩
  have hPos := h.core.positions
  have hFlag := h.flags.flag w
  have hCur : t.cur = s.cur := by
    unfold cur
    rw [hControl]
  have hAtt : t.attachedAt = s.attachedAt := by
    funext k
    unfold attachedAt
    rw [hCur, hControl]
  have hFreed' : ∀ k, s.Freed k → t.Freed k := by
    intro k hK
    by_cases hEq : k = j
    · exact absurd (hEq ▸ hK) hNot
    · exact (hFreed k hEq).mpr hK
  have hMoved' : ∀ k, (s.pc k).moved = true →
      (t.pc k).moved = true := by
    intro k hK
    rw [hPc, Function.update_apply]
    split
    · rename_i hEq
      exact hMoved (hEq ▸ hK)
    · exact hK
  have hPcOthers : ∀ w' k, w' ≠ w → s.HoldsIter w' k →
      t.pc k = s.pc k := by
    intro w' k hNe hHolds
    rw [hPc, Function.update_of_ne]
    rintro rfl
    exact hOthers w' hNe hHolds
  have hSuspended : z = true →
      s.control.pc = .suspended ∧ j = s.cur + 1 - K := by
    intro hTrue
    have hThr := (hZ.mp hTrue).2
    simp only [throttledAt, Bool.and_eq_true,
      decide_eq_true_eq] at hThr
    refine ⟨?_, hThr.2⟩
    cases hCpc : s.control.pc with
    | suspended => rfl
    | passing =>
        have hOld := hPos.passing hCpc
        rw [← hThr.2] at hOld
        exact absurd hOld hNot
    | _ =>
        rw [hCpc] at hThr
        simp [ControlPc.throttled] at hThr
  have hNoResume : z = true → ∀ w', ¬ s.Resumes w' := by
    intro hTrue w' hResumes
    have hOld := ((h.flags.flag w').throttleSuspend
      hResumes).2
    rw [← (hSuspended hTrue).2] at hOld
    exact hNot hOld
  refine ⟨hCore, ?_, ?_, ?_⟩
  · apply h.tasks.reassign hWorker
    · intro w' k hNe hHolds
      rw [hAtt]
      exact ⟨hPcOthers w' k hNe hHolds, rfl⟩
    · intro w' _ _
      rw [hControl]
    · have hSame : (if z = true then
          { s.worker w with
            parentResume := ParentResume.throttleSuspend
            flagSetBy := q }
        else s.worker w).task = .runtime i r := by
        split
        · exact hTask
        · exact hTask
      rw [hSame]
      apply TaskOk.of_runtime
      · rw [hPc, Function.update_self]
        exact hPlace
      · intro k hK
        subst hK
        have hOld := (h.tasks.task w).resume i k hTask
        refine ⟨hOld.1, ?_, ?_⟩
        · rw [hPc, Function.update_of_ne (by omega)]
          exact hOld.2.1
        · rw [hPc, Function.update_self]
          exact hResume (by simp)
    · intro k hK
      apply h.tasks.others
      unfold HoldsIter
      split at hK
      · exact hK
      · exact hK
    · intro hHolds
      apply h.tasks.others_control
      split at hHolds
      · rcases hHolds with hHolds | hHolds | hHolds
        · exact Or.inl hHolds
        · exact Or.inr (Or.inl hHolds)
        · simp at hHolds
      · exact hHolds
  · apply h.flags.reassign hWorker hPcOthers hMoved'
    · rw [hCur]
      exact hFreed' _
    · exact hControl
    · rw [hCur, hControl]
      have hWaitT : ∀ f x, t.pc i ≠ .wait f x := by
        rw [hPc, Function.update_self]
        exact hWait
      have hOnTop := hFlag.onTop (Or.inr ⟨i, r, hTask⟩)
      split
      · rename_i hTrue
        apply FlagOk.of_runtime (i := i) (r := r)
        · exact hTask
        · exact hWaitT
        · simp
        · intro _
          rcases hSuspended hTrue with ⟨hCpc, hJ⟩
          refine ⟨hCpc, ?_⟩
          rw [← hJ]
          exact (hZ.mp hTrue).1
        · exact hOnTop
      · apply FlagOk.of_runtime hTask hWaitT _ _ hOnTop
        · exact hFlag.selfSteal
        · intro hThrottle
          have hOld := hFlag.throttleSuspend hThrottle
          exact ⟨hOld.1, hFreed' _ hOld.2⟩
    · intro hThrottle w' hNe hOther
      split at hThrottle
      · rename_i hTrue
        exact hNoResume hTrue w' hOther
      · exact hNe (h.flags.resumesUnique w' w hOther
          hThrottle)
    · split <;> simp [hTask]
    · split <;> simp [hTask]
    · split <;> simp [hTask]
  · have hK := hPos.ring
    have hRing : s.InRing (s.cur + 1 - K) :=
      ⟨by omega, by omega⟩
    have hWorkerZ : ∀ w', z ≠ true →
        t.worker w' = s.worker w' := by
      intro w' hFalse
      rw [hWorker, if_neg hFalse, Function.update_eq_self]
    constructor
    · rw [hControl, hCur]
      intro hCpc hBoth
      by_cases hTrue : z = true
      · refine ⟨w, ?_, ?_⟩
        · unfold Resumes
          rw [hWorker, if_pos hTrue, Function.update_self]
        · rw [hZeroed _ hRing,
            if_pos ⟨(hSuspended hTrue).2.symm, hTrue⟩,
            hWorker, if_pos hTrue, Function.update_self]
      · have hOld : s.Freed (s.cur + 1 - K) := by
          by_cases hEq : s.cur + 1 - K = j
          · exfalso
            apply hTrue
            apply hZ.mpr
            rw [← hEq]
            refine ⟨hBoth, ?_⟩
            simp [throttledAt, hCpc, ControlPc.throttled]
          · exact (hFreed _ hEq).mp hBoth
        rcases h.continues.suspended hCpc hOld with
          ⟨w', hResumes, hEq⟩
        refine ⟨w', ?_, ?_⟩
        · unfold Resumes
          rw [hWorkerZ w' hTrue]
          exact hResumes
        · rw [hZeroed _ hRing, if_neg (by simp [hTrue]),
            hWorkerZ w' hTrue]
          exact hEq
    · rw [hControl, hCur]
      intro hCpc
      rw [hZeroed _ hRing, if_neg]
      · exact h.continues.passing hCpc
      · rintro ⟨hEq, -⟩
        have hOld := hPos.passing hCpc
        rw [hEq] at hOld
        exact hNot hOld

end Piper

end PRacer
