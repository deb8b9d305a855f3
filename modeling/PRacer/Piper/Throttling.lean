import PRacer.Piper.Safety

/-
  Throttling: the cleanup counters in every run.

  Main declarations:
    * `UseOk`, `Passes`
    * `throttling`
-/

------------------------------------------------------------
-- The Counter of a Block
------------------------------------------------------------

namespace PRacer

namespace Piper

open Foundations
open PipeState

variable {W P R : Type} [DecidableEq W] {K : ℕ}
variable {s t : PipeState W P R K}

/-
  The counter of a block, how often the block has been marked
  available since it was reset, and who took the counter to 0.
-/
structure UseOk (u : ℤ × ℕ × List Party) : Prop where
  nonneg : 0 ≤ u.1
  marks : u.2.1 = if u.1 ≤ cleanupThrottleVal then 1 else 0
  positive : 0 < u.1 → u.2.2 = []
  zeroed :
    u.1 = 0 →
      ∃ p, u.2.2 = [p] ∧ ∀ i, p ≠ .attachedExit i

/-
  The control frame passes the throttle point of the next
  iteration: the last iteration in its block and the right
  neighbour of that one have made their decrements, and the
  party that continues the control frame is the one that took
  the counter to 0.
-/
structure Passes (s t : PipeState W P R K) : Prop where
  current : t.cur = s.cur + 1
  block : s.nextBlock = ((t.cur - K : ℤ) : ZMod K)
  own : (s.pc (t.cur - K)).freedOwn = true
  right : (s.pc (t.cur - K + 1)).freedLeft = true
  counter : (s.block s.nextBlock).cleanupCounter = 0
  available : (s.block s.nextBlock).blockStatus = .available
  marks : (s.block s.nextBlock).marks = 1
  zeroedBy :
    (s.block s.nextBlock).zeroedBy =
      [s.control.continuedBy]
  reset :
    t.block = Function.update s.block s.nextBlock
      { (s.block s.nextBlock).resetForNewIter with
        blockStatus := .inUse }

omit [DecidableEq W] in
theorem BlockOk.use
    {i : ℤ} {p : IterPc} {right attached throttled : Bool}
    {b : Block}
    (h : BlockOk i p right attached throttled b) :
    UseOk (b.cleanupCounter, b.marks, b.zeroedBy) := by
  have hCounter := h.counter
  constructor
  · rw [hCounter]
    exact counterOf_nonneg _ _ _
  · dsimp only
    rw [h.marks, hCounter]
    simp only [counterOf_le_one]
  · intro hPos
    apply h.unzeroed
    dsimp only at hPos
    by_contra hNot
    rw [Bool.not_eq_false, ← counterOf_le_zero,
      ← hCounter] at hNot
    omega
  · intro hZero
    apply h.zeroed
    dsimp only at hZero
    rw [← counterOf_le_zero, ← hCounter]
    omega

omit [DecidableEq W] in
/- Every block stands for an iteration of the ring. -/
theorem exists_inRing
    (hK : 1 < K) (s : PipeState W P R K) (x : ZMod K) :
    ∃ i : ℤ, s.InRing i ∧ (i : ZMod K) = x := by
  have hNeZero : NeZero K := ⟨by omega⟩
  have hLt := ZMod.val_lt ((s.cur : ZMod K) - x)
  refine ⟨s.cur - ((s.cur : ZMod K) - x).val, ?_, ?_⟩
  · unfold InRing
    omega
  · rw [Int.cast_sub, Int.cast_natCast, ZMod.natCast_val,
      ZMod.cast_id]
    exact sub_sub_cancel _ _

omit [DecidableEq W] in
theorem Inv.use
    (h : Inv s) (x : ZMod K) :
    UseOk (s.uses x) := by
  rcases exists_inRing h.core.positions.ring s x with
    ⟨i, hRing, rfl⟩
  exact (h.core.blocks i hRing).use

------------------------------------------------------------
-- The Throttle Point
------------------------------------------------------------

omit [DecidableEq W] in
/- What the step that passes the throttle finds and does. -/
theorem Inv.passes
    (h : Inv s)
    (hCpc : s.control.pc = .passing) :
    Passes s s.passThrottle := by
  have hPos := h.core.positions
  have hK := hPos.ring
  have hFreed := hPos.passing hCpc
  have hOk := h.core.blocks (s.cur + 1 - K)
    ⟨by omega, by omega⟩
  have hThr : s.throttledAt (s.cur + 1 - K) = true := by
    simp [throttledAt, hCpc, ControlPc.throttled]
  have hCur : s.passThrottle.cur = s.cur + 1 := rfl
  have hBoth : ((s.pc (s.cur + 1 - K)).freedOwn &&
      s.rightFreed (s.cur + 1 - K)) = true := by
    rw [hFreed.1, hFreed.2]
    rfl
  constructor
  · exact hCur
  · rw [hCur]
    exact nextBlock_eq s
  · rw [hCur]
    exact hFreed.1
  · rw [hCur]
    exact hFreed.2
  · rw [nextBlock_eq, block_cast, hOk.counter, hFreed.1,
      hFreed.2, hThr]
    rfl
  · rw [nextBlock_eq, block_cast]
    exact hOk.available.mpr hFreed
  · rw [nextBlock_eq, block_cast, hOk.marks, hBoth]
    rfl
  · rw [nextBlock_eq, block_cast]
    exact h.continues.passing hCpc
  · unfold PipeState.passThrottle
    dsimp only
    unfold check
    split <;> rfl

omit [DecidableEq W] in
/- Exactly one worker is to continue a suspended frame. -/
theorem Inv.resumer
    (h : Inv s)
    (hCpc : s.control.pc = .suspended)
    (hZero : (s.block s.nextBlock).cleanupCounter = 0) :
    ∃! w, (s.worker w).parentResume = .throttleSuspend ∧
      (s.block s.nextBlock).zeroedBy =
        [(s.worker w).flagSetBy] := by
  have hPos := h.core.positions
  have hK := hPos.ring
  have hOk := h.core.blocks (s.cur + 1 - K)
    ⟨by omega, by omega⟩
  rw [nextBlock_eq, block_cast] at hZero ⊢
  have hAll := (counterOf_le_zero _ _ _).mp
    (hOk.counter ▸ hZero.le)
  rw [Bool.and_eq_true, Bool.and_eq_true] at hAll
  rcases h.continues.suspended hCpc hAll.1 with
    ⟨w, hResumes, hBy⟩
  refine ⟨w, ⟨hResumes, hBy⟩, ?_⟩
  intro w' hW'
  exact h.flags.resumesUnique w' w hW'.1 hResumes

/-
  In every run, with any ring of two blocks or more: only the
  assertion about stage numbers can fail; no counter is
  negative, a block is marked available once for each use,
  and a single party, no attached exit, takes its counter to
  0; the control frame passes a throttle point only after
  both decrements, continued by that party; and while it is
  suspended, that party is a worker that is to resume it.
-/
theorem throttling
    (hK : 2 ≤ K)
    (hReach : (pipeSystem W P R K).Reachable s) :
    s.failure ≠ some .internal ∧
      (∀ x, UseOk (s.uses x)) ∧
      (∀ w t, (pipeSystem W P R K).step s (.passThrottle w) t →
        Passes s t) ∧
      (s.failure = none → s.control.pc = .suspended →
        (s.block s.nextBlock).cleanupCounter = 0 →
          ∃! w,
            (s.worker w).parentResume = .throttleSuspend ∧
              (s.block s.nextBlock).zeroedBy =
                [(s.worker w).flagSetBy]) := by
  refine ⟨failure_of_reachable hK hReach, ?_, ?_, ?_⟩
  · intro x
    rcases (inv_of_reachable hK hReach).2 with
      ⟨-, r, hInv, hSame⟩ | ⟨hInv, -⟩
    · rw [hSame]
      exact hInv.use x
    · exact hInv.use x
  · intro w t hStep
    rcases hStep with ⟨hRuns, hEn, rfl⟩
    simp only [enabled, decide_eq_true_eq] at hEn
    exact (inv_of_running hK hReach hRuns).passes hEn.2
  · intro hRuns hCpc hZero
    exact (inv_of_running hK hReach hRuns).resumer hCpc
      hZero

/-
  In a ring of two blocks, the control frame is suspended
  behind the first iteration, obtained by its worker, and
  suspended behind the second one by another thief.
-/
def twiceSuspended (u v w : W) :
    List (Action W Unit Unit) :=
  throttledBehind u v 1 ++ obtainsParent u 1 ++
    [.setupControl u, .passThrottle u] ++
    throttledBehind u w 2

/- The worker of the second iteration obtains it as well. -/
def twiceObtained (u v w : W) : List (Action W Unit Unit) :=
  twiceSuspended u v w ++ obtainsParent u 2 ++
    [.setupControl u]

/-
  While the frame is suspended, one worker is to resume it,
  and then it passes the throttle to the third iteration,
  which uses the block of the first one again.
-/
theorem throttling_twiceSuspended :
    (∃! w,
      (((startState 3 2).replay
          (twiceSuspended 0 1 2)).worker w).parentResume =
            .throttleSuspend ∧
        (((startState 3 2).replay
          (twiceSuspended 0 1 2)).block
            ((startState 3 2).replay
              (twiceSuspended 0 1 2)).nextBlock).zeroedBy =
          [(((startState 3 2).replay
            (twiceSuspended 0 1 2)).worker w).flagSetBy]) ∧
      (∀ x, UseOk (((startState 3 2).replay
        (twiceObtained 0 1 2)).uses x)) ∧
      ((startState 3 2).replay
        (twiceObtained 0 1 2)).passThrottle.cur = 3 ∧
      Passes ((startState 3 2).replay (twiceObtained 0 1 2))
        ((startState 3 2).replay
          (twiceObtained 0 1 2)).passThrottle := by
  have hSuspended :
      (pipeSystem (Fin 3) Unit Unit 2).Reachable
        ((startState 3 2).replay (twiceSuspended 0 1 2)) :=
    reachable_replay (reachable_startState 3 2) (by decide)
  have hObtained :
      (pipeSystem (Fin 3) Unit Unit 2).Reachable
        ((startState 3 2).replay (twiceObtained 0 1 2)) :=
    reachable_replay (reachable_startState 3 2) (by decide)
  exact ⟨(throttling le_rfl hSuspended).2.2.2 (by decide)
      (by decide) (by decide),
    (throttling le_rfl hObtained).2.1, by decide,
    (throttling le_rfl hObtained).2.2.1 0 _
      ⟨by decide, by decide, rfl⟩⟩

end Piper

end PRacer
