import PRacer.Piper.Footprint

/-
  The lock of the control frame's full frame.  The worker of
  an iteration that cleans up holds it all the time, and so
  nobody else promotes an iteration meanwhile.

  Main declarations:
    * `framedSystem`
    * `Guarded`, `guarded_of_reachable`
-/

------------------------------------------------------------
-- The Lock
------------------------------------------------------------

namespace PRacer

namespace Piper

open Foundations
open PipeState

variable {W P R : Type} {K : ℕ}
variable {s t : PipeState W P R K}

/-
  The steps that take the lock of the control frame: those of
  `detach_for_steal`, `piper_sched_promote_rightmost_iter`
  and `do_suspend_pipe_control_frame`, which also give it
  back, and `pipe_iter_finish`.
-/
def Action.takesFrame : Action W P R → Bool
| .steal _ _ => true
| .promote _ _ _ => true
| .suspendControl _ => true
| .pipeIterFinish _ _ => true
| _ => false

/-
  The worker of the iteration holds the lock: it does so from
  `pipe_iter_finish` to the last step of
  `piper_finish_iter_and_get_next`.
-/
def IterPc.holdsFrame : IterPc → Bool
| .finishing .enter => false
| .finishing _ => true
| _ => false

/- No worker holds the lock from one step to the next. -/
def PipeState.FrameFree (s : PipeState W P R K) : Prop :=
  ∀ i, (s.pc i).holdsFrame = false

/- The pipeline, with the lock of the control frame. -/
def framedSystem (W P R : Type) (K : ℕ) [DecidableEq W] :
    TransitionSystem (PipeState W P R K) (Action W P R) :=
  (pipeSystem W P R K).restrict
    fun s a => a.takesFrame = true → s.FrameFree

/- Only `pipe_iter_finish` takes the lock and keeps it. -/
theorem Goes.holdsFrame
    {a : Action W P R} {j : ℤ}
    (h : Goes s t a j)
    (hHolds : (t.pc j).holdsFrame = true) :
    (s.pc j).holdsFrame = true ∨
      ∃ w, a = .pipeIterFinish w j ∧
        s.pc j = .finishing .enter := by
  cases h with
  | stays hPc =>
      rw [hPc] at hHolds
      exact Or.inl hHolds
  | steps _ hStep =>
      left
      generalize s.pc j = p at hStep ⊢
      generalize t.pc j = q at hStep hHolds
      cases hStep with
      | passCached f => cases f <;> cases hHolds
      | passLeft f => cases f <;> cases hHolds
      | freeLeft => rfl
      | move => rfl
      | resumeNext => rfl
      | freeOwn => rfl
      | _ => cases hHolds
  | wakes f _ hNew =>
      rw [hNew] at hHolds
      cases hHolds
  | starts w _ _ _ hNew =>
      rw [hNew] at hHolds
      cases hHolds
  | cleans w hAct hOld _ => exact Or.inr ⟨w, hAct, hOld⟩

variable [DecidableEq W]

/- The other steps leave the lock free if it is. -/
theorem Inv.frameFree_exec
    (h : Inv s) {a : Action W P R}
    (hEn : s.enabled a = true)
    (hNot : ∀ w i, a ≠ .pipeIterFinish w i)
    (hFree : s.FrameFree) :
    (s.exec a).FrameFree := by
  intro i
  by_contra hHolds
  rw [Bool.not_eq_false] at hHolds
  rcases (h.exec_goes hEn i).holdsFrame hHolds with
    hOld | ⟨w, hAct, -⟩
  · rw [hFree i] at hOld
    cases hOld
  · exact hNot w i hAct

------------------------------------------------------------
-- The Current Iteration
------------------------------------------------------------

/-
  The current iteration has not started, or is an attached
  child, or has come to its end as one.
-/
def PipeState.Unpromoted (s : PipeState W P R K) : Prop :=
  s.pc s.cur = .notStarted ∨
    s.control.pc.attached = true ∨
    s.pc s.cur = .finished

/-
  While the first iteration of the ring cleans up, the last
  one is not promoted.
-/
def PipeState.Guarded (s : PipeState W P R K) : Prop :=
  ∀ i, i + K = s.cur + 1 → (s.pc i).holdsFrame = true →
    s.Unpromoted

omit [DecidableEq W] in
/- The first iteration of the ring has freed its left block. -/
theorem Positions.first_freedLeft
    (h : Positions s) {i : ℤ}
    (hFirst : i + K = s.cur + 1) :
    (s.pc i).freedLeft = true := by
  have hFreed := (h.window (s.cur - K) le_rfl).2
  unfold rightFreed at hFreed
  rw [show s.cur - K + 1 = i by omega] at hFreed
  exact hFreed

omit [DecidableEq W] in
/- An unpromoted iteration is in no worker's runtime. -/
theorem Positions.not_runtime
    (h : Positions s)
    (hUnpromoted : s.Unpromoted) :
    (s.pc s.cur).place ≠ .runtime := by
  intro hPlace
  rcases hUnpromoted with hPc | hAtt | hPc
  · rw [hPc] at hPlace
    cases hPlace
  · cases hCpc : s.control.pc with
    | child b =>
        rw [h.child b hCpc] at hPlace
        cases hPlace
    | popped =>
        rw [h.popped hCpc] at hPlace
        cases hPlace
    | _ =>
        rw [hCpc] at hAtt
        cases hAtt
  · rw [hPc] at hPlace
    cases hPlace

/- The steps that do not pass the throttle. -/
theorem Inv.exec_cur
    (h : Inv s) {a : Action W P R}
    (hEn : s.enabled a = true)
    (hNot : ∀ w, a ≠ .passThrottle w) :
    (s.exec a).cur = s.cur := by
  cases hSeats : a.seats with
  | false =>
      exact congrArg Prod.fst (h.exec_seat hEn hSeats)
  | true =>
      cases a with
      | initIter w =>
          simp [PipeState.exec, initIterFrame, cur]
      | promote w i f => rfl
      | steal u w => rfl
      | pop w i => rfl
      | exitFreeOwn w i =>
          simp [PipeState.exec, PipeState.exitFreeOwn, cur]
      | passThrottle w => exact absurd rfl (hNot w)
      | _ => cases hSeats

/-
  Only promotions, under the lock, and the next iteration
  change that the current one is not promoted.
-/
theorem Inv.unpromoted_exec
    (h : Inv s) {a : Action W P R}
    (hEn : s.enabled a = true)
    (hTakes : a.takesFrame = false)
    (hNot : ∀ w, a ≠ .passThrottle w)
    (hUnpromoted : s.Unpromoted) :
    (s.exec a).Unpromoted := by
  have hCur := h.exec_cur hEn hNot
  unfold Unpromoted
  rw [hCur]
  cases hSeats : a.seats with
  | false =>
      have hSeat := congrArg Prod.snd
        (h.exec_seat hEn hSeats)
      have hGoes := h.exec_goes hEn s.cur
      rcases hUnpromoted with hPc | hAtt | hPc
      · left
        cases hGoes with
        | stays hSame => exact hSame.trans hPc
        | steps _ hStep =>
            rw [hPc] at hStep
            cases hStep
        | wakes f hOld _ =>
            rw [hPc] at hOld
            cases hOld
        | starts w hAct _ _ _ =>
            rw [hAct] at hSeats
            cases hSeats
        | cleans w _ hOld _ =>
            rw [hPc] at hOld
            cases hOld
      · right
        left
        exact hSeat.trans hAtt
      · right
        right
        cases hGoes with
        | stays hSame => exact hSame.trans hPc
        | steps _ hStep =>
            rw [hPc] at hStep
            cases hStep
        | wakes f hOld _ =>
            rw [hPc] at hOld
            cases hOld
        | starts w _ _ hOld _ =>
            rw [hPc] at hOld
            cases hOld
        | cleans w _ hOld _ =>
            rw [hPc] at hOld
            cases hOld
  | true =>
      cases a with
      | initIter w =>
          right
          left
          simp [PipeState.exec, initIterFrame,
            ControlPc.attached]
      | pop w i =>
          right
          left
          rfl
      | exitFreeOwn w i =>
          simp only [enabled, decide_eq_true_eq] at hEn
          right
          right
          rw [show s.cur = i from hEn.2.2.1]
          simp [PipeState.exec, PipeState.exitFreeOwn]
      | passThrottle w => exact absurd rfl (hNot w)
      | promote w i f => cases hTakes
      | steal u w => cases hTakes
      | _ => cases hSeats

------------------------------------------------------------
-- Every Run
------------------------------------------------------------

/- The next iteration has not started. -/
theorem Inv.unpromoted_passThrottle
    (h : Inv s) (w : W) :
    (s.exec (.passThrottle w)).Unpromoted := by
  left
  have hPc : (s.exec (.passThrottle w)).pc = s.pc := by
    funext i
    simp [PipeState.exec, PipeState.passThrottle]
  rw [hPc]
  apply h.core.positions.after
  change s.cur < s.cur + 1
  omega

/- Every step under the lock keeps the last one unpromoted. -/
theorem Inv.guarded_exec
    (h : Inv s) {a : Action W P R}
    (hEn : s.enabled a = true)
    (hFrame : a.takesFrame = true → s.FrameFree)
    (hGuarded : s.Guarded) :
    (s.exec a).Guarded := by
  by_cases hPass : ∃ w, a = .passThrottle w
  · rcases hPass with ⟨w, rfl⟩
    intro _ _ _
    exact h.unpromoted_passThrottle w
  · have hNot : ∀ w, a ≠ .passThrottle w := by
      intro w hEq
      exact hPass ⟨w, hEq⟩
    intro i hFirst hHolds
    rw [h.exec_cur hEn hNot] at hFirst
    -- The first iteration has held the lock before.
    have hOld : (s.pc i).holdsFrame = true := by
      rcases (h.exec_goes hEn i).holdsFrame hHolds with
        hOld | ⟨w, -, hEnter⟩
      · exact hOld
      · have hLeft := h.core.positions.first_freedLeft hFirst
        rw [hEnter] at hLeft
        cases hLeft
    cases hTakes : a.takesFrame with
    | false =>
        exact h.unpromoted_exec hEn hTakes hNot
          (hGuarded i hFirst hOld)
    | true =>
        have hFree := hFrame hTakes i
        rw [hOld] at hFree
        cases hFree

/- The first iteration of the ring waits for no promotion. -/
theorem guarded_of_reachable
    (hK : 1 < K)
    (hReach : (framedSystem W P R K).Reachable s)
    (hRuns : s.failure = none) :
    s.Guarded := by
  have hBoth : (pipeSystem W P R K).Reachable s ∧
      (s.failure = none → s.Guarded) := by
    apply TransitionSystem.Reachable.invariant _ _ hReach
    · intro s₀ hInit
      refine ⟨TransitionSystem.Reachable.of_init hInit, ?_⟩
      intro _ i _ hHolds
      rcases hInit with
        ⟨garbage, w₀, pedigree, reducerMap, rfl⟩
      rw [initial_pc] at hHolds
      split at hHolds <;> cases hHolds
    · intro s a t hS hStep
      rcases hS with ⟨hPipe, hGuarded⟩
      refine ⟨hPipe.step hStep.1, ?_⟩
      intro _
      rcases hStep with ⟨⟨hNone, hEn, rfl⟩, hFrame⟩
      have hInv := inv_of_running hK hPipe hNone
      exact hInv.guarded_exec hEn hFrame (hGuarded hNone)
  exact hBoth.2 hRuns

end Piper

end PRacer
