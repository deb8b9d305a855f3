import Mathlib.Algebra.Field.ZMod
import PRacer.Piper.DataLocks

/-
  The locks of the data blocks keep the steps of the pipeline
  apart as its model says, and no workers wait for each other
  all around the ring.

  Main declarations:
    * `LockState.Orderly`, `orderly_of_reachable`
    * `lockSystem_refines`
    * `not_deadlocked`
-/

------------------------------------------------------------
-- Locks and Marks
------------------------------------------------------------

namespace PRacer

namespace Piper

open Foundations
open PipeState

variable {W P R : Type} [DecidableEq W] {K : ℕ}
variable {s t : PipeState W P R K}
variable {st st' : LockState W P R K}

/- The worker keeps the lock of its iteration's block. -/
def PipeState.KeepsBlock
    (s : PipeState W P R K) (w : W) (i : ℤ) : Prop :=
  (∃ r, (s.worker w).task = .runtime i r) ∧
    (s.pc i).keepsLock = true

/- It is also about to take the lock of the next block. -/
def PipeState.Nests
    (s : PipeState W P R K) (w : W) (i : ℤ) : Prop :=
  (s.worker w).task = .runtime i none ∧
    (s.pc i).nests = true

/-
  What holds of the locks while the pipeline runs: a marked
  block is locked by the worker that keeps it, and a worker
  that holds a lock and waits for another is about to take
  the one after its own.
-/
structure LockState.Orderly
    (st : LockState W P R K) : Prop where
  framed : (framedSystem W P R K).Reachable st.pipe
  kept :
    ∀ x, st.pipe.dataLocks x = true →
      ∃ w i, x = ((i : ℤ) : ZMod K) ∧
        st.table.owner x = some w ∧ st.pipe.KeepsBlock w i
  nested :
    ∀ w x y, st.table.owner x = some w →
      st.table.wants w = some y →
        ∃ i, x = ((i : ℤ) : ZMod K) ∧ y = x + 1 ∧
          st.pipe.Nests w i

omit [DecidableEq W] in
/- The marks are all that the locks add to a step's guard. -/
theorem enabled_of_unlocked
    {a : Action W P R}
    (hEn : s.unlocked.enabled a = true)
    (hFree :
      ∀ x, s.lockOf a = some x → s.dataLocks x = false) :
    s.enabled a = true := by
  cases a <;> try exact hEn
  all_goals
    have hLock := hFree _ rfl
    simp only [enabled, decide_eq_true_eq] at hEn ⊢
  case promote =>
    exact ⟨hEn.1, hEn.2.1, hEn.2.2.1, hEn.2.2.2.1, hLock⟩
  case exitFreeLeft =>
    exact ⟨hEn.1, hEn.2.1, hEn.2.2.1, hEn.2.2.2.1, hLock⟩
  case exitFreeOwn =>
    exact ⟨hEn.1, hEn.2.1, hEn.2.2.1, hEn.2.2.2.1, hLock⟩
  case stealNext =>
    exact ⟨hEn.1, hEn.2.1, hEn.2.2.1, hEn.2.2.2.1, hLock⟩
  case steal =>
    exact ⟨hEn.1, hEn.2.1, hEn.2.2.1, hLock⟩
  all_goals exact ⟨hEn.1, hEn.2.1, hLock⟩

omit [DecidableEq W] in
/-
  A worker that keeps its block's lock takes the next step
  of the same iteration, which locks the next block or none.
-/
theorem lockOf_of_keeps
    {a : Action W P R} {i : ℤ} {r : Option ℤ} {x : ZMod K}
    (hEn : s.unlocked.enabled a = true)
    (hTask : (s.worker a.worker).task = .runtime i r)
    (hKeeps : (s.pc i).keepsLock = true)
    (hLock : s.lockOf a = some x) :
    x = ((i + 1 : ℤ) : ZMod K) := by
  have hWorker : s.unlocked.worker = s.worker := rfl
  have hPc : s.unlocked.pc = s.pc := rfl
  cases a with
  | resumeOnSuspend w j f =>
      simp only [enabled, decide_eq_true_eq, hWorker] at hEn
      have hEq := hEn.1.symm.trans hTask
      cases hEq
      cases hLock
      exact rightOf_cast _
  | finishResumeNext w j =>
      simp only [enabled, decide_eq_true_eq, hWorker] at hEn
      have hEq := hEn.1.symm.trans hTask
      cases hEq
      cases hLock
      exact rightOf_cast _
  | trySuspend w j f =>
      simp only [enabled, decide_eq_true_eq, hWorker, hPc]
        at hEn
      have hEq := hEn.1.symm.trans hTask
      cases hEq
      rw [hEn.2.1] at hKeeps
      cases hKeeps
  | finishFreeLeft w j =>
      simp only [enabled, decide_eq_true_eq, hWorker, hPc]
        at hEn
      have hEq := hEn.1.symm.trans hTask
      cases hEq
      rw [hEn.2.1] at hKeeps
      cases hKeeps
  | finishMove w j =>
      simp only [enabled, decide_eq_true_eq, hWorker, hPc]
        at hEn
      have hEq := hEn.1.symm.trans hTask
      cases hEq
      rw [hEn.2.1] at hKeeps
      cases hKeeps
  | _ =>
      -- The worker has another task, or takes no lock.
      cases hLock <;>
        simp only [enabled, decide_eq_true_eq, hWorker]
          at hEn <;>
        have hEq := hEn.1.symm.trans hTask <;>
        cases hEq

/- The locks replace the marks in a step's guard. -/
theorem LockState.Orderly.enabled
    (h : st.Orderly) (hK : 1 < K)
    {a : Action W P R}
    (hRun : st.Enabled (.run a)) :
    st.pipe.enabled a = true := by
  rcases hRun with ⟨hEn, -, hOwner, -⟩
  apply enabled_of_unlocked hEn
  intro x hLock
  by_contra hMark
  rw [Bool.not_eq_false] at hMark
  rcases h.kept x hMark with
    ⟨w, i, hX, hHolds, ⟨r, hTask⟩, hKeeps⟩
  have hSame : a.worker = w := by
    have hEq := (hOwner x hLock).symm.trans hHolds
    exact Option.some.inj hEq
  rw [← hSame] at hTask
  have hNext := lockOf_of_keeps hEn hTask hKeeps hLock
  rw [hX] at hNext
  exact cast_ne_succ hK i hNext.symm

------------------------------------------------------------
-- Steps of the Pipeline
------------------------------------------------------------

/- Others leave a worker that keeps a lock alone. -/
theorem Inv.keeps_exec
    (h : Inv s) {a : Action W P R} {w : W} {i : ℤ}
    (hEn : s.enabled a = true)
    (hNe : w ≠ a.worker)
    (hKeeps : s.KeepsBlock w i) :
    (s.exec a).KeepsBlock w i := by
  rcases hKeeps with ⟨⟨r, hTask⟩, hPc⟩
  rcases h.exec_runtime hEn hNe hTask with ⟨hTask', hPc'⟩
  unfold KeepsBlock
  rw [hPc']
  exact ⟨⟨r, hTask'⟩, hPc⟩

theorem Inv.nests_exec
    (h : Inv s) {a : Action W P R} {w : W} {i : ℤ}
    (hEn : s.enabled a = true)
    (hNe : w ≠ a.worker)
    (hNests : s.Nests w i) :
    (s.exec a).Nests w i := by
  rcases hNests with ⟨hTask, hPc⟩
  rcases h.exec_runtime hEn hNe hTask with ⟨hTask', hPc'⟩
  unfold Nests
  rw [hPc']
  exact ⟨hTask', hPc⟩

/-
  The worker itself keeps the lock, unless the step marks the
  block.
-/
theorem keeps_exec_own
    {a : Action W P R} {i : ℤ}
    (hEn : s.enabled a = true)
    (hPlain : a.marksLock = false)
    (hKeeps : s.KeepsBlock a.worker i) :
    (s.exec a).KeepsBlock a.worker i := by
  rcases hKeeps with ⟨⟨r, hTask⟩, hPc⟩
  cases a with
  | finishResumeNext w j =>
      simp only [enabled, decide_eq_true_eq] at hEn
      have hEq := hEn.1.symm.trans hTask
      cases hEq
      constructor
      · refine ⟨(s.tryResumeNextIteration i).2, ?_⟩
        simp [PipeState.exec, PipeState.finishResumeNext,
          Action.worker]
      · simp [PipeState.exec, PipeState.finishResumeNext,
          IterPc.keepsLock]
  | work w p r' =>
      constructor
      · refine ⟨r, ?_⟩
        simpa [PipeState.exec, PipeState.work,
          Action.worker] using hTask
      · exact hPc
  | pipeIterFinish w j =>
      simp only [enabled, decide_eq_true_eq] at hEn
      have hEq := hEn.1.symm.trans hTask
      cases hEq
      rw [hEn.2] at hPc
      cases hPc
  | finishFreeLeft w j =>
      simp only [enabled, decide_eq_true_eq] at hEn
      have hEq := hEn.1.symm.trans hTask
      cases hEq
      rw [hEn.2.1] at hPc
      cases hPc
  | finishGetNext w j r' =>
      simp only [enabled, decide_eq_true_eq] at hEn
      have hEq := hEn.1.symm.trans hTask
      cases hEq
      rw [hEn.2] at hPc
      cases hPc
  | _ =>
      -- The worker has another task.
      simp only [Action.worker] at hTask
      first
        | simp [enabled, Executes, hTask] at hEn
          done
        | cases hPlain

/- A block is marked where its iteration is. -/
theorem trySuspend_dataLocks
    {w : W} {i : ℤ} {f : Bool} {x : ZMod K}
    (hTask : (s.worker w).task = .runtime i none)
    (hLock :
      (s.trySuspendAtStageWait w i f).dataLocks x = true) :
    s.dataLocks x = true ∨
      x = i ∧
        (s.trySuspendAtStageWait w i f).KeepsBlock w i := by
  unfold trySuspendAtStageWait at hLock ⊢
  dsimp only at hLock ⊢
  split at hLock
  · rename_i hStall
    rw [if_pos hStall]
    by_cases hX : x = i
    · right
      refine ⟨hX, ⟨none, ?_⟩, ?_⟩
      · simpa using hTask
      · simp [IterPc.keepsLock]
    · left
      change ((s.check _).setBlock _ _).dataLocks x = true
        at hLock
      rw [dataLocks_setBlock, Function.update_of_ne hX,
        dataLocks_check] at hLock
      exact hLock
  · left
    have hSame := dataLocks_of_same s i
      (b := { s.blk i with resumeFlags := .resumingIter })
      rfl
    exact (congrFun hSame x).symm.trans hLock

theorem finishMove_dataLocks
    (s : PipeState W P R K) (w : W) (i : ℤ) :
    (s.exec (.finishMove w i)).dataLocks =
      Function.update s.dataLocks i true := by
  simp only [PipeState.exec, PipeState.finishMove]
  rw [dataLocks_setPc, dataLocks_setBlock,
    dataLocks_moveToDone]

theorem finishFreeOwn_dataLocks
    (s : PipeState W P R K) (w : W) (i : ℤ)
    (r : Option ℤ) :
    (s.exec (.finishFreeOwn w i r)).dataLocks =
      Function.update s.dataLocks i false := by
  simp only [PipeState.exec, PipeState.finishFreeOwn]
  rw [dataLocks_setPc, dataLocks_setBlock,
    dataLocks_tryFree]

theorem resumeOnSuspend_dataLocks
    (s : PipeState W P R K) (w : W) (i : ℤ) (f : Bool) :
    (s.exec (.resumeOnSuspend w i f)).dataLocks =
      Function.update s.dataLocks i false := by
  have hBlock :=
    (resumeOnSuspend_parts s w i f).1
  have hSame : (s.exec (.resumeOnSuspend w i f)).dataLocks =
      (((s.setBlock i
        { s.blk i with dataLock := false }).setPc i
          (.wait f .suspended)).tryResumeNextIteration
            i).1.dataLocks := by
    funext x
    unfold dataLocks
    exact congrArg Block.dataLock (congrFun hBlock x)
  rw [hSame, dataLocks_tryResume, dataLocks_setPc,
    dataLocks_setBlock]

/- After a step, a marked block is still kept. -/
theorem LockState.Orderly.kept_run
    (h : st.Orderly) (hInv : Inv st.pipe)
    {a : Action W P R} {x : ZMod K}
    (hEn : st.pipe.enabled a = true)
    (hRun : st.Enabled (.run a))
    (hLock : (st.pipe.exec a).dataLocks x = true) :
    ∃ w i, x = ((i : ℤ) : ZMod K) ∧
      st.table.owner x = some w ∧
      (st.pipe.exec a).KeepsBlock w i := by
  -- A mark that stays belongs to another worker.
  have hOther : ∀ j : ℤ, ∀ r,
      (st.pipe.worker a.worker).task = .runtime j r →
        (st.pipe.pc j).keepsLock = false ∨ x ≠ j →
        st.pipe.dataLocks x = true →
          ∃ w i, x = ((i : ℤ) : ZMod K) ∧
            st.table.owner x = some w ∧
            (st.pipe.exec a).KeepsBlock w i := by
    intro j r hTask hNot hMark
    rcases h.kept x hMark with ⟨w, i, hX, hOwner, hKeeps⟩
    refine ⟨w, i, hX, hOwner, ?_⟩
    apply hInv.keeps_exec hEn _ hKeeps
    intro hEq
    rcases hKeeps with ⟨⟨r', hTask'⟩, hPc⟩
    rw [hEq, hTask] at hTask'
    cases hTask'
    rcases hNot with hPc' | hNe
    · rw [hPc'] at hPc
      cases hPc
    · exact hNe hX
  cases hMarks : a.marksLock with
  | false =>
      rw [exec_dataLocks hMarks] at hLock
      rcases h.kept x hLock with ⟨w, i, hX, hOwner, hKeeps⟩
      refine ⟨w, i, hX, hOwner, ?_⟩
      by_cases hW : w = a.worker
      · rw [hW] at hKeeps ⊢
        exact keeps_exec_own hEn hMarks hKeeps
      · exact hInv.keeps_exec hEn hW hKeeps
  | true =>
      cases a with
      | trySuspend w i f =>
          simp only [PipeState.enabled, decide_eq_true_eq] at hEn
          rcases trySuspend_dataLocks hEn.1 hLock with
            hMark | ⟨hX, hKeeps⟩
          · apply hOther i none hEn.1 _ hMark
            left
            rw [hEn.2.1]
            rfl
          · refine ⟨w, i, hX, ?_, hKeeps⟩
            rw [hX]
            exact hRun.2.2.1 _ rfl
      | resumeOnSuspend w i f =>
          simp only [PipeState.enabled, decide_eq_true_eq] at hEn
          rw [resumeOnSuspend_dataLocks,
            Function.update_apply] at hLock
          split at hLock
          · cases hLock
          · rename_i hNe
            exact hOther i none hEn.1 (Or.inr hNe) hLock
      | finishMove w i =>
          simp only [PipeState.enabled, decide_eq_true_eq] at hEn
          rw [finishMove_dataLocks, Function.update_apply]
            at hLock
          split at hLock
          · rename_i hX
            refine ⟨w, i, hX, ?_, ⟨none, ?_⟩, ?_⟩
            · rw [hX]
              exact hRun.2.2.1 _ rfl
            · simpa [PipeState.exec, PipeState.finishMove,
                moveIterStageToDone] using hEn.1
            · simp [PipeState.exec, PipeState.finishMove,
                IterPc.keepsLock]
          · apply hOther i none hEn.1 _ hLock
            left
            rw [hEn.2.1]
            rfl
      | finishFreeOwn w i r =>
          simp only [PipeState.enabled, decide_eq_true_eq] at hEn
          rw [finishFreeOwn_dataLocks,
            Function.update_apply] at hLock
          split at hLock
          · cases hLock
          · rename_i hNe
            exact hOther i r hEn.1 (Or.inr hNe) hLock
      | _ => cases hMarks

------------------------------------------------------------
-- Steps of the Locks
------------------------------------------------------------

namespace LockState

namespace Orderly

/-
  A worker asks for a second lock only inside a section of
  its block's.
-/
theorem request
    (h : st.Orderly) {a : Action W P R}
    (hEn : st.Enabled (.request a)) :
    (st.exec (.request a)).Orderly := by
  rcases hEn with ⟨hEn, -, -, hOwner⟩
  unfold LockState.exec
  dsimp only
  cases hLock : st.pipe.lockOf a with
  | none => exact h
  | some z =>
      dsimp only
      constructor
      · exact h.framed
      · exact h.kept
      · intro w x y hHolds hWants
        rw [LockTable.request_owner] at hHolds
        rw [LockTable.request_wants,
          Function.update_apply] at hWants
        split at hWants
        · rename_i hW
          cases hWants
          rw [hW] at hHolds ⊢
          have hOuter := (hOwner x).mp hHolds
          cases a with
          | resumeOnSuspend w i f =>
              simp only [PipeState.enabled,
                decide_eq_true_eq] at hEn
              cases hLock
              cases hOuter
              refine ⟨i, rfl, rfl, hEn.1, ?_⟩
              rw [show st.pipe.pc i = _ from hEn.2.1]
              rfl
          | finishResumeNext w i =>
              simp only [PipeState.enabled,
                decide_eq_true_eq] at hEn
              cases hLock
              cases hOuter
              refine ⟨i, rfl, rfl, hEn.1, ?_⟩
              rw [show st.pipe.pc i = _ from hEn.2.1]
              rfl
          | finishFreeOwn w i r => cases hLock
          | _ => cases hOuter
        · exact h.nested w x y hHolds hWants

/- A worker that gets a lock waits no more. -/
theorem acquire
    (h : st.Orderly) {w : W} {z : ZMod K}
    (hEn : st.Enabled (.acquire w z)) :
    (st.exec (.acquire w z)).Orderly := by
  rcases hEn with ⟨-, hFree⟩
  unfold LockState.exec
  constructor
  · exact h.framed
  · intro x hMark
    rcases h.kept x hMark with ⟨u, i, hX, hOwner, hKeeps⟩
    refine ⟨u, i, hX, ?_, hKeeps⟩
    rw [LockTable.acquire_owner, Function.update_of_ne]
    · exact hOwner
    · intro hEq
      rw [hEq, hFree] at hOwner
      cases hOwner
  · intro u x y hHolds hWants
    rw [LockTable.acquire_wants, Function.update_apply]
      at hWants
    split at hWants
    · cases hWants
    · rename_i hNe
      rw [LockTable.acquire_owner, Function.update_apply]
        at hHolds
      split at hHolds
      · cases hHolds
        exact absurd rfl hNe
      · exact h.nested u x y hHolds hWants

/- The lock of a marked block is not given back. -/
theorem release
    (h : st.Orderly) {w : W} {z : ZMod K}
    (hEn : st.Enabled (.release w z)) :
    (st.exec (.release w z)).Orderly := by
  rcases hEn with ⟨-, -, hMark⟩
  unfold LockState.exec
  constructor
  · exact h.framed
  · intro x hLock
    rcases h.kept x hLock with ⟨u, i, hX, hOwner, hKeeps⟩
    refine ⟨u, i, hX, ?_, hKeeps⟩
    rw [LockTable.release_owner, Function.update_of_ne]
    · exact hOwner
    · intro hEq
      rw [hEq] at hLock
      exact Bool.false_ne_true (hMark.symm.trans hLock)
  · intro u x y hHolds hWants
    rw [LockTable.release_owner, Function.update_apply]
      at hHolds
    split at hHolds
    · cases hHolds
    · exact h.nested u x y hHolds hWants

/- A step of the pipeline is one of the framed system. -/
theorem framed_run
    (h : st.Orderly) (hK : 1 < K)
    {a : Action W P R}
    (hRuns : st.pipe.failure = none)
    (hEn : st.Enabled (.run a))
    (hFrame : a.takesFrame = true → st.pipe.FrameFree) :
    (framedSystem W P R K).Reachable (st.pipe.exec a) :=
  h.framed.step
    ⟨⟨hRuns, h.enabled hK hEn, rfl⟩, hFrame⟩

theorem run
    (h : st.Orderly) (hK : 1 < K)
    {a : Action W P R}
    (hRuns : st.pipe.failure = none)
    (hEn : st.Enabled (.run a))
    (hFrame : a.takesFrame = true → st.pipe.FrameFree) :
    (st.exec (.run a)).Orderly := by
  have hInv := inv_of_running hK h.framed.of_restrict hRuns
  have hStep := h.enabled hK hEn
  unfold LockState.exec
  constructor
  · exact h.framed_run hK hRuns hEn hFrame
  · intro x hMark
    exact h.kept_run hInv hStep hEn hMark
  · intro w x y hHolds hWants
    rcases h.nested w x y hHolds hWants with
      ⟨i, hX, hY, hNests⟩
    refine ⟨i, hX, hY, ?_⟩
    apply hInv.nests_exec hStep _ hNests
    intro hEq
    rw [hEq, hEn.2.1] at hWants
    cases hWants

end Orderly

end LockState

------------------------------------------------------------
-- Every Run
------------------------------------------------------------

/-
  The pipeline is where the framed system can be, and the
  locks are in order, also where a run has stopped: then they
  are as before its last step.
-/
theorem orderly_of_reachable
    (hK : 1 < K)
    (hReach : (lockSystem W P R K).Reachable st) :
    (framedSystem W P R K).Reachable st.pipe ∧
      ∃ r : PipeState W P R K,
        LockState.Orderly ⟨r, st.table⟩ ∧
          r.failure = none ∧
          (st.pipe.failure = none → r = st.pipe) := by
  apply TransitionSystem.Reachable.invariant _ _ hReach
  · intro st₀ hInit
    rcases st₀ with ⟨pipe, table⟩
    rcases hInit with ⟨hPipe, hTable⟩
    dsimp only at hPipe hTable
    subst hTable
    have hFramed : (framedSystem W P R K).Reachable pipe :=
      TransitionSystem.Reachable.of_init hPipe
    rcases hPipe with ⟨garbage, w₀, pedigree, map, rfl⟩
    refine ⟨hFramed, _, ?_, rfl, fun _ => rfl⟩
    constructor
    · exact hFramed
    · intro x hMark
      simp only [dataLocks, PipeState.initial, initBlock]
        at hMark
      split at hMark
      · cases hMark
      · split at hMark <;> cases hMark
    · intro w x y hHolds _
      cases hHolds
  · intro st₁ l st₂ hOld hStep
    rcases hOld with ⟨hFramed, r, hOrderly, hRuns, hSame⟩
    rcases hStep with ⟨hNone, hEn, hFrame, rfl⟩
    rw [hSame hNone] at hOrderly hRuns
    cases l with
    | request a =>
        have hNew : (st₁.exec (.request a)).Orderly :=
          hOrderly.request hEn
        have hPipe : (st₁.exec (.request a)).pipe =
            st₁.pipe := by
          unfold LockState.exec
          dsimp only
          split <;> rfl
        refine ⟨hPipe ▸ hFramed, _, hNew, ?_, fun _ => rfl⟩
        exact (congrArg failure hPipe).trans hRuns
    | acquire w x =>
        exact ⟨hFramed, _, hOrderly.acquire hEn, hRuns,
          fun _ => rfl⟩
    | release w x =>
        exact ⟨hFramed, _, hOrderly.release hEn, hRuns,
          fun _ => rfl⟩
    | run a =>
        have hGuard := hFrame a rfl
        refine ⟨hOrderly.framed_run hK hRuns hEn hGuard, ?_⟩
        by_cases hStops : (st₁.pipe.exec a).failure = none
        · exact ⟨_, hOrderly.run hK hRuns hEn hGuard, hStops,
            fun _ => rfl⟩
        · refine ⟨st₁.pipe, hOrderly, hRuns, ?_⟩
          intro hGoes
          exact absurd hGoes hStops

------------------------------------------------------------
-- No Waiting Cycle
------------------------------------------------------------

theorem IterPc.place_of_nests
    {p : IterPc}
    (hNests : p.nests = true) :
    p.place = .runtime ∧ p.freedOwn = false := by
  cases p with
  | wait f q =>
      cases q with
      | marked => exact ⟨rfl, rfl⟩
      | _ => cases hNests
  | finishing q =>
      cases q with
      | resumeNext => exact ⟨rfl, rfl⟩
      | _ => cases hNests
  | _ => cases hNests

theorem IterPc.holdsFrame_of_nests
    {p : IterPc}
    (hNests : p.nests = true)
    (hLeft : p.freedLeft = true) :
    p.holdsFrame = true := by
  cases p with
  | wait f q => cases hLeft
  | finishing q =>
      cases q with
      | resumeNext => rfl
      | _ => cases hNests
  | _ => cases hNests

/-
  A cycle would need a nested section of every iteration in
  the ring.  The first one is past its left block then, so it
  cleans up, and the last one is not promoted.
-/
theorem LockState.Orderly.no_cycle
    (h : st.Orderly) (hK : 1 < K)
    (hRuns : st.pipe.failure = none) :
    ¬ st.table.Deadlocked := by
  intro hDead
  have hNeZero : NeZero K := ⟨by omega⟩
  have hInv := inv_of_running hK h.framed.of_restrict hRuns
  have hPos := hInv.core.positions
  have hAll := hDead.handsOn_all (by
    intro x y hHands
    rcases hHands with ⟨w, hOwner, hWants⟩
    rcases h.nested w x y hOwner hWants with
      ⟨-, -, hY, -⟩
    exact hY)
  have hNested : ∀ i, st.pipe.InRing i →
      (st.pipe.pc i).nests = true := by
    intro i hRing
    rcases hAll i with ⟨w, hOwner, hWants⟩
    rcases h.nested w _ _ hOwner hWants with
      ⟨j, hEq, -, -, hNests⟩
    rcases IterPc.place_of_nests hNests with
      ⟨hPlace, hOwn⟩
    have hStarted : st.pipe.pc j ≠ .notStarted := by
      intro hNot
      rw [hNot] at hPlace
      cases hPlace
    have hRing' := hPos.inRing hStarted hOwn
    rw [← (cast_eq_iff hRing hRing').mp hEq.symm]
    exact hNests
  have hFirst := hNested (st.pipe.cur + 1 - K)
    ⟨by omega, by omega⟩
  have hLast := hNested st.pipe.cur ⟨by omega, le_rfl⟩
  have hLeft := hPos.first_freedLeft
    (i := st.pipe.cur + 1 - K) (by omega)
  have hGuarded := guarded_of_reachable hK h.framed hRuns
  apply hPos.not_runtime
  · apply hGuarded (st.pipe.cur + 1 - K) (by omega)
    exact IterPc.holdsFrame_of_nests hFirst hLeft
  · exact (IterPc.place_of_nests hLast).1

/-
  In every run, with any ring of two blocks or more and in
  every order of the steps that take and release locks: no
  workers hold a block's lock each and wait for one that
  another of them holds.
-/
theorem not_deadlocked
    (hK : 2 ≤ K)
    (hReach : (lockSystem W P R K).Reachable st) :
    ¬ st.table.Deadlocked := by
  rcases (orderly_of_reachable hK hReach).2 with
    ⟨r, hOrderly, hRuns, -⟩
  exact hOrderly.no_cycle hK hRuns

------------------------------------------------------------
-- Replaying Steps
------------------------------------------------------------

/- The step does not keep the control frame's lock. -/
def LockAction.frees : LockAction W P R K → Bool
| .run (.pipeIterFinish _ _) => false
| _ => true

namespace LockState

/- The state after some steps. -/
def replay
    (st : LockState W P R K) :
    List (LockAction W P R K) → LockState W P R K
| [] => st
| l :: ls => (st.exec l).replay ls

/- All of these steps can be taken. -/
def replays [NeZero K]
    (st : LockState W P R K) :
    List (LockAction W P R K) → Bool
| [] => true
| l :: ls =>
    decide (st.pipe.failure = none) &&
      decide (st.Enabled l) && l.frees &&
      (st.exec l).replays ls

end LockState

theorem reachable_lockReplay [NeZero K]
    {ls : List (LockAction W P R K)}
    (hK : 1 < K)
    (hReach : (lockSystem W P R K).Reachable st)
    (hFree : st.pipe.FrameFree)
    (hAll : st.replays ls = true) :
    (lockSystem W P R K).Reachable (st.replay ls) := by
  induction ls generalizing st with
  | nil => exact hReach
  | cons l ls ih =>
      unfold LockState.replays at hAll
      simp only [Bool.and_eq_true, decide_eq_true_eq]
        at hAll
      rcases hAll with ⟨⟨⟨hRuns, hEn⟩, hFrees⟩, hRest⟩
      rcases (orderly_of_reachable hK hReach).2 with
        ⟨r, hOrderly, -, hSame⟩
      rw [hSame hRuns] at hOrderly
      have hStep : (lockSystem W P R K).step st l
          (st.exec l) :=
        ⟨hRuns, hEn, fun _ _ _ => hFree, rfl⟩
      apply ih (hReach.step hStep) _ hRest
      cases l with
      | request a =>
          unfold LockState.exec
          dsimp only
          split <;> exact hFree
      | acquire w x => exact hFree
      | release w x => exact hFree
      | run a =>
          have hInv := inv_of_running hK
            hOrderly.framed.of_restrict hRuns
          apply hInv.frameFree_exec
            (hOrderly.enabled hK hEn) _ hFree
          intro w i hEq
          rw [hEq] at hFrees
          cases hFrees

/- The pipeline starts with all locks free. -/
def startLocks (n K : ℕ) [NeZero n] :
    LockState (Fin n) Unit Unit K where
  pipe := startState n K
  table := .free

theorem reachable_startLocks (n K : ℕ) [NeZero n] :
    (lockSystem (Fin n) Unit Unit K).Reachable
      (startLocks n K) := by
  have hInit : (pipeSystem (Fin n) Unit Unit K).init
      (startState n K) :=
    ⟨_, _, _, _, rfl⟩
  exact TransitionSystem.Reachable.of_init ⟨hInit, rfl⟩

theorem frameFree_startState (n K : ℕ) [NeZero n] :
    (startState n K).FrameFree := by
  intro i
  change (if i ≤ 0 then IterPc.finished
    else .notStarted).holdsFrame = false
  split <;> rfl

/- A step with its own lock. -/
def lockedStep
    (w : W) (x : ZMod K) (a : Action W P R) :
    List (LockAction W P R K) :=
  [.request a, .acquire w x, .run a, .release w x]

/-
  The second iteration, promoted on the thief of the first
  continuation, has marked its block as suspended and asks
  for the next one.
-/
def nestedRequest (v w : W) :
    List (LockAction W Unit Unit K) :=
  [.run (.initIter v), .run (.stage v 1 4)] ++
    lockedStep w 1 (.steal w v) ++
    [.run (.setupControl w)] ++
    lockedStep w 2 (.throttle w) ++
    [.run (.passThrottle w), .run (.initIter w),
      .run (.stageWait w 2 5),
      .run (.testCached w 2 false),
      .run (.testLeft w 2 false),
      .run (.testStall w 2 false)] ++
    lockedStep w 2 (.promote w 2 false) ++
    [.run (.switch w 2 false),
      .request (.trySuspend w 2 false), .acquire w 2,
      .run (.trySuspend w 2 false),
      .request (.resumeOnSuspend w 2 false)]

/- A worker holds a lock and waits for the next, safely. -/
theorem not_deadlocked_nestedRequest :
    ((startLocks 2 3).replay
        (nestedRequest 0 1)).table.owner 2 = some 1 ∧
      ((startLocks 2 3).replay
        (nestedRequest 0 1)).table.wants 1 = some 0 ∧
      ¬ ((startLocks 2 3).replay
        (nestedRequest 0 1)).table.Deadlocked :=
  ⟨by decide +kernel, by decide +kernel,
    not_deadlocked (by decide)
      (reachable_lockReplay (by decide)
        (reachable_startLocks 2 3) (frameFree_startState 2 3)
        (by decide +kernel))⟩

end Piper

end PRacer
