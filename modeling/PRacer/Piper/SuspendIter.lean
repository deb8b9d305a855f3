import Mathlib.Logic.Function.Basic

/-
  What a worker saves in an iteration's full frame while the
  iteration is suspended (`do_suspend_pipe_iter_frame`,
  `piper_sched_iter_setup_for_execution`).

  A failed assertion gives no result.

  Main declarations:
    * `saveWorkerStateForSuspendIter`
    * `restoreWorkerStateFromSuspendIter`
    * `RoundTrip`, `roundTrip_iff`
-/

------------------------------------------------------------
-- Workers and Full Frames
------------------------------------------------------------

namespace PRacer

namespace SuspendIter

/- A pedigree: the rank, and the link to the next node. -/
structure Pedigree (Q : Type) where
  rank : BitVec 64
  parent : Option Q
deriving DecidableEq, Repr

/- The part of a worker that a suspension saves. -/
structure Worker (Q R : Type) where
  pedigree : Pedigree Q
  reducerMap : Option R
deriving DecidableEq, Repr

inductive FrameType where
| normal
| pipeControl
| pipeIter
| pipeIterCallDescendant
deriving DecidableEq, Repr

/-
  A full frame.  `sfFlags` and `sfPedigree` are the flags and
  the parent pedigree of the stack frame that an iteration's
  data block links to; they and the two last fields are in use
  for iterations only.
-/
structure FullFrame (F Q R : Type) where
  frameType : FrameType
  parent : Option F
  sfFlags : BitVec 32
  sfPedigree : Pedigree Q
  savedReducerMap : Option R
  suspendedFf : Option F
deriving DecidableEq, Repr

/- Workers, and full frames by address. -/
structure RuntimeState (W F Q R : Type) where
  worker : W → Worker Q R
  frame : F → FullFrame F Q R

/- `CILK_FRAME_VERSION_VALUE`. -/
def cilkFrameVersionValue (flags : BitVec 32) : BitVec 32 :=
  (flags &&& 0xFF000000) >>> 24

variable {W F Q R : Type}

namespace RuntimeState

/-
  The iteration whose frame is being suspended: the frame
  itself, or the parent of a call descendant.
-/
def iterFf
    (s : RuntimeState W F Q R) (currentFf : F) : Option F :=
  let iter :=
    if (s.frame currentFf).frameType =
        .pipeIterCallDescendant then
      (s.frame currentFf).parent
    else some currentFf
  iter.filter fun i => (s.frame i).frameType = .pipeIter

variable [DecidableEq W] [DecidableEq F]

/- `piper_save_worker_state_for_suspend_iter`. -/
def saveWorkerStateForSuspendIter
    (s : RuntimeState W F Q R) (w : W)
    (iterFf suspendingFf : F) :
    Option (RuntimeState W F Q R) :=
  let v := s.worker w
  let f := s.frame iterFf
  if f.savedReducerMap.isNone && f.suspendedFf.isNone then
    some
      { worker :=
          Function.update s.worker w
            { v with reducerMap := none }
        frame :=
          Function.update s.frame iterFf
            { f with
              sfPedigree :=
                if 1 ≤ cilkFrameVersionValue f.sfFlags then
                  v.pedigree
                else f.sfPedigree
              savedReducerMap := v.reducerMap
              suspendedFf := some suspendingFf } }
  else none

/-
  `piper_restore_worker_state_from_suspend_iter`, with the
  frame that it returns.
-/
def restoreWorkerStateFromSuspendIter
    (s : RuntimeState W F Q R) (w : W) (iterFf : F) :
    Option (RuntimeState W F Q R × F) :=
  let v := s.worker w
  let f := s.frame iterFf
  if v.reducerMap.isNone && f.suspendedFf.isSome then
    -- The source assigns `iter_ff`, not `suspended_ff`.
    let suspendedFf := iterFf
    some
      ({ worker :=
          Function.update s.worker w
            { pedigree :=
                if 1 ≤ cilkFrameVersionValue f.sfFlags then
                  f.sfPedigree
                else v.pedigree
              reducerMap := f.savedReducerMap }
         frame :=
          Function.update s.frame iterFf
            { f with
              savedReducerMap := none
              suspendedFf := none } },
        suspendedFf)
  else none

end RuntimeState

------------------------------------------------------------
-- Other Workers' Steps
------------------------------------------------------------

/-
  A worker suspends or resumes an iteration, or computes with
  its own pedigree and reducer map.
-/
inductive Step (W F Q R : Type) where
| save (w : W) (iterFf suspendingFf : F)
| restore (w : W) (iterFf : F)
| work (w : W) (v : Worker Q R)

namespace Step

/- The iteration that a step suspends or resumes. -/
def iter : Step W F Q R → Option F
| .save _ i _ => some i
| .restore _ i => some i
| .work _ _ => none

variable [DecidableEq W] [DecidableEq F]

def exec
    (s : RuntimeState W F Q R) :
    Step W F Q R → Option (RuntimeState W F Q R)
| .save w i f => s.saveWorkerStateForSuspendIter w i f
| .restore w i =>
    (s.restoreWorkerStateFromSuspendIter w i).map Prod.fst
| .work w v =>
    some { s with worker := Function.update s.worker w v }

def run
    (s : RuntimeState W F Q R) :
    List (Step W F Q R) → Option (RuntimeState W F Q R)
| [] => some s
| a :: steps => (a.exec s).bind fun t => run t steps

end Step

------------------------------------------------------------
-- Round Trips
------------------------------------------------------------

section RoundTrips

variable [DecidableEq W] [DecidableEq F]
variable {s t : RuntimeState W F Q R}

/-
  What worker `w` saved in state `s` comes back to the worker
  that restores the iteration in state `t`, the iteration's
  slots are empty again, and the suspended frame is returned.
  Frames of version 0 have no pedigree.
-/
def RoundTrip
    (s : RuntimeState W F Q R) (w : W)
    (iterFf suspendedFf : F)
    (t : RuntimeState W F Q R) (w' : W) : Prop :=
  ∃ r f,
    t.restoreWorkerStateFromSuspendIter w' iterFf =
        some (r, f) ∧
      (1 ≤ cilkFrameVersionValue (s.frame iterFf).sfFlags →
        (r.worker w').pedigree = (s.worker w).pedigree) ∧
      (r.worker w').reducerMap = (s.worker w).reducerMap ∧
      (r.frame iterFf).savedReducerMap = none ∧
      (r.frame iterFf).suspendedFf = none ∧
      f = suspendedFf

/- A step on another iteration leaves a frame as it is. -/
theorem Step.exec_frame
    {a : Step W F Q R} {iterFf : F}
    (hExec : a.exec s = some t)
    (hOther : a.iter ≠ some iterFf) :
    t.frame iterFf = s.frame iterFf := by
  cases a with
  | save w i f =>
      have hNe : iterFf ≠ i := by
        intro hEq
        exact hOther (by rw [hEq]; rfl)
      change s.saveWorkerStateForSuspendIter w i f = some t
        at hExec
      unfold RuntimeState.saveWorkerStateForSuspendIter
        at hExec
      dsimp only at hExec
      split at hExec
      · cases hExec
        exact Function.update_of_ne hNe _ _
      · cases hExec
  | restore w i =>
      have hNe : iterFf ≠ i := by
        intro hEq
        exact hOther (by rw [hEq]; rfl)
      rcases Option.map_eq_some_iff.mp hExec with
        ⟨r, hRestore, rfl⟩
      unfold RuntimeState.restoreWorkerStateFromSuspendIter
        at hRestore
      dsimp only at hRestore
      split at hRestore
      · cases hRestore
        exact Function.update_of_ne hNe _ _
      · cases hRestore
  | work w v =>
      cases hExec
      rfl

theorem Step.run_frame
    {steps : List (Step W F Q R)} {iterFf : F}
    (hRun : Step.run s steps = some t)
    (hOther : ∀ a ∈ steps, a.iter ≠ some iterFf) :
    t.frame iterFf = s.frame iterFf := by
  induction steps generalizing s with
  | nil =>
      cases hRun
      rfl
  | cons a steps ih =>
      unfold run at hRun
      rcases Option.bind_eq_some_iff.mp hRun with
        ⟨u, hExec, hRest⟩
      rw [ih hRest (fun b hB =>
        hOther b (List.mem_cons_of_mem _ hB))]
      exact exec_frame hExec (hOther a (List.mem_cons_self ..))

omit [DecidableEq W] [DecidableEq F] in
/- Only an iteration's own frame is of the iteration type. -/
theorem RuntimeState.frameType_iff
    (s : RuntimeState W F Q R) {iterFf currentFf : F}
    (hIter : s.iterFf currentFf = some iterFf) :
    (s.frame currentFf).frameType = .pipeIter ↔
      currentFf = iterFf := by
  rcases Option.filter_eq_some_iff.mp hIter with
    ⟨hFrame, hType⟩
  have hType := of_decide_eq_true hType
  constructor
  · intro hOwn
    rw [hOwn, if_neg (by simp)] at hFrame
    exact Option.some.inj hFrame
  · intro hEq
    rw [hEq]
    exact hType

/- What a suspension leaves in the iteration's frame. -/
theorem save_frame
    {w : W} {iterFf suspendingFf : F}
    (hSave :
      s.saveWorkerStateForSuspendIter w iterFf suspendingFf =
        some t) :
    t.frame iterFf =
      { s.frame iterFf with
        sfPedigree :=
          if 1 ≤ cilkFrameVersionValue
              (s.frame iterFf).sfFlags then
            (s.worker w).pedigree
          else (s.frame iterFf).sfPedigree
        savedReducerMap := (s.worker w).reducerMap
        suspendedFf := some suspendingFf } := by
  unfold RuntimeState.saveWorkerStateForSuspendIter at hSave
  dsimp only at hSave
  split at hSave
  · cases hSave
    exact Function.update_self _ _ _
  · cases hSave

/- What a resumption does, where its assertions hold. -/
theorem restore_eq
    {w : W} {iterFf f : F}
    (hNone : (s.worker w).reducerMap = none)
    (hSusp : (s.frame iterFf).suspendedFf = some f) :
    s.restoreWorkerStateFromSuspendIter w iterFf =
      some
        ({ worker :=
            Function.update s.worker w
              { pedigree :=
                  if 1 ≤ cilkFrameVersionValue
                      (s.frame iterFf).sfFlags then
                    (s.frame iterFf).sfPedigree
                  else (s.worker w).pedigree
                reducerMap :=
                  (s.frame iterFf).savedReducerMap }
           frame :=
            Function.update s.frame iterFf
              { s.frame iterFf with
                savedReducerMap := none
                suspendedFf := none } }, iterFf) := by
  unfold RuntimeState.restoreWorkerStateFromSuspendIter
  dsimp only
  rw [hNone, hSusp]
  rfl

/-
  A suspension and the resumption that follows it are a round
  trip exactly if the suspended frame is the iteration's own.
-/
theorem roundTrip_iff
    {w w' : W} {iterFf currentFf : F}
    {u : RuntimeState W F Q R} {steps : List (Step W F Q R)}
    (hIter : s.iterFf currentFf = some iterFf)
    (hSave :
      s.saveWorkerStateForSuspendIter w iterFf currentFf =
        some t)
    (hRun : Step.run t steps = some u)
    (hOther : ∀ a ∈ steps, a.iter ≠ some iterFf)
    (hNone : (u.worker w').reducerMap = none) :
    RoundTrip s w iterFf currentFf u w' ↔
      (s.frame currentFf).frameType = .pipeIter := by
  have hSame : (s.frame currentFf).frameType = .pipeIter ↔
      currentFf = iterFf := s.frameType_iff hIter
  rw [hSame]
  have hFrame := Step.run_frame hRun hOther
  rw [save_frame hSave] at hFrame
  have hSusp : (u.frame iterFf).suspendedFf =
      some currentFf := by
    rw [hFrame]
  have hRestore := restore_eq hNone hSusp
  constructor
  · intro hTrip
    rcases hTrip with ⟨r, f, hEq, -, -, -, -, rfl⟩
    rw [hRestore] at hEq
    cases hEq
    rfl
  · intro hOwn
    refine ⟨_, _, hRestore, ?_, ?_, ?_, ?_, hOwn.symm⟩
    · intro hVersion
      dsimp only
      rw [Function.update_self, hFrame]
      dsimp only
      rw [if_pos hVersion, if_pos hVersion]
    · simp [hFrame]
    · simp
    · simp

/-
  Worker 0 suspends frame 0, an iteration, or frame 1, a call
  descendant of it; frame 2 is another iteration.
-/
def callChild : RuntimeState (Fin 2) (Fin 3) Unit Unit where
  worker w :=
    { pedigree := { rank := w.val, parent := none }
      reducerMap := if w = 0 then some () else none }
  frame f :=
    { frameType :=
        if f = 1 then .pipeIterCallDescendant else .pipeIter
      parent := if f = 1 then some 0 else none
      sfFlags := 0x01000000
      sfPedigree := { rank := 0, parent := none }
      savedReducerMap := none
      suspendedFf := none }

/- Another worker suspends and resumes in between. -/
def otherSteps : List (Step (Fin 2) (Fin 3) Unit Unit) :=
  [.save 1 2 2, .restore 1 2]

/- The iteration's own frame makes a round trip. -/
theorem roundTrip_own :
    ∃ t u,
      callChild.saveWorkerStateForSuspendIter 0 0 0 = some t ∧
        Step.run t otherSteps = some u ∧
        RoundTrip callChild 0 0 0 u 1 :=
  ⟨_, _, rfl, rfl,
    (roundTrip_iff (w := 0) (t := _) (by decide) rfl
      (show Step.run _ otherSteps = some _ from rfl)
      (by decide) (by decide)).mpr (by decide)⟩

/- The call descendant is lost: its iteration is returned. -/
theorem callChild_lost :
    callChild.iterFf 1 = some 0 ∧
      ∃ t u r,
        callChild.saveWorkerStateForSuspendIter 0 0 1 =
            some t ∧
          Step.run t otherSteps = some u ∧
          (u.worker 1).reducerMap = none ∧
          u.restoreWorkerStateFromSuspendIter 1 0 =
            some (r, 0) ∧
          ¬ RoundTrip callChild 0 0 1 u 1 := by
  refine ⟨by decide, _, _, _, rfl, rfl, by decide, rfl, ?_⟩
  rintro ⟨r, f, hEq, -, -, -, -, rfl⟩
  cases hEq

end RoundTrips

end SuspendIter

end PRacer
