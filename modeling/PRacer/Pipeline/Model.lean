import Mathlib.Logic.Relation
import PRacer.Foundations.InsertionOrder
import PRacer.Foundations.TransitionSystem

/-
  The hooks that maintain the two orders of a pipeline
  (`piper_rd.h`).

  `g_english` and `g_hebrew` are order lists.  Iterations are
  numbered from 1 as in the source, and every iteration has
  the list of its stage frames.  A hook that would read past
  the end of a list returns `none`.

  Main declarations:
    * `PiperState.cilkStageFirst`, `PiperState.cilkStage`,
      `PiperState.cilkStageWait`
    * `Pipeline`, `Pipeline.Edge`
    * `pipelineSystem`
-/

------------------------------------------------------------
-- Stage Frames
------------------------------------------------------------

namespace PRacer

open Foundations

/- The nodes of a stage in one of the two orders. -/
structure Order where
  current : Nat
  rightCont : Nat
  downCont : Nat
deriving DecidableEq, Repr

structure StageFrame where
  iterNum : Nat
  stageNum : Nat
  downFirst : Order
  rightFirst : Order
deriving DecidableEq, Repr

/- The stage frames of an iteration (`List<StageFrame>`). -/
structure StageFrameList where
  frames : List StageFrame
  index : Nat
deriving DecidableEq, Repr

/- The two orders and the stage frames of all iterations. -/
structure PiperState where
  english : OrderList
  hebrew : OrderList
  iterations : Nat → StageFrameList

namespace PiperState

/-
  The start of a pipeline: both orders have their base node
  only, and no iteration has a stage frame.
-/
def cilkPipeWhileBegin : PiperState where
  english := OrderList.singleton
  hebrew := OrderList.singleton
  iterations := fun _ => { frames := [], index := 0 }

/- The base node of an order. -/
def getBase : Nat := 0

/-
  The frame of a stage with the given current nodes.  Nodes
  for its children go into both orders: the right child
  comes first in hebrew, the down child in english.
-/
def createOrder
    (s : PiperState)
    (iterNum stageNum rightCurrent downCurrent : Nat) :
    StageFrame × PiperState :=
  let (hRight, hebrew₁) := s.hebrew.insert rightCurrent
  let (hDown, hebrew₂) := hebrew₁.insert hRight
  let (eDown, english₁) := s.english.insert downCurrent
  let (eRight, english₂) := english₁.insert eDown
  ({ iterNum := iterNum
     stageNum := stageNum
     downFirst :=
      { current := downCurrent
        rightCont := eRight
        downCont := eDown }
     rightFirst :=
      { current := rightCurrent
        rightCont := hRight
        downCont := hDown } },
   { s with english := english₂, hebrew := hebrew₂ })

/- Append a frame to the list of its iteration. -/
def append
    (s : PiperState) (iterNum : Nat) (sf : StageFrame) :
    PiperState :=
  { s with
    iterations := Function.update s.iterations iterNum
      { s.iterations iterNum with
        frames := (s.iterations iterNum).frames ++ [sf] } }

/- Start the list of an iteration with its first frame. -/
def insertStageFrameList
    (s : PiperState) (iterNum : Nat) (sf : StageFrame) :
    PiperState :=
  { s with
    iterations := Function.update s.iterations iterNum
      { frames := [sf], index := 1 } }

/- Stage 0 of an iteration. -/
def cilkStageFirst
    (s : PiperState) (iterNum : Nat) : Option PiperState :=
  if 1 < iterNum then
    match (s.iterations (iterNum - 1)).frames[0]? with
    | none => none
    | some sibling =>
        let (sf, s') := s.createOrder iterNum 0
          sibling.rightFirst.rightCont
          sibling.downFirst.rightCont
        some (s'.insertStageFrameList iterNum sf)
  else
    let (sf, s') := s.createOrder iterNum 0 getBase getBase
    some (s'.insertStageFrameList iterNum sf)

/-
  The loop over the left iteration from position `index` on.
  It gives the values of `ret`, `index` and `iPre` at its
  end.
-/
def leftLoop (stage : Nat) :
    List StageFrame → Nat → Nat → Nat × Nat × Nat
| [], index, iPre => (0, index, iPre)
| sf :: rest, index, iPre =>
    if sf.stageNum = stage then
      (index, index + 1, iPre)
    else if sf.stageNum < stage then
      leftLoop stage rest (index + 1) index
    else
      (iPre, index, iPre)

/-
  The position of the left dependency of a stage, and 0 if
  there is no new one.
-/
def getLeftDependency
    (s : PiperState) (iterNum stage : Nat) :
    Nat × PiperState :=
  let cur := s.iterations iterNum
  let pre := s.iterations (iterNum - 1)
  let (ret, index, iPre) :=
    leftLoop stage (pre.frames.drop cur.index) cur.index 0
  (max ret iPre,
    { s with
      iterations := Function.update s.iterations iterNum
        { cur with index := index } })

/- A stage that waits for the left iteration. -/
def cilkStageWait
    (s : PiperState) (iterNum userStage : Nat) :
    Option PiperState :=
  match (s.iterations iterNum).frames.getLast? with
  | none => none
  | some parent =>
      if 1 < iterNum then
        let (leftIndex, s₁) :=
          s.getLeftDependency iterNum userStage
        if leftIndex ≠ 0 then
          match
            (s₁.iterations (iterNum - 1)).frames[leftIndex]?
          with
          | none => none
          | some sibling =>
              let (sf, s₂) :=
                s₁.createOrder iterNum userStage
                  sibling.rightFirst.rightCont
                  parent.downFirst.downCont
              some (s₂.append iterNum sf)
        else
          let (sf, s₂) :=
            s₁.createOrder iterNum userStage
              parent.rightFirst.downCont
              parent.downFirst.downCont
          some (s₂.append iterNum sf)
      else
        let (sf, s₂) :=
          s.createOrder iterNum userStage
            parent.rightFirst.downCont
            parent.downFirst.downCont
        some (s₂.append iterNum sf)

/- A stage that does not wait. -/
def cilkStage
    (s : PiperState) (iterNum userStage : Nat) :
    Option PiperState :=
  match (s.iterations iterNum).frames.getLast? with
  | none => none
  | some parent =>
      let (sf, s') :=
        s.createOrder iterNum userStage
          parent.rightFirst.downCont
          parent.downFirst.downCont
      some (s'.append iterNum sf)

end PiperState

------------------------------------------------------------
-- Pipelines
------------------------------------------------------------

/- A stage and whether it is entered by `cilk_stage_wait`. -/
structure Stage where
  number : Nat
  waits : Bool
deriving DecidableEq, Repr

/- Stage 0 and the later stages, numbered increasingly. -/
structure Iteration where
  later : List Stage
  increasing :
    (0 :: later.map Stage.number).Pairwise (· < ·)

namespace Iteration

def stages (it : Iteration) : List Stage :=
  { number := 0, waits := false } :: it.later

theorem stages_increasing (it : Iteration) :
    it.stages.Pairwise fun a b => a.number < b.number := by
  have hInc := it.increasing
  rw [show (0 :: it.later.map Stage.number) =
    it.stages.map Stage.number from rfl,
    List.pairwise_map] at hInc
  exact hInc

end Iteration

/- Iterations `1` to `count`. -/
structure Pipeline where
  count : Nat
  iteration : Nat → Iteration

/- A stage of the pipeline: iteration and position there. -/
abbrev Cell := Nat × Nat

namespace Pipeline

variable (P : Pipeline)

/- The cell is a stage of the pipeline. -/
def Has (c : Cell) : Prop :=
  1 ≤ c.1 ∧ c.1 ≤ P.count ∧
    c.2 < (P.iteration c.1).stages.length

/-
  The edges of the pipeline dag: within an iteration, between
  first stages, and from all stages that a wait stage waits
  for.
-/
inductive Edge : Cell → Cell → Prop
| next (i k : Nat) :
    P.Has (i, k + 1) → Edge (i, k) (i, k + 1)
| first (i : Nat) :
    P.Has (i, 0) → P.Has (i + 1, 0) →
    Edge (i, 0) (i + 1, 0)
| wait (i l k : Nat) (left own : Stage) :
    P.Has (i, l) → P.Has (i + 1, k) →
    (P.iteration i).stages[l]? = some left →
    (P.iteration (i + 1)).stages[k]? = some own →
    own.waits = true → left.number ≤ own.number →
    Edge (i, l) (i + 1, k)

/- There is a path in the pipeline dag. -/
def Reaches : Cell → Cell → Prop :=
  Relation.TransGen P.Edge

/- Neither cell reaches the other. -/
def Parallel (c d : Cell) : Prop :=
  ¬ P.Reaches c d ∧ ¬ P.Reaches d c

end Pipeline

------------------------------------------------------------
-- Executions
------------------------------------------------------------

namespace PiperState

/- The frame of a stage, if it has been created. -/
def frame? (s : PiperState) (c : Cell) : Option StageFrame :=
  (s.iterations c.1).frames[c.2]?

/- The stage has started. -/
def Started (s : PiperState) (c : Cell) : Prop :=
  c.2 < (s.iterations c.1).frames.length

/- The stage that an iteration enters next. -/
def nextCell (s : PiperState) (i : Nat) : Cell :=
  (i, (s.iterations i).frames.length)

/- The hook that the next stage of an iteration calls. -/
def hook
    (P : Pipeline) (s : PiperState) (i : Nat) :
    Option PiperState :=
  match (s.iterations i).frames.length with
  | 0 => s.cilkStageFirst i
  | k + 1 =>
      match (P.iteration i).stages[k + 1]? with
      | none => none
      | some stage =>
          if stage.waits then s.cilkStageWait i stage.number
          else s.cilkStage i stage.number

end PiperState

/-
  Any order of the hooks in which a stage starts only after
  all its predecessors in the dag.
-/
def pipelineSystem (P : Pipeline) :
    TransitionSystem PiperState Nat where
  init s := s = .cilkPipeWhileBegin
  step s i t :=
    P.Has (s.nextCell i) ∧
      (∀ c, P.Edge c (s.nextCell i) → s.Started c) ∧
      s.hook P i = some t

end PRacer
