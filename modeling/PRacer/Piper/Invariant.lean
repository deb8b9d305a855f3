import Mathlib.Data.ZMod.Basic
import Mathlib.Tactic.Common
import PRacer.Piper.System

/-
  The invariant of the pipeline runtime, in groups that
  depend on different parts of the state.

  Main declarations:
    * `IterPc.place` and the other classes of positions
    * `PipeState.InRing`, `PipeState.Freed`
    * `Positions`, `BlockOk`, `LinkOk`, `Core`
    * `Tasks`, `Flags`, `Inv`
-/

------------------------------------------------------------
-- Classes of Positions
------------------------------------------------------------

namespace PRacer

namespace Piper

/-
  Who has an iteration: nobody yet, a worker that executes
  it, its unstolen parent while it exits, a worker in the
  runtime, nobody while it is suspended, a worker's queue,
  or nobody any more.
-/
inductive Place where
| unborn
| executing
| exiting
| runtime
| asleep
| queued
| gone
deriving DecidableEq, Repr

def WaitPc.place : WaitPc → Place
| .cache => .executing
| .left => .executing
| .check => .executing
| .stall => .executing
| .switching => .runtime
| .marked => .runtime
| .suspended => .asleep
| .queued => .queued

/- The block of the iteration is marked as suspended. -/
def WaitPc.isMarked : WaitPc → Bool
| .marked => true
| .suspended => true
| _ => false

namespace IterPc

def place : IterPc → Place
| .notStarted => .unborn
| .body => .executing
| .wait _ p => p.place
| .final => .executing
| .leaving => .executing
| .exiting _ => .exiting
| .finishing _ => .runtime
| .finished => .gone
| .lastAtSync => .gone

def isMarked : IterPc → Bool
| .wait _ p => p.isMarked
| _ => false

/-
  The iteration still counts in the join counter of its
  stolen parent.
-/
def joined : IterPc → Bool
| .body => true
| .wait _ _ => true
| .final => true
| .leaving => true
| .finishing .enter => true
| _ => false

/- The stage counter has been moved to its last value. -/
def moved : IterPc → Bool
| .exiting .freeLeft => true
| .exiting .freeOwn => true
| .finishing .resumeNext => true
| .finishing .freeOwn => true
| .finishing .getNext => true
| .finished => true
| _ => false

/-
  The iteration has a resume step to come, and reaches it
  without being woken up itself.
-/
def wakes : IterPc → Bool
| .body => true
| .wait _ .suspended => false
| .wait _ _ => true
| .final => true
| .leaving => true
| .finishing .enter => true
| .finishing .freeLeft => true
| .finishing .move => true
| .finishing .resumeNext => true
| _ => false

/- The final stage is over, and the counter not yet moved. -/
def posted : IterPc → Bool
| .leaving => true
| .exiting .move => true
| .finishing .enter => true
| .finishing .freeLeft => true
| .finishing .move => true
| .lastAtSync => true
| _ => false

end IterPc

namespace ControlPc

/- The current iteration is an attached child. -/
def attached : ControlPc → Bool
| .child _ => true
| .popped => true
| _ => false

/- The current iteration has not started. -/
def ahead : ControlPc → Bool
| .loopHead => true
| .synced => true
| .exited => true
| _ => false

/- The control frame has decremented the next block. -/
def throttled : ControlPc → Bool
| .suspended => true
| .passing => true
| _ => false

end ControlPc

------------------------------------------------------------
-- The Ring
------------------------------------------------------------

namespace PipeState

variable {W P R : Type} {K : ℕ}

/- The current iteration. -/
abbrev cur (s : PipeState W P R K) : ℤ :=
  s.control.currentIter

/- The iterations that the blocks of the ring stand for. -/
def InRing (s : PipeState W P R K) (i : ℤ) : Prop :=
  s.cur - K < i ∧ i ≤ s.cur

/- The iteration is an attached child. -/
def attachedAt (s : PipeState W P R K) (i : ℤ) : Bool :=
  s.control.pc.attached && i = s.cur

/- The control frame has decremented the iteration's block. -/
def throttledAt (s : PipeState W P R K) (i : ℤ) : Bool :=
  s.control.pc.throttled && i = s.cur + 1 - K

/- The right neighbour has decremented the block. -/
def rightFreed (s : PipeState W P R K) (i : ℤ) : Bool :=
  (s.pc (i + 1)).freedLeft

/- Both decrements of finished iterations are made. -/
def Freed (s : PipeState W P R K) (i : ℤ) : Prop :=
  (s.pc i).freedOwn = true ∧ s.rightFreed i = true

end PipeState

------------------------------------------------------------
-- Blocks, Positions and Neighbours
------------------------------------------------------------

/- The value of a cleanup counter. -/
def counterOf (own right throttled : Bool) : ℤ :=
  (if own then 0 else cleanupFinishIterVal) +
    (if right then 0 else cleanupFinishIterVal) +
    (if throttled then 0 else cleanupThrottleVal)

/-
  What the block of iteration `i` says: `p` is where the
  iteration stands, `right` and `throttled` tell whether the
  right neighbour and the control frame have decremented the
  block, `attached` whether the iteration is an attached
  child.
-/
structure BlockOk
    (i : ℤ) (p : IterPc)
    (right attached throttled : Bool) (b : Block) :
    Prop where
  counter :
    b.cleanupCounter = counterOf p.freedOwn right throttled
  available :
    b.blockStatus = .available ↔
      p.freedOwn = true ∧ right = true
  marks : b.marks = if p.freedOwn && right then 1 else 0
  unzeroed :
    (p.freedOwn && right && throttled) = false →
      b.zeroedBy = []
  zeroed :
    (p.freedOwn && right && throttled) = true →
      ∃ q, b.zeroedBy = [q] ∧ ∀ k, q ≠ .attachedExit k
  done :
    p = .notStarted ∨ (p.freedOwn && right) = true →
      b.iterStatus = .finished
  marked :
    p.isMarked = true →
      b.iterStatus = .promotedSuspended ∧
        b.resumeFlags = .suspendedIter
  active :
    p ≠ .notStarted → (p.freedOwn && right) = false →
      p.isMarked = false →
        b.iterStatus = .promotedActive ∨
          b.iterStatus = .standardExec
  standard :
    attached = true → p ≠ .notStarted →
      b.iterStatus = .standardExec
  promoted :
    attached = false → p.joined = true →
      p.isMarked = false → b.iterStatus = .promotedActive
  queued :
    p.place = .queued → b.resumeFlags = .resumingIter
  locked :
    ∀ f, p = .wait f .marked → b.dataLock = true
  iterNum : 0 ≤ i → p ≠ .notStarted → b.iterNum = i
  started :
    0 ≤ i → p ≠ .notStarted → stageUserToSys 0 ≤ b.stage
  early :
    0 ≤ i → p ≠ .notStarted → p.posted = false →
      p.moved = false →
        b.stage ≤ stageUserToSys finalUserStage
  posted :
    p.posted = true →
      b.stage = stageUserToSys postIterCleanupStage
  moved :
    0 ≤ i → p.moved = true → b.stage = runtimeFinishIterStage

/-
  What an iteration that has not decremented its left block
  knows about its left neighbour.
-/
structure LinkOk
    (p : IterPc) (b : Block) (pl : IterPc) (bl : Block) :
    Prop where
  cached : b.cachedLeftStage ≤ bl.stage
  wakes :
    p.isMarked = true → b.stage < bl.stage →
      pl.wakes = true

variable {W P R : Type} {K : ℕ}

/- Which iterations have started, and where they stand. -/
structure Positions (s : PipeState W P R K) : Prop where
  ring : 1 < K
  curPos : 1 ≤ s.cur
  before : ∀ i, i ≤ 0 → s.pc i = .finished
  after : ∀ i, s.cur < i → s.pc i = .notStarted
  started : ∀ i, i < s.cur → s.pc i ≠ .notStarted
  current :
    s.pc s.cur = .notStarted ↔ s.control.pc.ahead = true
  child :
    ∀ b, s.control.pc = .child b →
      (s.pc s.cur).place = .executing
  popped :
    s.control.pc = .popped → (s.pc s.cur).place = .exiting
  exiting :
    ∀ i, (s.pc i).place = .exiting →
      i = s.cur ∧ s.control.pc = .popped
  unstolen :
    s.control.hasFullFrame = false →
      ∀ i, i ≤ s.cur → s.pc i ≠ .notStarted →
        s.attachedAt i = false → s.pc i = .finished
  window : ∀ i, i ≤ s.cur - K → s.Freed i
  passing :
    s.control.pc = .passing → s.Freed (s.cur + 1 - K)

/- The part of the invariant that is not about workers. -/
structure Core (s : PipeState W P R K) : Prop where
  positions : Positions s
  blocks :
    ∀ i, s.InRing i →
      BlockOk i (s.pc i) (s.rightFreed i) (s.attachedAt i)
        (s.throttledAt i) (s.blk i)
  links :
    ∀ i, 1 ≤ i → s.pc i ≠ .notStarted →
      (s.pc i).freedLeft = false →
        LinkOk (s.pc i) (s.blk i) (s.pc (i - 1))
          (s.blk (i - 1))
  children :
    ∀ i, i ∈ s.control.children ↔
      (s.pc i).joined = true ∧ s.attachedAt i = false

------------------------------------------------------------
-- Workers
------------------------------------------------------------

/- The iterations that a worker's task is about. -/
def Task.iters : Task → List ℤ
| .iter i => [i]
| .nextIter i => [i]
| .runtime i r => i :: r.toList
| _ => []

/-
  The worker executes the control frame, is to do so, or has
  it implicitly on its deque.
-/
def Worker.HoldsControl (v : Worker P R) : Prop :=
  v.task = .control ∨ v.task = .nextControl ∨
    v.parentResume = .selfSteal

namespace PipeState

/- The worker has the iteration or is to have it. -/
def HoldsIter (s : PipeState W P R K) (w : W) (i : ℤ) :
    Prop :=
  i ∈ (s.worker w).task.iters

def HoldsControl (s : PipeState W P R K) (w : W) : Prop :=
  (s.worker w).HoldsControl

/- The worker has marked the parent after a suspension. -/
def Resumes (s : PipeState W P R K) (w : W) : Prop :=
  (s.worker w).parentResume = .throttleSuspend

end PipeState

/- What a worker's task says about positions. -/
structure TaskOk
    (pc : ℤ → IterPc) (attached : ℤ → Bool)
    (cpc : ControlPc) (task : Task) : Prop where
  iter :
    ∀ i, task = .iter i →
      (pc i).place = .executing ∧ attached i = false
  nextIter :
    ∀ i, task = .nextIter i → (pc i).place = .queued
  runtime :
    ∀ i r, task = .runtime i r → (pc i).place = .runtime
  resume :
    ∀ i j, task = .runtime i (some j) →
      j = i + 1 ∧ (pc j).place = .queued ∧
        (pc i = .finishing .freeOwn ∨
          pc i = .finishing .getNext)
  control :
    task = .control → cpc ≠ .suspended ∧ cpc ≠ .synced
  nextControl :
    task = .nextControl →
      cpc = .continuation ∨ cpc = .passing ∨ cpc = .synced

/- Who has which frame. -/
structure Tasks (s : PipeState W P R K) : Prop where
  task :
    ∀ w, TaskOk s.pc s.attachedAt s.control.pc
      (s.worker w).task
  iterUnique :
    ∀ w w' i, s.HoldsIter w i → s.HoldsIter w' i → w = w'
  controlUnique :
    ∀ w w', s.HoldsControl w → s.HoldsControl w' → w = w'

/- What a worker's deque flags say. -/
structure FlagOk
    (pc : ℤ → IterPc) (cur : ℤ) (cpc : ControlPc)
    (freed : Prop) (v : Worker P R) : Prop where
  selfSteal :
    v.parentResume = .selfSteal →
      cpc = .continuation ∧ cur ∈ v.task.iters
  throttleSuspend :
    v.parentResume = .throttleSuspend →
      cpc = .suspended ∧ freed
  travels :
    v.parentResume = .throttleSuspend →
      ∀ i, (v.task = .iter i ∨ v.task = .nextIter i ∨
          ∃ r f p, v.task = .runtime i r ∧
            pc i = .wait f p) →
        (pc (i - 1)).moved = true
  unmarked :
    v.parentResume = .throttleSuspend →
      ∀ i r, v.task = .runtime i r →
        (pc i).isMarked = false
  noParent :
    v.task = .idle ∨ v.task = .control ∨
        v.task = .nextControl →
      v.parentResume = .noParent
  onTop :
    ((∃ i, v.task = .iter i) ∨ ∃ i r, v.task = .runtime i r) →
      v.iterFfOnTop = true
  offTop : v.task = .control → v.iterFfOnTop = false

/- The flags on the workers and on the control frame. -/
structure Flags (s : PipeState W P R K) : Prop where
  flag :
    ∀ w, FlagOk s.pc s.cur s.control.pc
      (s.Freed (s.cur + 1 - K)) (s.worker w)
  resumesUnique :
    ∀ w w', s.Resumes w → s.Resumes w' → w = w'
  suspended :
    s.control.resumeFlags = .suspendedControl ↔
      s.control.pc = .suspended
  resuming :
    s.control.resumeFlags = .resumingControl →
      s.control.pc = .passing
  normal :
    s.control.resumeFlags = .normalCilk ∨
      s.control.resumeFlags = .resumingControl ∨
      s.control.resumeFlags = .suspendedControl
  executing :
    ∀ w, (s.worker w).task = .control →
      s.control.resumeFlags = .normalCilk
  handed :
    ∀ w, (s.worker w).task = .nextControl →
      s.control.pc = .passing →
        s.control.resumeFlags = .resumingControl
  running :
    s.control.pc ≠ .synced →
      s.control.joinCounter = s.control.children.card + 1
  waiting :
    s.control.pc = .synced →
      (s.control.joinCounter = s.control.children.card ∧
        ∀ w, (s.worker w).task ≠ .nextControl) ∨
      (s.control.joinCounter = 1 ∧ s.control.children = ∅)

/-
  Who continues the control frame: the one party that took
  the counter of the next block to 0.
-/
structure Continues (s : PipeState W P R K) : Prop where
  suspended :
    s.control.pc = .suspended → s.Freed (s.cur + 1 - K) →
      ∃ w, s.Resumes w ∧
        (s.blk (s.cur + 1 - K)).zeroedBy =
          [(s.worker w).flagSetBy]
  passing :
    s.control.pc = .passing →
      (s.blk (s.cur + 1 - K)).zeroedBy =
        [s.control.continuedBy]

/- All groups together. -/
structure Inv (s : PipeState W P R K) : Prop where
  core : Core s
  tasks : Tasks s
  flags : Flags s
  continues : Continues s

end Piper

end PRacer
