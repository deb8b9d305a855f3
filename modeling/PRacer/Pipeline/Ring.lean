import PRacer.Foundations.Heap
import PRacer.Foundations.SlotRing
import PRacer.Pipeline.Model
import PRacer.Pipeline.SharedList

/-
  The ring that keeps the stage lists of the last iterations
  (`Iterations` in `piper_rd.h`), and the hooks as they run
  on it, one access to memory after the other.

  The list of an iteration is read by the hooks of the next
  one while its own hooks append to it, without any lock.
  What only an iteration itself changes and reads is read in
  one step.

  Main declarations:
    * `Iterations.getIndex`, `Iterations.advance`
    * `IterationPc`, `RingState.hookStep`
    * `ringSystem`
-/

------------------------------------------------------------
-- The Ring
------------------------------------------------------------

namespace PRacer

open Foundations

/-
  The slots of the lists and the two cursors.  A slot holds
  the address of a list, and `none` for a null pointer.
-/
structure Iterations where
  throttleLimit : Nat
  p : Nat → Option Nat
  iterNumList : Nat → Int
  head : Int
  tail : Int

namespace Iterations

def init (limit : Nat) : Iterations where
  throttleLimit := limit
  p := fun _ => none
  iterNumList := fun _ => -1
  head := -1
  tail := -1

def getIndex (it : Iterations) (iterNum : Nat) : Nat :=
  let m := iterNum % (it.throttleLimit + 1)
  if m = 0 then it.throttleLimit else m - 1

def getStageFrameList
    (it : Iterations) (iterNum : Nat) : Option Nat :=
  it.p (it.getIndex iterNum)

/-
  The slot for the next list, and the cursors moved there.
  It is `none` where the source leaves the slot undefined.
-/
def advance (it : Iterations) : Option (Int × Iterations) :=
  if it.tail ≤ it.head ∧
      it.head + 1 < it.throttleLimit + 1 then
    some (it.head + 1, { it with head := it.head + 1 })
  else if it.tail < it.head then
    some (0, { it with head := 0, tail := 1 })
  else if it.head < it.tail then
    some (it.head + 1,
      { it with
        head := it.head + 1
        tail := (it.tail + 1) % (it.throttleLimit + 1) })
  else none

/- Put a list and its iteration into a slot. -/
def setSlot
    (it : Iterations) (index iterNum list : Nat) :
    Iterations :=
  { it with
    p := Function.update it.p index (some list)
    iterNumList :=
      Function.update it.iterNumList index iterNum }

end Iterations

------------------------------------------------------------
-- Hooks on the Ring
------------------------------------------------------------

/-
  A stage that is entered, with the list of its iteration and
  the current nodes as far as they are known.
-/
structure StageEntry where
  userStage : Nat
  list : Nat
  right : Nat
  down : Nat
deriving DecidableEq, Repr

/- The variables of the search for the left dependency. -/
structure LeftSearch where
  entry : StageEntry
  cur : Nat
  pre : Nat
  length : Nat
  index : Nat
  iPre : Nat
deriving DecidableEq, Repr

/- The tests that the search makes of a stage. -/
inductive LeftTest where
| equal
| less
| greater
deriving DecidableEq, Repr

/-
  Where an iteration stands.  Inside a hook the constructor
  names the next thing the hook does, with the values that it
  has read so far.
-/
inductive IterationPc where
| notStarted
| stageFirst
| firstSibling (pre : Nat) (get : SharedList.GetPc)
| createFirst (right down : Nat)
| insertList (sf : StageFrame)
| newList (index : Nat) (sf : StageFrame)
| appendFirst
    (list : Nat) (sf : StageFrame) (pc : SharedList.AppendPc)
| running
| stage (userStage : Nat) (waits : Bool)
| leftDependency (e : StageEntry)
| leftLength (e : StageEntry) (cur pre : Nat)
| leftLoop (x : LeftSearch)
| leftTest
    (x : LeftSearch) (test : LeftTest) (get : SharedList.GetPc)
| leftEnd (x : LeftSearch) (ret : Nat)
| leftSibling (e : StageEntry) (leftIndex : Nat)
| sibling
    (e : StageEntry) (leftIndex pre : Nat)
    (get : SharedList.GetPc)
| create (e : StageEntry)
| append
    (list : Nat) (sf : StageFrame) (pc : SharedList.AppendPc)
| finished
deriving DecidableEq, Repr

/-
  The ring, the lists in memory and the iterations.

  `piper` has the two orders, and it keeps what the hooks of
  each iteration have put into their list.  No hook reads
  that copy.
-/
structure RingState where
  piper : PiperState
  ring : Iterations
  lists : Heap (SharedList StageFrame)
  pc : Nat → IterationPc

/- The cursor of an iteration moves. -/
def PiperState.setIndex
    (s : PiperState) (iterNum index : Nat) : PiperState :=
  { s with
    iterations := Function.update s.iterations iterNum
      { s.iterations iterNum with index := index } }

namespace LeftSearch

/- Where a test of the stage at `index` leads. -/
def tested
    (x : LeftSearch) (stageNum : Nat) : LeftTest → IterationPc
| .equal =>
    if stageNum = x.entry.userStage then
      .leftEnd { x with index := x.index + 1 } x.index
    else .leftTest x .less .length
| .less =>
    if stageNum < x.entry.userStage then
      .leftLoop { x with iPre := x.index, index := x.index + 1 }
    else .leftTest x .greater .length
| .greater =>
    if x.entry.userStage < stageNum then .leftEnd x x.iPre
    else .leftLoop x

end LeftSearch

namespace RingState

def init (limit : Nat) : RingState where
  piper := .cilkPipeWhileBegin
  ring := .init limit
  lists := .empty
  pc := fun _ => .notStarted

def setPc
    (s : RingState) (i : Nat) (pc : IterationPc) :
    RingState :=
  { s with pc := Function.update s.pc i pc }

/- Free a list, unless the pointer to it is null. -/
def delete
    (s : RingState) (list : Option Nat) : Option RingState :=
  match list with
  | none => some s
  | some l =>
      match s.lists.get l with
      | none => none
      | some _ => some { s with lists := s.lists.free l }

/-
  Move the cursors and delete the list in the slot they give.
  It is `none` if there is no such slot.
-/
def insertList (s : RingState) : Option (Nat × RingState) :=
  match s.ring.advance with
  | none => none
  | some (index, ring) =>
      if 0 ≤ index ∧ index < ring.throttleLimit + 1 then
        match s.delete (ring.p index.toNat) with
        | none => none
        | some s => some (index.toNat, { s with ring := ring })
      else none

/- Put a new list into the slot. -/
def newList
    (s : RingState) (index iterNum : Nat) : RingState :=
  { s with
    ring := s.ring.setSlot index iterNum s.lists.next
    lists := s.lists.alloc .new }

/- The list that the ring has for an iteration. -/
def lookup
    (s : RingState) (iterNum : Nat) :
    Option (Nat × SharedList StageFrame) :=
  match s.ring.getStageFrameList iterNum with
  | none => none
  | some l =>
      match s.lists.get l with
      | none => none
      | some list => some (l, list)

/- A list changes. -/
def setList
    (s : RingState) (list : Nat) (l : SharedList StageFrame) :
    RingState :=
  { s with lists := s.lists.modify list fun _ => l }

/-
  One step of a call of `get`.  It either goes on, or `next`
  says where the frame leads.
-/
def getFrame
    (s : RingState) (i list index : Nat)
    (get : SharedList.GetPc) (anything : StageFrame)
    (going : SharedList.GetPc → IterationPc)
    (next : StageFrame → IterationPc) :
    Option RingState :=
  match s.lists.get list with
  | none => none
  | some l =>
      match l.getStep index anything get with
      | none => none
      | some (.inl get) => some (s.setPc i (going get))
      | some (.inr sf) => some (s.setPc i (next sf))

/-
  The next step of the hook that an iteration is in, and
  `none` if the step would read a list that is not there or
  a frame that is not in the list.  What `anything` says is
  what a read gives that the writes of another hook disturb.

  The nodes of a stage are inserted under the locks of the
  orders, and no list is read or written meanwhile.
-/
def hookStep
    (s : RingState) (i : Nat) (anything : StageFrame) :
    Option RingState :=
  match s.pc i with
  | .stageFirst =>
      if 1 < i then
        match s.ring.getStageFrameList (i - 1) with
        | none => none
        | some pre => some (s.setPc i (.firstSibling pre .length))
      else
        some (s.setPc i
          (.createFirst PiperState.getBase
            PiperState.getBase))
  | .firstSibling pre get =>
      s.getFrame i pre 0 get anything (.firstSibling pre)
        fun sibling =>
          .createFirst sibling.rightFirst.rightCont
            sibling.downFirst.rightCont
  | .createFirst right down =>
      let (sf, piper) := s.piper.createOrder i 0 right down
      some ({ s with piper := piper }.setPc i
        (.insertList sf))
  | .insertList sf =>
      match s.insertList with
      | none => none
      | some (index, s') => some (s'.setPc i (.newList index sf))
  | .newList index sf =>
      some ((s.newList index i).setPc i
        (.appendFirst s.lists.next sf .room))
  | .appendFirst list sf pc =>
      match s.lists.get list with
      | none => none
      | some l =>
          match l.appendStep sf pc with
          | none => none
          | some (l, some pc) =>
              some ((s.setList list l).setPc i
                (.appendFirst list sf pc))
          | some (l, none) =>
              -- the other fields of the new list are set
              some
                ({ s.setList list { l with index := 1 } with
                    piper := s.piper.insertStageFrameList i sf
                  }.setPc i .running)
  | .stage userStage waits =>
      match s.lookup i with
      | none => none
      | some (list, cur) =>
          match cur.get (cur.length - 1) anything with
          | none => none
          | some parent =>
              let e : StageEntry :=
                { userStage := userStage
                  list := list
                  right := parent.rightFirst.downCont
                  down := parent.downFirst.downCont }
              if waits = true ∧ 1 < i then
                some (s.setPc i (.leftDependency e))
              else some (s.setPc i (.create e))
  | .leftDependency e =>
      match s.ring.getStageFrameList i,
        s.ring.getStageFrameList (i - 1) with
      | some cur, some pre =>
          some (s.setPc i (.leftLength e cur pre))
      | _, _ => none
  | .leftLength e cur pre =>
      match s.lists.get cur, s.lists.get pre with
      | some own, some left =>
          some (s.setPc i
            (.leftLoop
              { entry := e
                cur := cur
                pre := pre
                length := left.length
                index := own.index
                iPre := 0 }))
      | _, _ => none
  | .leftLoop x =>
      if x.index < x.length then
        some (s.setPc i (.leftTest x .equal .length))
      else some (s.setPc i (.leftEnd x 0))
  | .leftTest x test get =>
      s.getFrame i x.pre x.index get anything (.leftTest x test)
        fun sf => x.tested sf.stageNum test
  | .leftEnd x ret =>
      match s.lists.get x.cur with
      | none => none
      | some own =>
          let leftIndex := max ret x.iPre
          some
            ({ s.setList x.cur { own with index := x.index } with
                piper := s.piper.setIndex i x.index }.setPc i
              (if leftIndex ≠ 0 then
                .leftSibling x.entry leftIndex
              else .create x.entry))
  | .leftSibling e leftIndex =>
      match s.ring.getStageFrameList (i - 1) with
      | none => none
      | some pre =>
          some (s.setPc i (.sibling e leftIndex pre .length))
  | .sibling e leftIndex pre get =>
      s.getFrame i pre leftIndex get anything
        (.sibling e leftIndex pre)
        fun sibling =>
          .create { e with right := sibling.rightFirst.rightCont }
  | .create e =>
      let (sf, piper) :=
        s.piper.createOrder i e.userStage e.right e.down
      some ({ s with piper := piper }.setPc i
        (.append e.list sf .room))
  | .append list sf pc =>
      match s.lists.get list with
      | none => none
      | some l =>
          match l.appendStep sf pc with
          | none => none
          | some (l, some pc) =>
              some ((s.setList list l).setPc i
                (.append list sf pc))
          | some (l, none) =>
              some
                ({ s.setList list l with
                    piper := s.piper.append i sf }.setPc i
                  .running)
  | .notStarted | .running | .finished => none

end RingState

------------------------------------------------------------
-- Executions
------------------------------------------------------------

/- How far an iteration has got. -/
inductive IterationPhase where
| notStarted
| starting
| storing
| listed
| entered
| finished
deriving DecidableEq, Repr

/- Stage 0 is over. -/
def IterationPhase.isEntered : IterationPhase → Bool
| .entered | .finished => true
| _ => false

namespace IterationPc

/-
  An iteration is starting while it has no list, storing
  while the slot of its list is being filled, and it has
  entered when its stage 0 is over.
-/
def phase : IterationPc → IterationPhase
| .notStarted => .notStarted
| .stageFirst | .firstSibling _ _ | .createFirst _ _
| .insertList _ => .starting
| .newList _ _ => .storing
| .appendFirst _ _ _ => .listed
| .finished => .finished
| _ => .entered

/- The iteration is inside a hook. -/
def inHook : IterationPc → Bool
| .notStarted | .running | .finished => false
| _ => true

/- Where the iteration is in `append`, if it is inside. -/
def appending : IterationPc → Option SharedList.AppendPc
| .appendFirst _ _ pc | .append _ _ pc => some pc
| _ => none

/- The iterations whose lists a step looks up. -/
def lookups (i : Nat) : IterationPc → List Nat
| .stageFirst => if 1 < i then [i - 1] else []
| .stage _ _ => [i]
| .leftDependency _ => [i, i - 1]
| .leftSibling _ _ => [i - 1]
| _ => []

/- The addresses of its own list that a hook holds. -/
def own : IterationPc → List Nat
| .appendFirst list _ _ | .append list _ _ => [list]
| .leftDependency e | .leftSibling e _ | .sibling e _ _ _
| .create e => [e.list]
| .leftLength e cur _ => [e.list, cur]
| .leftLoop x | .leftTest x _ _ | .leftEnd x _ =>
    [x.entry.list, x.cur]
| _ => []

/- The address of the left list that a hook holds. -/
def pre? : IterationPc → Option Nat
| .firstSibling pre _ | .leftLength _ _ pre
| .sibling _ _ pre _ => some pre
| .leftLoop x | .leftTest x _ _ | .leftEnd x _ => some x.pre
| _ => none

/- A frame that is read: its list, position and array. -/
def reads : IterationPc → Option (Nat × Nat × Nat)
| .firstSibling pre (.entry array) => some (pre, 0, array)
| .leftTest x _ (.entry array) =>
    some (x.pre, x.index, array)
| .sibling _ leftIndex pre (.entry array) =>
    some (pre, leftIndex, array)
| _ => none

end IterationPc

namespace RingState

/- How far an iteration has got. -/
def phase (s : RingState) (i : Nat) : IterationPhase := (s.pc i).phase

/-
  What the runtime makes sure of before it starts an
  iteration: stage 0 of the one before is over, and the two
  iterations at the end of the throttling window are.
-/
def MayStart (s : RingState) (i : Nat) : Prop :=
  1 ≤ i ∧ s.pc i = .notStarted ∧
    (1 < i → (s.phase (i - 1)).isEntered = true) ∧
    (s.ring.throttleLimit < i →
      s.pc (i - s.ring.throttleLimit) = .finished) ∧
    (s.ring.throttleLimit < i + 1 →
      s.pc (i + 1 - s.ring.throttleLimit) = .finished)

instance (s : RingState) (i : Nat) :
    Decidable (s.MayStart i) :=
  inferInstanceAs (Decidable (_ ∧ _ ∧ _ ∧ _ ∧ _))

end RingState

inductive RingAction where
| start (i : Nat)
| enter (i userStage : Nat) (waits : Bool)
| hook (i : Nat) (anything : StageFrame)
| finish (i : Nat)
deriving DecidableEq, Repr

/-
  The iterations start, enter stages and finish, each on its
  own, and a hook takes its next step at any time.
-/
def ringStep
    (s : RingState) (a : RingAction) (t : RingState) :
    Prop :=
  match a with
  | .start i => s.MayStart i ∧ t = s.setPc i .stageFirst
  | .enter i userStage waits =>
      s.pc i = .running ∧
        t = s.setPc i (.stage userStage waits)
  | .hook i anything => s.hookStep i anything = some t
  | .finish i => s.pc i = .running ∧ t = s.setPc i .finished

def ringSystem (K : Nat) :
    TransitionSystem RingState RingAction where
  init s := s = .init K
  step := ringStep

end PRacer
