import Mathlib.Algebra.Group.Nat.Defs
import Mathlib.Logic.Function.Basic
import PRacer.Foundations.TransitionSystem

/-
  The arrays that hold the shadow stacks of the workers
  (`stack.h`), and the stacks without a capacity that they
  stand for.

  An access outside of the array does not stop the code; a
  stack records whether there was one.  New memory holds
  anything: each operation that may allocate gets what it
  happens to hold.

  Main declarations:
    * `Stack`, `Stack.push`, `Stack.pop`
    * `Stack.atomicPop`, `Stack.stealTop`
    * `RefStack`
    * `stackSystem`
-/

------------------------------------------------------------
-- Stacks of Frames
------------------------------------------------------------

namespace PRacer

open Foundations

namespace FrameStack

def FRAME_HELPER_MASK : BitVec 32 := 0x1
def FRAME_FULL_MASK : BitVec 32 := 0x2

def DEFAULT_CAPACITY : BitVec 32 := 128

/- A frame: its flags and its other fields. -/
structure Frame (D : Type) where
  data : D
  flags : BitVec 32
deriving DecidableEq, Repr

namespace Frame

variable {D : Type}

def IsHelper (f : Frame D) : Prop :=
  f.flags &&& FRAME_HELPER_MASK ≠ 0

instance (f : Frame D) : Decidable f.IsHelper :=
  inferInstanceAs (Decidable (¬ _))

def markFull (f : Frame D) : Frame D :=
  { f with flags := f.flags ||| FRAME_FULL_MASK }

end Frame

/- What memory holds that was not initialized. -/
abbrev Junk (D : Type) := Nat → Frame D

/-
  The fields of `Stack_t`, and whether all accesses to the
  array were below its capacity.
-/
structure Stack (D : Type) where
  stack : Nat → Frame D
  capacity : BitVec 32
  head : BitVec 32
  tail : BitVec 32
  inBounds : Bool

/- How the code stops before its end. -/
inductive Fault where
| assertion
| deadlock
| outOfFuel
deriving DecidableEq, Repr

/- A result, unless the code stops. -/
abbrev Run := Except Fault

@[simp] theorem ok_bind
    {α β : Type} (a : α) (f : α → Run β) :
    ((Except.ok a : Run α) >>= f) = f a := rfl

@[simp] theorem error_bind
    {α β : Type} (e : Fault) (f : α → Run β) :
    ((Except.error e : Run α) >>= f) = Except.error e := rfl

/- A result of two steps is a result of each. -/
theorem bind_eq_ok
    {α β : Type} {r : Run α} {f : α → Run β} {b : β}
    (h : (r >>= f) = Except.ok b) :
    ∃ a, r = Except.ok a ∧ f a = Except.ok b := by
  cases r with
  | ok a => exact ⟨a, rfl, h⟩
  | error e => cases h

/- The macro `assert`. -/
def check (cond : Prop) [Decidable cond] : Run Unit :=
  if cond then Except.ok () else Except.error Fault.assertion

theorem check_of
    {cond : Prop} [Decidable cond]
    (hCond : cond) :
    check cond = Except.ok () :=
  if_pos hCond

theorem of_check
    {cond : Prop} [Decidable cond] {u : Unit}
    (h : check cond = Except.ok u) :
    cond := by
  unfold check at h
  split at h
  · assumption
  · cases h

namespace Stack

variable {D : Type}

def new (junk : Junk D) : Stack D where
  stack := junk
  capacity := DEFAULT_CAPACITY
  head := -1
  tail := 0
  inBounds := true

/- Access an element of the array. -/
def touch (s : Stack D) (i : Nat) : Stack D :=
  { s with inBounds := s.inBounds && i < s.capacity.toNat }

def load (s : Stack D) (i : BitVec 32) : Stack D × Frame D :=
  (s.touch i.toNat, s.stack i.toNat)

def store (s : Stack D) (i : BitVec 32) (f : Frame D) :
    Stack D :=
  { s.touch i.toNat with
    stack := Function.update s.stack i.toNat f }

/- `memset` of some elements, each to a frame of ones. -/
def wipe (ones : Frame D) (s : Stack D)
    (first size : BitVec 32) : Stack D :=
  { s with
    stack := fun k =>
      if first.toNat ≤ k ∧ k < first.toNat + size.toNat then
        ones
      else s.stack k
    inBounds := s.inBounds && (size = 0 ||
      first.toNat + size.toNat ≤ s.capacity.toNat) }

/- Copy the first elements of another array. -/
def copyFrom (old : Stack D) : Nat → Stack D → Stack D
| 0, s => s
| n + 1, s =>
    let s := copyFrom old n s
    { s with
      stack := Function.update s.stack n (old.stack n)
      inBounds := s.inBounds && n < old.capacity.toNat &&
        n < s.capacity.toNat }

def resize (s : Stack D) (newCapacity : BitVec 32)
    (junk : Junk D) : Stack D :=
  let copyEnd :=
    if newCapacity < s.capacity then newCapacity
    else s.capacity
  copyFrom s copyEnd.toNat
    { s with stack := junk, capacity := newCapacity }

def doubleCap (s : Stack D) (junk : Junk D) : Stack D :=
  s.resize (s.capacity * 2) junk

def halveCap (s : Stack D) (junk : Junk D) : Stack D :=
  s.resize (s.capacity / 2) junk

/- The number of frames. -/
def size (s : Stack D) : BitVec 32 := s.head + 1

/- `Stack_t::push`. -/
def push (s : Stack D) (junk : Junk D) : Stack D :=
  let s := { s with head := s.head + 1 }
  if s.head = s.capacity then s.doubleCap junk else s

/- `Stack_t::pop`. -/
def pop (s : Stack D) (junk : Junk D) : Stack D :=
  let s := { s with head := s.head - 1 }
  if DEFAULT_CAPACITY < s.capacity ∧ s.head < s.capacity / 2
  then s.halveCap junk
  else s

/- `Stack_t::ancestor`, the index of the frame. -/
def ancestor (s : Stack D) (i : BitVec 32) :
    Run (BitVec 32) := do
  check (i ≤ s.head)
  check (s.head < s.capacity)
  return s.head - i

/- Write to the frame that `head` points to. -/
def setHead (s : Stack D) (f : Frame D) : Run (Stack D) := do
  let i ← s.ancestor 0
  return s.store i f

/- Read the frame that `head` points to. -/
def getHead (s : Stack D) : Run (Stack D × Frame D) := do
  let i ← s.ancestor 0
  return s.load i

------------------------------------------------------------
-- Atomic Stacks
------------------------------------------------------------

/- `AtomicStack_t::push_helper`. -/
def pushHelper (s : Stack D) (junk : Junk D) :
    Run (Stack D) := do
  check (s.head ≠ -1)
  let (s, f) ← s.getHead
  check (¬ f.IsHelper)
  let s := s.push junk
  let (s, f) ← s.getHead
  s.setHead { f with flags := FRAME_HELPER_MASK }

/- `AtomicStack_t::add`. -/
def add (s : Stack D) (junk : Junk D) (item : Frame D) :
    Run (Stack D) :=
  (s.push junk).setHead item

/- `AtomicStack_t::reset`. -/
def reset (ones : Frame D) (s : Stack D) : Stack D :=
  let s := wipe ones s 0 s.size
  { s with head := -1, tail := 0 }

/- `AtomicStack_t::pop`. -/
def atomicPop (ones : Frame D) (s : Stack D) (junk : Junk D) :
    Run (Stack D) := do
  check (s.tail ≤ s.head)
  let s := s.pop junk
  if s.head < s.tail then
    let s := { s with tail := s.tail - 1 }
    check (s.tail = s.head)
    return wipe ones s (s.head + 1) 1
  else return s

/- Give the thief the frames below the tail of the victim. -/
def copyAncestors (junk : Nat → Junk D) :
    Nat → Stack D → Stack D → Run (Stack D × Stack D)
| 0, victim, thief => return (victim, thief)
| n + 1, victim, thief => do
    let (victim, thief) ← copyAncestors junk n victim thief
    let thief := thief.push (junk n)
    let (victim, f) := victim.load (BitVec.ofNat 32 n)
    let thief ← thief.setHead f
    let (thief, f) ← thief.getHead
    let thief ← thief.setHead f.markFull
    return (victim, thief)

/- Give the thief one frame and move the tail past it. -/
def copyTail (junk : Junk D) (victim thief : Stack D) :
    Run (Stack D × Stack D) := do
  let thief := thief.push junk
  let (victim, f) := victim.load victim.tail
  let thief ← thief.setHead f
  return ({ victim with tail := victim.tail + 1 }, thief)

/- Move the tail of the victim to the next helper frame. -/
def copyToHelper (junk : Nat → Junk D) :
    Nat → Stack D → Stack D → Run (Stack D × Stack D)
| fuel, victim, thief => do
    let (victim, f) := victim.load victim.tail
    if f.IsHelper then
      check (victim.tail ≤ victim.head)
      return (victim, thief)
    else
      check (victim.tail < victim.head)
      match fuel with
      | 0 => Except.error Fault.outOfFuel
      | fuel + 1 => do
          let (victim, thief) ← copyTail
            (junk victim.tail.toNat) victim thief
          copyToHelper junk fuel victim thief

/- `AtomicStack_t::steal_top`. -/
def stealTop (victim thief : Stack D) (junk : Nat → Junk D) :
    Run (Stack D × Stack D) := do
  check (victim.tail ≠ -1)
  check (victim.tail ≤ victim.head)
  check (thief.size = 0)
  let thief := { thief with tail := victim.tail }
  let (victim, thief) ←
    copyAncestors junk victim.tail.toNat victim thief
  let (victim, thief) ←
    copyTail (junk victim.tail.toNat) victim thief
  let (victim, thief) ←
    copyToHelper junk (2 ^ 32) victim thief
  let (thief, _) ← thief.getHead
  return (victim, thief)

end Stack

------------------------------------------------------------
-- Unbounded Stacks
------------------------------------------------------------

/- The frames from the bottom on, and the tail. -/
structure RefStack (D : Type) where
  frames : List (Frame D)
  tail : Nat

namespace RefStack

variable {D : Type}

def empty : RefStack D where
  frames := []
  tail := 0

def push (r : RefStack D) (f : Frame D) : RefStack D :=
  { r with frames := r.frames ++ [f] }

def setHead (r : RefStack D) (f : Frame D) : RefStack D :=
  { r with frames := r.frames.dropLast ++ [f] }

/- The tail never stands above the head. -/
def pop (r : RefStack D) : RefStack D where
  frames := r.frames.dropLast
  tail := min r.tail (r.frames.length - 2)

/- The first helper frame above the tail. -/
def nextHelper (r : RefStack D) : Nat :=
  r.tail + 1 +
    (r.frames.drop (r.tail + 1)).findIdx fun f => f.IsHelper

/- The frames that a thief gets. -/
def loot (r : RefStack D) : RefStack D where
  frames := (r.frames.take r.tail).map Frame.markFull ++
    (r.frames.take r.nextHelper).drop r.tail
  tail := r.tail

/- The stack after a theft. -/
def stolen (r : RefStack D) : RefStack D :=
  { r with tail := r.nextHelper }

end RefStack

------------------------------------------------------------
-- The Stacks of All Workers
------------------------------------------------------------

variable {ι D : Type} [DecidableEq ι]

/- The stacks, and what they should hold. -/
structure StackState (ι D : Type) where
  stackOf : ι → Stack D
  refs : ι → RefStack D

/- The operations of a worker, and writes through `head`. -/
inductive StackAction (ι D : Type) where
| push (i : ι) (junk : Junk D)
| pushHelper (i : ι) (junk : Junk D)
| add (i : ι) (junk : Junk D) (item : Frame D)
| setHead (i : ι) (f : Frame D)
| pop (i : ι) (junk : Junk D)
| reset (i : ι)
| steal (victim thief : ι) (junk : Nat → Junk D)

/- The frame at the head, whatever it holds. -/
def Stack.headFrame (s : Stack D) : Frame D :=
  s.stack s.head.toNat

/- The stack of one worker is changed. -/
def StackState.set (s : StackState ι D) (i : ι)
    (stack : Stack D) (ref : RefStack D) : StackState ι D where
  stackOf := Function.update s.stackOf i stack
  refs := Function.update s.refs i ref

/-
  One operation.  The frame that is pushed holds what its
  element of the array holds.  A thief that is the victim
  would wait for its own lock.
-/
def stackApply (ones : Frame D) (s : StackState ι D) :
    StackAction ι D → Run (StackState ι D)
| .push i junk => do
    let new := (s.stackOf i).push junk
    return s.set i new ((s.refs i).push new.headFrame)
| .pushHelper i junk => do
    let new ← (s.stackOf i).pushHelper junk
    return s.set i new ((s.refs i).push
      { new.headFrame with flags := FRAME_HELPER_MASK })
| .add i junk item => do
    let new ← (s.stackOf i).add junk item
    return s.set i new ((s.refs i).push item)
| .setHead i f => do
    let new ← (s.stackOf i).setHead f
    return s.set i new ((s.refs i).setHead f)
| .pop i junk => do
    let new ← (s.stackOf i).atomicPop ones junk
    return s.set i new (s.refs i).pop
| .reset i =>
    return s.set i ((s.stackOf i).reset ones) .empty
| .steal i j junk =>
    if i = j then Except.error Fault.deadlock
    else do
      let (victim, thief) ←
        (s.stackOf i).stealTop (s.stackOf j) junk
      return (s.set i victim (s.refs i).stolen).set
        j thief (s.refs i).loot

/- All stacks are empty at first. -/
def stackSystem (ι : Type) [DecidableEq ι] {D : Type}
    (ones : Frame D) :
    TransitionSystem (StackState ι D) (StackAction ι D) where
  init s := ∀ i, s.refs i = .empty ∧
    ∃ junk, s.stackOf i = Stack.new junk
  step s a t := stackApply ones s a = Except.ok t

end FrameStack

end PRacer
