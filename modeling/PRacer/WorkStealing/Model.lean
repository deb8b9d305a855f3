import PRacer.Foundations.Heap
import PRacer.Foundations.TransitionSystem
import PRacer.ShadowStack.SpTree

/-
  Fork-join code run by several workers that steal from each
  other: the frames and join counters of the scheduler
  (`scheduler.c`), and the shadow stacks of the workers
  (`shadow_stack.cpp`, `stack.h`).

  Every access to the data of another worker is a step of its
  own, and so is every insertion into an order.

  A step returns `none` where an assertion of the source
  fails or a node is missing.

  Main declarations:
    * `Activation`, `WorkerState`, `State`
    * `stealTop`, `initStrand`, `doLeaveStolen`
    * `State.work`, `State.steal`, `State.sync`,
      `State.returnFromSpawn`
    * `workSystem`
-/

------------------------------------------------------------
-- Activations
------------------------------------------------------------

namespace PRacer

open Foundations

namespace WorkStealing

/-
  What an activation still does.  A spawn helper calls the
  spawned function and returns.
-/
inductive Rest where
| code (c : Code)
-- After the sync at the return of a function.
| ret
| enter (body : Code)
| leave
| gone
deriving DecidableEq, Repr

/-
  Who goes on with an activation.  The source has this in the
  program counters and the call stacks.
-/
inductive Control (Worker : Type) where
| running (w : Worker)
| detaching (w : Worker)
| calling (callee : Nat)
-- The continuation is in the deque of the worker.
| spawned (helper : Nat) (w : Worker)
| syncing (w : Worker)
| suspended
| returning (w : Worker)
deriving DecidableEq, Repr

/-
  A frame of the program.  It counts itself in its join
  counter, whether or not it has a full frame; `children`
  lists the spawned ones that have full frames.

  `leaf` is not in the source: the number of its next strand
  in serial order.
-/
structure Activation (Worker : Type) where
  rest : Rest
  leaf : Nat
  parent : Option Nat
  joinCounter : Nat
  unsynched : Bool
  children : List Nat
  control : Control Worker

/- The insertions of `do_detach_begin`, in their order. -/
inductive DetachPc where
| syncEnglish
| syncHebrew
| childEnglish
| contEnglish
| contHebrew
| childHebrew
deriving DecidableEq, Repr

/- Where a worker is, and with which activation. -/
inductive WorkerPc where
| idle
| running (a : Nat)
| detaching (a : Nat) (pc : DetachPc)
-- In `do_sync`.
| syncing (a : Nat)
-- In `do_return_from_spawn`.
| returning (helper : Nat)
deriving DecidableEq, Repr

/-
  The frames of the shadow stack, from the head down, its
  tail, and the deque, the oldest frame first.
-/
structure WorkerState where
  frames : List FrameData
  tail : Nat
  deque : List Nat
  pc : WorkerPc
deriving DecidableEq, Repr

/- A strand that was executed: its number and its nodes. -/
structure Strand where
  leaf : Nat
  english : Nat
  hebrew : Nat
deriving DecidableEq, Repr

structure State (Worker : Type) where
  english : OrderList
  hebrew : OrderList
  workers : Worker → WorkerState
  acts : Heap (Activation Worker)
  strands : List Strand

------------------------------------------------------------
-- The Shadow Stacks
------------------------------------------------------------

/-
  The tail in `AtomicStack_t::pop`, when the head frame is
  gone.  It must not stand above the old head, and does not
  stand above the new one.
-/
def WorkerState.popTail
    (x : WorkerState) : Option WorkerState :=
  if x.frames.length < x.tail then none
  else if x.frames.length - 1 < x.tail then
    some { x with tail := x.tail - 1 }
  else some x

/-
  `steal_top`: the frames below the first helper frame above
  the tail, and the place of that frame.
-/
def stealTop (frames : List FrameData) (tail : Nat) :
    Option (List FrameData × Nat) :=
  let bottom := frames.reverse
  let n := tail + 1 +
    (bottom.drop (tail + 1)).findIdx FrameData.helper
  if n < bottom.length then
    some ((bottom.take n).reverse, n)
  else none

/- `init_strand` on the frames that a thief got. -/
def initStrand : List FrameData → Option (List FrameData)
| [] => none
| f :: rest =>
    if f.helper ∨ f.currentEnglish ≠ none ∨
        f.currentHebrew ≠ none then none
    else
      some
        ({ f with
            currentEnglish := f.contEnglish
            currentHebrew := f.contHebrew
            contEnglish := none
            contHebrew := none } :: rest)

/-
  `do_leave_stolen`.  Its caller always passes a frame, so
  the branch for a full frame that returns fails at its
  assertion that there is none.
-/
def doLeaveStolen (s : ShadowStack) : Option ShadowStack :=
  match s.frames with
  | [] => none
  | [_] => some s
  | child :: parent :: rest =>
      if child.helper then
        if parent.helper ∨ parent.currentEnglish ≠ none ∨
            parent.currentHebrew ≠ none ∨
            parent.contEnglish = none ∨
            parent.contHebrew = none ∨
            parent.syncEnglish = none ∨
            parent.syncHebrew = none then none
        else
          some
            { s with
              frames :=
                { parent with
                  currentEnglish := parent.syncEnglish
                  currentHebrew := parent.syncHebrew
                  contEnglish := none
                  contHebrew := none
                  syncEnglish := none
                  syncHebrew := none } :: rest }
      else none

/- A helper frame before its fields are set. -/
def blankHelper : FrameData where
  currentEnglish := none
  currentHebrew := none
  contEnglish := none
  contHebrew := none
  syncEnglish := none
  syncHebrew := none
  helper := true

------------------------------------------------------------
-- Parts of Steps
------------------------------------------------------------

namespace State

variable {Worker : Type} [DecidableEq Worker]

def setWorker
    (s : State Worker) (w : Worker) (x : WorkerState) :
    State Worker :=
  { s with workers := Function.update s.workers w x }

def setPc
    (s : State Worker) (w : Worker) (pc : WorkerPc) :
    State Worker :=
  s.setWorker w { s.workers w with pc := pc }

def modify
    (s : State Worker) (a : Nat)
    (f : Activation Worker → Activation Worker) :
    State Worker :=
  { s with acts := s.acts.modify a f }

def free (s : State Worker) (a : Nat) : State Worker :=
  { s with acts := s.acts.free a }

/- What one worker sees: the orders and its own frames. -/
def view (s : State Worker) (w : Worker) : ShadowStack where
  english := s.english
  hebrew := s.hebrew
  frames := (s.workers w).frames
  strands := []

/- Worker `w` calls a hook. -/
def hook
    (s : State Worker) (w : Worker)
    (f : ShadowStack → Option ShadowStack) :
    Option (State Worker) :=
  (f (s.view w)).map fun t =>
    { s with
      english := t.english
      hebrew := t.hebrew
      workers := Function.update s.workers w
        { s.workers w with frames := t.frames } }

/-
  Worker `w` calls a hook at the end of a function.  The hook
  pops the head frame, unless it is the only one.
-/
def popHook
    (s : State Worker) (w : Worker)
    (f : ShadowStack → Option ShadowStack) :
    Option (State Worker) :=
  (s.hook w f).bind fun t =>
  if (s.workers w).frames.length ≤ 1 then some t
  else (t.workers w).popTail.map (t.setWorker w)

/- Worker `w` executes the next strand of an activation. -/
def strand
    (s : State Worker) (w : Worker)
    (act : Activation Worker) : Option (State Worker) :=
  match (s.workers w).frames with
  | [] => none
  | f :: _ =>
      match f.currentEnglish, f.currentHebrew with
      | some e, some h =>
          some
            { s with
              strands := s.strands ++ [⟨act.leaf, e, h⟩] }
      | _, _ => none

/- A new activation, which counts itself. -/
def activation
    (rest : Rest) (leaf parent : Nat)
    (control : Control Worker) : Activation Worker where
  rest := rest
  leaf := leaf
  parent := some parent
  joinCounter := 1
  unsynched := false
  children := []
  control := control

------------------------------------------------------------
-- Steps of a Worker
------------------------------------------------------------

/- A call: `body` runs, and then `next`. -/
def call
    (s : State Worker) (w : Worker) (a : Nat)
    (act : Activation Worker) (body : Code) (next : Rest) :
    Option (State Worker) :=
  (s.strand w act).bind fun s =>
  (s.hook w ShadowStack.doEnterBegin).map fun s =>
    let b := s.acts.next
    let s := s.modify a fun r =>
      { r with
        rest := next
        leaf := act.leaf + 1 + body.spTree.size
        control := .calling b }
    let s := { s with
      acts := s.acts.alloc
        (activation (.code body) (act.leaf + 1) a
          (.running w)) }
    s.setPc w (.running b)

/-
  `push_helper`, and which of the insertions comes first: a
  frame without sync nodes gets them.
-/
def startDetach
    (s : State Worker) (w : Worker) (a : Nat)
    (act : Activation Worker) : Option (State Worker) :=
  (s.strand w act).bind fun s =>
  let x := s.workers w
  match x.frames with
  | [] => none
  | parent :: rest =>
      let goOn (pc : DetachPc) : State Worker :=
        (s.modify a fun r =>
          { r with
            leaf := act.leaf + 1
            control := .detaching w }).setWorker w
          { x with
            frames := blankHelper :: parent :: rest
            pc := .detaching a pc }
      if parent.helper then none
      else
        match parent.syncEnglish, parent.syncHebrew with
        | none, none => some (goOn .syncEnglish)
        | none, some _ => none
        | some _, _ => some (goOn .childEnglish)

/-
  The last insertion is done: the helper runs, and the
  continuation of its parent is in the deque.
-/
def publish
    (s : State Worker) (w : Worker) (a : Nat)
    (act : Activation Worker) (body rest : Code) :
    State Worker :=
  let h := s.acts.next
  let s := s.modify a fun r =>
    { r with
      rest := .code rest
      leaf := act.leaf + (1 + body.spTree.size + 1)
      control := .spawned h w }
  let s := { s with
    acts := s.acts.alloc
      (activation (.enter body) act.leaf a (.running w)) }
  s.setWorker w
    { s.workers w with
      deque := (s.workers w).deque ++ [a]
      pc := .running h }

/- One insertion of `do_detach_begin`. -/
def detach
    (s : State Worker) (w : Worker) (a : Nat)
    (act : Activation Worker) (pc : DetachPc) :
    Option (State Worker) :=
  let x := s.workers w
  match x.frames with
  | child :: parent :: rest =>
      let goOn (child parent : FrameData) (pc : DetachPc) :=
        { x with
          frames := child :: parent :: rest
          pc := .detaching a pc }
      match pc with
      | .syncEnglish =>
          parent.currentEnglish.map fun e =>
            let (n, o) := s.english.insert e
            { s with english := o }.setWorker w
              (goOn child
                { parent with syncEnglish := some n }
                .syncHebrew)
      | .syncHebrew =>
          parent.currentHebrew.map fun h =>
            let (n, o) := s.hebrew.insert h
            { s with hebrew := o }.setWorker w
              (goOn child
                { parent with syncHebrew := some n }
                .childEnglish)
      | .childEnglish =>
          parent.currentEnglish.map fun e =>
            let (n, o) := s.english.insert e
            { s with english := o }.setWorker w
              (goOn { child with currentEnglish := some n }
                parent .contEnglish)
      | .contEnglish =>
          child.currentEnglish.map fun e =>
            let (n, o) := s.english.insert e
            { s with english := o }.setWorker w
              (goOn child
                { parent with contEnglish := some n }
                .contHebrew)
      | .contHebrew =>
          parent.currentHebrew.map fun h =>
            let (n, o) := s.hebrew.insert h
            { s with hebrew := o }.setWorker w
              (goOn child
                { parent with contHebrew := some n }
                .childHebrew)
      | .childHebrew =>
          parent.contHebrew.bind fun h =>
            match act.rest with
            | .code (.spawn body next) =>
                let (n, o) := s.hebrew.insert h
                let s := { s with hebrew := o }.setWorker w
                  { x with
                    frames :=
                      { child with
                        currentHebrew := some n
                        contEnglish := none
                        contHebrew := none
                        syncEnglish := none
                        syncHebrew := none } ::
                      { parent with
                        currentEnglish := none
                        currentHebrew := none } :: rest }
                some (s.publish w a act body next)
            | _ => none
  | _ => none

/-
  A sync.  A frame that was stolen since its last sync goes
  into the runtime.
-/
def startSync
    (s : State Worker) (w : Worker) (a : Nat)
    (act : Activation Worker) (next : Rest) :
    Option (State Worker) :=
  (s.strand w act).bind fun s =>
  (s.hook w ShadowStack.doSyncBegin).map fun s =>
    let s := s.modify a fun r =>
      { r with
        rest := next
        leaf := act.leaf + 1
        control :=
          if act.unsynched then .syncing w else .running w }
    s.setPc w
      (if act.unsynched then .syncing a else .running a)

/-
  A function returns to its caller.  In `__cilkrts_return`
  nothing but the frame itself may be left to wait for.
-/
def returnFromCall
    (s : State Worker) (w : Worker) (a : Nat)
    (act : Activation Worker) : Option (State Worker) :=
  (s.strand w act).bind fun s =>
  if act.joinCounter ≠ 1 then none
  else
    (s.popHook w ShadowStack.doLeaveEnd).map fun s =>
      let s := s.free a
      match act.parent with
      | none => s.setPc w .idle
      | some b =>
          (s.modify b fun r =>
            { r with control := .running w }).setPc w
            (.running b)

/-
  A helper returns.  If the deque is empty then the frame of
  its parent was stolen.
-/
def leave
    (s : State Worker) (w : Worker) (h : Nat)
    (act : Activation Worker) : Option (State Worker) :=
  (s.strand w act).bind fun s =>
  if (s.workers w).deque = [] then
    (s.popHook w doLeaveStolen).map fun s =>
      (s.modify h fun r =>
        { r with
          rest := .gone
          leaf := act.leaf + 1
          control := .returning w }).setPc w (.returning h)
  else
    act.parent.bind fun a =>
    (s.popHook w ShadowStack.doLeaveEnd).map fun s =>
      let s := s.free h
      let s := s.modify a fun r =>
        { r with control := .running w }
      s.setWorker w
        { s.workers w with
          deque := (s.workers w).deque.dropLast
          pc := .running a }

/- The next step of the code that a worker executes. -/
def work (s : State Worker) (w : Worker) :
    Option (State Worker) :=
  match (s.workers w).pc with
  | .running a =>
      (s.acts.get a).bind fun act =>
      match act.rest with
      | .code (.call body rest) =>
          s.call w a act body (.code rest)
      | .code (.spawn _ _) => s.startDetach w a act
      | .code (.sync rest) => s.startSync w a act (.code rest)
      | .code .done => s.startSync w a act .ret
      | .ret => s.returnFromCall w a act
      | .enter body => s.call w a act body .leave
      | .leave => s.leave w a act
      | .gone => none
  | .detaching a pc =>
      (s.acts.get a).bind fun act => s.detach w a act pc
  | _ => none

------------------------------------------------------------
-- The Runtime
------------------------------------------------------------

/-
  The rest of `provably_good_steal`, when the join counter of
  `a` is zero.  A frame with a sync master goes back to that
  worker, with the shadow stack.
-/
def resume
    (s : State Worker) (w : Worker) (master : Option Worker)
    (a : Nat) : State Worker :=
  let u := master.getD w
  let s := s.modify a fun r =>
    { r with
      joinCounter := 1
      unsynched := false
      control := .running u }
  let x := s.workers w
  let s := s.setPc w .idle
  s.setWorker u
    { x with deque := (s.workers u).deque, pc := .running a }

/- `do_sync` -/
def sync
    (s : State Worker) (w : Worker)
    (master : Option Worker) : Option (State Worker) :=
  match (s.workers w).pc with
  | .syncing a =>
      (s.acts.get a).bind fun act =>
      if act.joinCounter = 0 then none
      else if act.joinCounter = 1 then
        some (s.resume w master a)
      else
        some ((s.modify a fun r =>
          { r with
            joinCounter := act.joinCounter - 1
            control := .suspended }).setPc w .idle)
  | _ => none

/- `do_return_from_spawn` -/
def returnFromSpawn
    (s : State Worker) (w : Worker)
    (master : Option Worker) : Option (State Worker) :=
  match (s.workers w).pc with
  | .returning h =>
      (s.acts.get h).bind fun helper =>
      helper.parent.bind fun a =>
      (s.acts.get a).bind fun act =>
      if act.joinCounter = 0 then none
      else
        let s := (s.free h).modify a fun r =>
          { r with
            joinCounter := act.joinCounter - 1
            children := act.children.erase h }
        if act.joinCounter = 1 then
          some (s.resume w master a)
        else some (s.setPc w .idle)
  | _ => none

/-
  `detach_for_steal` and `do_steal_success`: `w` takes the
  oldest frame of the deque of `v`.
-/
def steal
    (s : State Worker) (w v : Worker) :
    Option (State Worker) :=
  let x := s.workers v
  match x.deque with
  | [] => none
  | a :: deque =>
      (s.acts.get a).bind fun act =>
      match act.control with
      | .spawned h _ =>
          (stealTop x.frames x.tail).bind fun (loot, tail) =>
          (initStrand loot).map fun frames =>
            let s := s.modify a fun r =>
              { r with
                joinCounter := act.joinCounter + 1
                unsynched := true
                children := h :: act.children
                control := .running w }
            (s.setWorker v
              { x with tail := tail, deque := deque }).setWorker
              w
              { frames := frames
                tail := x.tail
                deque := []
                pc := .running a }
      | _ => none

end State

------------------------------------------------------------
-- Runs
------------------------------------------------------------

inductive Action (Worker : Type) where
| work (w : Worker)
| sync (w : Worker) (master : Option Worker)
| returnFromSpawn (w : Worker) (master : Option Worker)
| steal (w v : Worker)
deriving DecidableEq, Repr

variable {Worker : Type} [DecidableEq Worker]

/- A sync master waits for work. -/
def MasterWaits
    (s : State Worker) (w : Worker)
    (master : Option Worker) : Prop :=
  ∀ u ∈ master, u = w ∨ (s.workers u).pc = .idle

/- When a step can be taken. -/
def enabled (s : State Worker) : Action Worker → Prop
| .work w =>
    (∃ a, (s.workers w).pc = .running a) ∨
      ∃ a pc, (s.workers w).pc = .detaching a pc
| .sync w master =>
    (∃ a, (s.workers w).pc = .syncing a) ∧
      MasterWaits s w master
| .returnFromSpawn w master =>
    (∃ h, (s.workers w).pc = .returning h) ∧
      MasterWaits s w master
| .steal w v =>
    (s.workers w).pc = .idle ∧ (s.workers v).deque ≠ []

/- What a step does. -/
def exec (s : State Worker) :
    Action Worker → Option (State Worker)
| .work w => s.work w
| .sync w master => s.sync w master
| .returnFromSpawn w master => s.returnFromSpawn w master
| .steal w v => s.steal w v

/- Worker `w₀` is in the first strand of the program. -/
def initial (w₀ : Worker) (main : Code) : State Worker where
  english := OrderList.singleton
  hebrew := OrderList.singleton
  workers := fun w =>
    if w = w₀ then
      { frames := ShadowStack.initStrand.frames
        tail := 0
        deque := []
        pc := .running 0 }
    else { frames := [], tail := 0, deque := [], pc := .idle }
  acts := Heap.empty.alloc
    { rest := .code main
      leaf := 0
      parent := none
      joinCounter := 1
      unsynched := false
      children := []
      control := .running w₀ }
  strands := []

def workSystem
    (w₀ : Worker) (main : Code) :
    TransitionSystem (State Worker) (Action Worker) where
  init s := s = initial w₀ main
  step s a s' := enabled s a ∧ exec s a = some s'

end WorkStealing

end PRacer
