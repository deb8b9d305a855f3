import PRacer.WorkStealing.Paths

/-
  Fork-join code run by tasks that take their steps in any
  order: what the scheduler is for.

  There are no workers and no nodes here.  A task knows the
  path of its next strand, and the path behind its next sync
  if there was a spawn since the last one.  The log lists the
  numbers of the strands that were executed.

  Main declarations:
    * `Task`, `Tasks`
    * `Tasks.Step`, `taskSystem`
-/

------------------------------------------------------------
-- Tasks
------------------------------------------------------------

namespace PRacer

open Foundations

namespace WorkStealing

inductive Status where
| ready
-- The strand before the spawn was executed.
| spawning
| calling (callee : Nat)
-- At a sync, until all children are gone.
| waiting
deriving DecidableEq, Repr

structure Task where
  rest : Rest
  leaf : Nat
  path : Path
  pending : Option Path
  parent : Option Nat
  status : Status

namespace Task

/- A task at a sync is on the path behind it. -/
def ahead (x : Task) : Option Path :=
  if x.status = .waiting then none else x.pending

/- The paths of the strands that are left. -/
def todo (x : Task) : List Path :=
  if x.status = .spawning then
    (x.rest.strands x.path x.ahead).tail
  else x.rest.strands x.path x.ahead

/- The path behind the next sync, after a spawn. -/
def syncPath (x : Task) : Path :=
  x.pending.getD (x.path ++ [.sync])

/- The first task of a program. -/
def first (main : Code) : Task where
  rest := .code main
  leaf := 0
  path := []
  pending := none
  parent := none
  status := .ready

/- A new task, for a callee or for a spawned child. -/
def fresh
    (rest : Rest) (leaf : Nat) (path : Path)
    (parent : Nat) : Task where
  rest := rest
  leaf := leaf
  path := path
  pending := none
  parent := some parent
  status := .ready

/- After a call. -/
def caller
    (x : Task) (c : Nat) (body : Code) (next : Rest) : Task :=
  { x with
    rest := next
    leaf := x.leaf + 1 + body.spTree.size
    path := (body.walk x.path none).last
    status := .calling c }

/- After the strand before a spawn. -/
def spawner (x : Task) : Task :=
  { x with
    leaf := x.leaf + 1
    status := .spawning }

/- After a spawn. -/
def continuation (x : Task) (body rest : Code) : Task :=
  { x with
    rest := .code rest
    leaf := x.leaf + (1 + body.spTree.size + 1)
    path := x.path ++ [.cont]
    pending := some x.syncPath
    status := .ready }

/- Behind a sync. -/
def synced (x : Task) (next : Rest) : Task :=
  { x with
    rest := next
    leaf := x.leaf + 1
    path := x.pending.getD x.path
    pending := none }

/- At a sync. -/
def waiter (x : Task) (next : Rest) : Task :=
  { x with
    rest := next
    leaf := x.leaf + 1
    path := x.pending.getD x.path
    status := .waiting }

/- After the wait. -/
def woken (x : Task) : Task :=
  { x with
    pending := none
    status := .ready }

/- A helper that has returned. -/
def left (x : Task) : Task :=
  { x with
    rest := .gone
    leaf := x.leaf + 1 }

end Task

structure Tasks where
  heap : Heap Task
  log : List Nat

namespace Tasks

def get (t : Tasks) (a : Nat) : Option Task := t.heap.get a

def Childless (t : Tasks) (a : Nat) : Prop :=
  ∀ c y, t.get c = some y → y.parent ≠ some a

/- A strand is executed, and its task goes on. -/
def change
    (t : Tasks) (a : Nat) (x : Task) (log : List Nat) :
    Tasks where
  heap := t.heap.modify a fun _ => x
  log := t.log ++ log

/- The same, with a new task. -/
def branch
    (t : Tasks) (a : Nat) (x z : Task) (log : List Nat) :
    Tasks where
  heap := (t.heap.modify a fun _ => x).alloc z
  log := t.log ++ log

/- A function returns, and its caller goes on. -/
def ret (t : Tasks) (a : Nat) (x : Task) : Tasks where
  heap :=
    match x.parent with
    | none => t.heap.free a
    | some b =>
        (t.heap.free a).modify b fun y =>
          { y with status := .ready }
  log := t.log ++ [x.leaf]

def join (t : Tasks) (a : Nat) : Tasks :=
  { t with heap := t.heap.free a }

------------------------------------------------------------
-- Steps of Tasks
------------------------------------------------------------

inductive Step (t : Tasks) : Tasks → Prop
| call {a : Nat} {x : Task}
    {body : Code} {next : Rest}
    (hGet : t.get a = some x)
    (hReady : x.status = .ready)
    (hCalls : x.rest.Calls body next) :
    Step t (t.branch a (x.caller t.heap.next body next)
      (Task.fresh (.code body) (x.leaf + 1) x.path a) [x.leaf])
| startSpawn {a : Nat} {x : Task}
    {body rest : Code}
    (hGet : t.get a = some x)
    (hReady : x.status = .ready)
    (hRest : x.rest = .code (.spawn body rest)) :
    Step t (t.change a x.spawner [x.leaf])
| spawn {a : Nat} {x : Task}
    {body rest : Code}
    (hGet : t.get a = some x)
    (hSpawning : x.status = .spawning)
    (hRest : x.rest = .code (.spawn body rest)) :
    Step t (t.branch a (x.continuation body rest)
      (Task.fresh (.enter body) x.leaf (x.path ++ [.child]) a)
      [])
| sync {a : Nat} {x : Task} {next : Rest}
    (hGet : t.get a = some x)
    (hReady : x.status = .ready)
    (hSyncs : x.rest.Syncs next)
    (hChildless : t.Childless a) :
    Step t (t.change a (x.synced next) [x.leaf])
| wait {a : Nat} {x : Task} {next : Rest}
    (hGet : t.get a = some x)
    (hReady : x.status = .ready)
    (hSyncs : x.rest.Syncs next)
    (hPending : x.pending ≠ none) :
    Step t (t.change a (x.waiter next) [x.leaf])
| wake {a : Nat} {x : Task}
    (hGet : t.get a = some x)
    (hWaiting : x.status = .waiting)
    (hChildless : t.Childless a) :
    Step t (t.change a x.woken [])
| ret {a : Nat} {x : Task}
    (hGet : t.get a = some x)
    (hReady : x.status = .ready)
    (hRest : x.rest = .ret) :
    Step t (t.ret a x)
| leave {a : Nat} {x : Task}
    (hGet : t.get a = some x)
    (hReady : x.status = .ready)
    (hRest : x.rest = .leave) :
    Step t (t.change a x.left [x.leaf])
| join {a : Nat} {x : Task}
    (hGet : t.get a = some x)
    (hReady : x.status = .ready)
    (hGone : x.rest = .gone) :
    Step t (t.join a)

def initial (main : Code) : Tasks where
  heap := Heap.empty.alloc (Task.first main)
  log := []

end Tasks

/- The steps of all tasks, in any order. -/
def taskSystem (main : Code) : TransitionSystem Tasks Unit where
  init t := t = Tasks.initial main
  step t _ t' := t.Step t'

end WorkStealing

end PRacer
