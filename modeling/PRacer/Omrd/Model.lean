import PRacer.OrderMaint.Capacity

/-
  The order-maintenance structure as the race detector uses
  it (`omrd.cpp`): workers insert nodes, record the lists
  that get too full, and relabel them together.

  Every access of a worker to the structure or to the list
  of heavy nodes is a step of its own.  Calls into the
  structure itself are atomic.  A relabel runs in a batch,
  whose owner has the mutexes of all workers.

  Main declarations:
    * `isHeavy`, `tryInsert`, `addHeavy`, `casHeavy`
    * `InsertPc`, `OmrdState.advance`, `OmrdState.relabel`
    * `omrdSystem`, `omrdRun`
-/

------------------------------------------------------------
-- Heavy Lists
------------------------------------------------------------

namespace PRacer

open Foundations OrderMaint

namespace Omrd

/- `DEFAULT_HEAVY_THRESHOLD`: half of the bits of a label. -/
def defaultHeavyThreshold : Nat := 32

/- The gap after a node is too small. -/
def isHeavy
    (cfg : Config) (threshold : Nat) (m : Mem) (n : Nat) :
    Run Bool := do
  let x ← Mem.load m.nodes n
  let nextLab ←
    match x.next with
    | none => pure cfg.maxLabel
    | some next => do
        let y ← Mem.load m.nodes next
        pure y.label
  return nextLab - x.label < BitVec.twoPow 64 (64 - threshold)

/- The top-level node of a list is there. -/
def checkAbove (m : Mem) (n : Nat) : Run Unit := do
  let x ← Mem.load m.nodes n
  let l ← Mem.load m.lists x.list
  check (l.above ≠ none)

def tryInsert
    (cfg : Config) (batchInProgress : Bool) (m : Mem)
    (base : Nat) :
    Run (Mem × Option Nat) := do
  check (batchInProgress = false)
  let (m, n) ← omInsert cfg m base
  checkAbove m base
  match n with
  | none => return (m, none)
  | some n => do
      checkAbove m n
      return (m, some n)

/- `om_get_tl`, with its assertion. -/
def getTl (cfg : Config) (m : Mem) (n : Nat) : Run Nat := do
  let x ← Mem.load m.nodes n
  let l ← Mem.load m.lists x.list
  let above ← deref l.above
  let a ← Mem.load m.tls above
  check (a.level = cfg.maxLevel)
  return above

/- The field `heavy` of the list of a node. -/
def readHeavy (m : Mem) (n : Nat) : Run Bool := do
  let x ← Mem.load m.nodes n
  let l ← Mem.load m.lists x.list
  return l.heavy

/- `CAS(&base->list->heavy, 0, 1)`, and whether it did it. -/
def casHeavy (m : Mem) (base : Nat) : Run (Mem × Bool) := do
  let b ← Mem.load m.nodes base
  let l ← Mem.load m.lists b.list
  if l.heavy then pure (m, false)
  else
    let m := m.mapList b.list fun l =>
      { l with heavy := true }
    pure (m, true)

/- Both nodes are in one list. -/
def checkSameList (m : Mem) (x y : Nat) : Run Unit := do
  let x ← Mem.load m.nodes x
  let y ← Mem.load m.nodes y
  check (x.list = y.list)

------------------------------------------------------------
-- Workers
------------------------------------------------------------

/-
  Where a worker is in `omrd_t::insert`.  The new node is
  there from the insertion on; in `claim` and `record` it is
  `none` on the slow path.
-/
inductive InsertPc
| idle
-- The mutex of the worker is acquired.
| tryInsert (base : Nat)
-- At the head of the loop of `slow_path`.
| slow (base : Nat)
| claim (base : Nat) (n : Option Nat)
-- `add_heavy` is called.
| record (base : Nat) (n : Option Nat)
| unlock (base : Nat)
-- In `join_batch`, or trying to get the mutex back.
| waiting (base : Nat)
| retry (base : Nat)
-- After `slow_path`: `n` should not be heavy.
| checkLight (base n : Nat)
| test (base n : Nat)
| weigh (base n : Nat)
| leave (base n : Nat)
deriving DecidableEq, Repr

namespace InsertPc

/- The worker does not have its mutex. -/
def Parked : InsertPc → Prop
| .idle => True
| .waiting _ => True
| _ => False

instance : DecidablePred Parked := by
  intro pc
  cases pc <;> unfold Parked <;> infer_instance

/- The base of the insertion that the worker is in. -/
def base : InsertPc → Option Nat
| .idle => none
| .tryInsert b => some b
| .slow b => some b
| .claim b _ => some b
| .record b _ => some b
| .unlock b => some b
| .waiting b => some b
| .retry b => some b
| .checkLight b _ => some b
| .test b _ => some b
| .weigh b _ => some b
| .leave b _ => some b

end InsertPc

/-
  The structure, `m_heavy_nodes` and the workers, with their
  `insert_failed`.  `locked` says that the owner of a batch
  has the mutexes of all workers.

  `covered` is not in the source: whether a relabel has got
  the list of the base since the insertion began.
-/
structure OmrdState (Worker : Type) where
  om : OmState
  heavyNodes : List Nat
  pc : Worker → InsertPc
  insertFailed : Worker → Bool
  locked : Bool
  batchInProgress : Bool
  covered : Worker → Bool

namespace OmrdState

variable {Worker : Type} [DecidableEq Worker]

def setPc
    (s : OmrdState Worker) (w : Worker) (pc : InsertPc) :
    OmrdState Worker :=
  { s with pc := Function.update s.pc w pc }

def setFailed
    (s : OmrdState Worker) (w : Worker) (b : Bool) :
    OmrdState Worker :=
  { s with insertFailed := Function.update s.insertFailed w b }

/- The structure with another memory. -/
def withMem
    (s : OmrdState Worker) (m : Mem) : OmrdState Worker :=
  { s with om := { s.om with mem := m } }

/- Record the top-level node above `base`. -/
def addHeavy
    (cfg : Config) (s : OmrdState Worker) (base : Nat) :
    Run (OmrdState Worker) := do
  check (s.batchInProgress = false)
  let p ← getTl cfg s.om.mem base
  -- The assertion after the call is the one inside it.
  let _ ← getTl cfg s.om.mem base
  return { s with heavyNodes := s.heavyNodes ++ [p] }

/- The structure after an insertion, which may have failed. -/
def afterInsert
    (s : OmrdState Worker) (base : Nat) (m : Mem)
    (n : Option Nat) : OmrdState Worker :=
  { s with
    om := { s.om with
            mem := m
            order := orderAfter base s.om.order n } }

/- `try_insert`, and where the worker goes from there. -/
def insertAt
    (cfg : Config) (s : OmrdState Worker) (w : Worker)
    (base : Nat) (found : Nat → InsertPc) :
    Run (OmrdState Worker) := do
  let (m, n) ←
    tryInsert cfg s.batchInProgress s.om.mem base
  let pc :=
    match n with
    | none => .slow base
    | some n => found n
  return (s.afterInsert base m n).setPc w pc

/- The next step of a worker that has its mutex. -/
def advance
    (cfg : Config) (threshold : Nat)
    (s : OmrdState Worker) (w : Worker) :
    Run (OmrdState Worker) :=
  match s.pc w with
  | .idle => return s
  | .tryInsert base => s.insertAt cfg w base (.test base)
  | .slow base => do
      let heavy ← readHeavy s.om.mem base
      return (s.setFailed w true).setPc w
        (if heavy then .unlock base else .claim base none)
  | .claim base n => do
      let (m, claimed) ← casHeavy s.om.mem base
      let pc :=
        match n with
        | none => .unlock base
        | some n => .leave base n
      return (s.withMem m).setPc w
        (if claimed then .record base n else pc)
  | .record base n => do
      let s ← s.addHeavy cfg base
      match n with
      | none => return s.setPc w (.unlock base)
      | some n => return s.setPc w (.leave base n)
  | .unlock base => return s.setPc w (.waiting base)
  | .waiting _ => return s
  | .retry base => s.insertAt cfg w base (.checkLight base)
  | .checkLight base n => do
      check (s.insertFailed w = false)
      let heavy ← isHeavy cfg threshold s.om.mem n
      check (heavy = false)
      return s.setPc w (.test base n)
  | .test base n => do
      checkSameList s.om.mem n base
      let heavy ← readHeavy s.om.mem n
      return s.setPc w
        (if heavy then .leave base n else .weigh base n)
  | .weigh base n => do
      let heavy ← isHeavy cfg threshold s.om.mem n
      return s.setPc w
        (if heavy then .claim base (some n)
          else .leave base n)
  | .leave _ _ => return s.setPc w .idle

/- A worker waits for a relabel of the list of its base. -/
def covers (s : OmrdState Worker) (w : Worker) : Bool :=
  match s.pc w with
  | .waiting base => omGetTl s.om.mem base ∈ s.heavyNodes
  | _ => false

/- The function `relabel`, on this structure. -/
def relabel
    (cfg : Config) (s : OmrdState Worker) :
    Run (OmrdState Worker) :=
  if s.heavyNodes = [] then return s
  else do
    let (m, om) ←
      omRelabel cfg s.om.mem s.om.om s.heavyNodes
    return { s with
      om := { s.om with mem := m, om := om }
      heavyNodes := []
      covered := fun w => s.covered w || s.covers w }

end OmrdState

------------------------------------------------------------
-- Runs
------------------------------------------------------------

/- What happens to the structure. -/
inductive OmrdAction (Worker : Type)
-- A worker calls `insert` and gets its mutex.
| start (w : Worker) (base : Nat)
| run (w : Worker)
-- A worker on the slow path gets its mutex back.
| resume (w : Worker)
-- The owner of a batch gets the last mutex.
| lockAll
| beginBatch
| relabel
| endBatch
| unlockAll

variable {Worker : Type}

/- The step is not one of the owner of a batch. -/
def OmrdAction.ofWorker : OmrdAction Worker → Bool
| .start _ _ => true
| .run _ => true
| .resume _ => true
| _ => false

/- The constructor `omrd_t::omrd_t`. -/
def OmrdState.Starts
    (cfg : Config) (s : OmrdState Worker) : Prop :=
  s.heavyNodes = [] ∧ (∀ w, s.pc w = .idle) ∧
    (∀ w, s.insertFailed w = false) ∧
    s.locked = false ∧ s.batchInProgress = false ∧
    ∃ m₀ m n, omNew cfg m₀ = Except.ok (m, s.om.om) ∧
      omInsertInitial m s.om.om =
        Except.ok (s.om.mem, n) ∧
      s.om.order = [n]

/- What the constructor leaves, computed. -/
def omrdNew
    (Worker : Type) (cfg : Config) (m : Mem) :
    Run (OmrdState Worker) := do
  let (m, om) ← omNew cfg m
  let (m, n) ← omInsertInitial m om
  return {
    om := { mem := m, om := om, order := [n] }
    heavyNodes := []
    pc := fun _ => .idle
    insertFailed := fun _ => false
    locked := false
    batchInProgress := false
    covered := fun _ => false }

theorem starts_of_omrdNew
    {cfg : Config} {m : Mem} {s : OmrdState Worker}
    (hRun : omrdNew Worker cfg m = Except.ok s) :
    s.Starts cfg := by
  rcases bind_eq_ok hRun with ⟨⟨m₁, om⟩, hNew, hRun⟩
  rcases bind_eq_ok hRun with ⟨⟨m₂, n⟩, hInitial, hRun⟩
  cases hRun
  exact ⟨rfl, fun _ => rfl, fun _ => rfl, rfl, rfl, m, m₁, n,
    hNew, hInitial, rfl⟩

variable [DecidableEq Worker]

/- One step, if it does not stop the program. -/
def omrdStep
    (cfg : Config) (threshold : Nat)
    (s : OmrdState Worker) :
    OmrdAction Worker → OmrdState Worker → Prop
| .start w base, s' =>
    s.locked = false ∧ s.pc w = .idle ∧
      base ∈ s.om.order ∧
      s' = { s.setPc w (.tryInsert base) with
        covered := Function.update s.covered w false }
| .run w, s' => s.advance cfg threshold w = Except.ok s'
| .resume w, s' =>
    s.locked = false ∧ ∃ base, s.pc w = .waiting base ∧
      s' = (s.setFailed w false).setPc w (.retry base)
| .lockAll, s' =>
    s.locked = false ∧ (∀ w, (s.pc w).Parked) ∧
      s' = { s with locked := true }
| .beginBatch, s' =>
    s.locked = true ∧ s' = { s with batchInProgress := true }
| .relabel, s' =>
    s.batchInProgress = true ∧
      s.relabel cfg = Except.ok s'
| .endBatch, s' =>
    s.batchInProgress = true ∧
      s' = { s with batchInProgress := false }
| .unlockAll, s' =>
    s.locked = true ∧ s.batchInProgress = false ∧
      s' = { s with locked := false }

def omrdSystem
    (Worker : Type) [DecidableEq Worker]
    (cfg : Config) (threshold : Nat) :
    TransitionSystem (OmrdState Worker)
      (OmrdAction Worker) where
  init := OmrdState.Starts cfg
  step := omrdStep cfg threshold

------------------------------------------------------------
-- Computed Runs
------------------------------------------------------------

variable [Fintype Worker]

/- One step, tested and computed. -/
def perform
    (cfg : Config) (threshold : Nat)
    (s : OmrdState Worker) :
    OmrdAction Worker → Run (OmrdState Worker)
| .start w base => do
    check (s.locked = false)
    check (s.pc w = .idle)
    check (base ∈ s.om.order)
    return { s.setPc w (.tryInsert base) with
      covered := Function.update s.covered w false }
| .run w => s.advance cfg threshold w
| .resume w => do
    check (s.locked = false)
    match s.pc w with
    | .waiting base =>
        return (s.setFailed w false).setPc w (.retry base)
    | _ => Except.error Fault.assertion
| .lockAll => do
    check (s.locked = false)
    check (∀ w, (s.pc w).Parked)
    return { s with locked := true }
| .beginBatch => do
    check (s.locked = true)
    return { s with batchInProgress := true }
| .relabel => do
    check (s.batchInProgress = true)
    s.relabel cfg
| .endBatch => do
    check (s.batchInProgress = true)
    return { s with batchInProgress := false }
| .unlockAll => do
    check (s.locked = true)
    check (s.batchInProgress = false)
    return { s with locked := false }

/- A new structure, and then several steps. -/
def omrdRun
    (cfg : Config) (threshold : Nat) (m : Mem)
    (actions : List (OmrdAction Worker)) :
    Run (OmrdState Worker) := do
  let s ← omrdNew Worker cfg m
  actions.foldlM (perform cfg threshold) s

theorem step_of_perform
    {cfg : Config} {threshold : Nat}
    {s s' : OmrdState Worker} {a : OmrdAction Worker}
    (hRun : perform cfg threshold s a = Except.ok s') :
    omrdStep cfg threshold s a s' := by
  cases a with
  | start w base =>
      rcases bind_eq_ok hRun with ⟨t, hOpen, hRun⟩
      rcases bind_eq_ok hRun with ⟨u, hIdle, hRun⟩
      rcases bind_eq_ok hRun with ⟨v, hBase, hRun⟩
      cases hRun
      exact ⟨of_check hOpen, of_check hIdle, of_check hBase,
        rfl⟩
  | run w => exact hRun
  | resume w =>
      rcases bind_eq_ok hRun with ⟨t, hOpen, hRun⟩
      cases hPc : s.pc w with
      | waiting base =>
          rw [hPc] at hRun
          cases hRun
          exact ⟨of_check hOpen, base, hPc, rfl⟩
      | _ =>
          rw [hPc] at hRun
          cases hRun
  | lockAll =>
      rcases bind_eq_ok hRun with ⟨t, hOpen, hRun⟩
      rcases bind_eq_ok hRun with ⟨u, hParked, hRun⟩
      cases hRun
      exact ⟨of_check hOpen, of_check hParked, rfl⟩
  | beginBatch =>
      rcases bind_eq_ok hRun with ⟨t, hLocked, hRun⟩
      cases hRun
      exact ⟨of_check hLocked, rfl⟩
  | relabel =>
      rcases bind_eq_ok hRun with ⟨t, hBatch, hRun⟩
      exact ⟨of_check hBatch, hRun⟩
  | endBatch =>
      rcases bind_eq_ok hRun with ⟨t, hBatch, hRun⟩
      cases hRun
      exact ⟨of_check hBatch, rfl⟩
  | unlockAll =>
      rcases bind_eq_ok hRun with ⟨t, hLocked, hRun⟩
      rcases bind_eq_ok hRun with ⟨u, hOver, hRun⟩
      cases hRun
      exact ⟨of_check hLocked, of_check hOver, rfl⟩

/- Computed runs are runs. -/
theorem reachable_of_omrdRun
    {cfg : Config} {threshold : Nat} {m : Mem}
    {actions : List (OmrdAction Worker)}
    {s : OmrdState Worker}
    (hRun : omrdRun cfg threshold m actions =
      Except.ok s) :
    (omrdSystem Worker cfg threshold).Reachable s := by
  rcases bind_eq_ok hRun with ⟨s₀, hNew, hRun⟩
  apply TransitionSystem.Reachable.of_foldlM _ _ hRun
  · intro s a s' hStep
    exact step_of_perform hStep
  · exact TransitionSystem.Reachable.of_init
      (starts_of_omrdNew hNew)

end Omrd

end PRacer
