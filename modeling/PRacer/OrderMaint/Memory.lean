import Mathlib.Algebra.Order.Field.Rat
import Mathlib.Data.BitVec
import PRacer.Foundations.Heap

/-
  The records of the order-maintenance structure
  (`om/blist.h`, `om/om.h`) and the memory they live in.

  Code that fails an assertion, follows a null or dangling
  pointer or exits stops with a `Fault`.

  Main declarations:
    * `BlNode`, `BList`, `TlNode`, `Om`, `Mem`
    * `Fault`, `Run`
-/

------------------------------------------------------------
-- Records
------------------------------------------------------------

namespace PRacer

open Foundations

namespace OrderMaint

/- The type `label_t`. -/
abbrev Label := BitVec 64

/- A node of a bottom list. -/
structure BlNode where
  label : Label
  next : Option Nat
  prev : Option Nat
  list : Nat
  inUse : Int
  activeInsert : Int
  lastInsertId : Int
deriving DecidableEq, Repr

/- A bottom list. -/
structure BList where
  head : Option Nat
  tail : Option Nat
  above : Option Nat
  heavy : Bool
deriving DecidableEq, Repr

/- The union of the fields `below` and `split_nodes`. -/
inductive Below where
| null
| list (l : Nat)
| splitNodes (n : Nat)
deriving DecidableEq, Repr

/-
  A node of the top-level tree.  Its fields `left` and `prev`
  are one, and so are `right` and `next`.
-/
structure TlNode where
  label : Label
  level : Nat
  numLeaves : Nat
  parent : Option Nat
  left : Option Nat
  right : Option Nat
  below : Below
  needsRebalance : Bool
deriving DecidableEq, Repr

/- The structure `om_s`. -/
structure Om where
  root : Nat
  head : Nat
  tail : Nat
  height : Nat
deriving DecidableEq, Repr

/-
  The memory.  A record that `malloc` returns is not
  initialized: `junk` is what it happens to hold.
-/
structure Mem where
  nodes : Heap BlNode
  lists : Heap BList
  tls : Heap TlNode
  junk : Nat → TlNode

/- A memory in which nothing was allocated. -/
def Mem.empty (junk : Nat → TlNode) : Mem where
  nodes := Heap.empty
  lists := Heap.empty
  tls := Heap.empty
  junk := junk

/- A memory in which a new tree node is all zero. -/
def noMemory : Mem :=
  Mem.empty fun _ =>
    { label := 0, level := 0, numLeaves := 0, parent := none
      left := none, right := none, below := .null
      needsRebalance := false }

------------------------------------------------------------
-- Faults
------------------------------------------------------------

/- How the code stops before its end. -/
inductive Fault where
| assertion
| dangling
| full
| outOfFuel
deriving DecidableEq, Repr

/- A result, unless the code stops. -/
abbrev Run := Except Fault

@[simp] theorem ok_bind
    {α β : Type} (a : α) (f : α → Run β) :
    ((Except.ok a : Run α) >>= f) = f a := rfl

@[simp] theorem error_bind
    {α β : Type} (e : Fault) (f : α → Run β) :
    ((Except.error e : Run α) >>= f) = Except.error e := rfl

/- A result of two steps is a result of each. -/
theorem bind_eq_ok
    {α β : Type} {r : Run α} {f : α → Run β} {b : β}
    (h : (r >>= f) = Except.ok b) :
    ∃ a, r = Except.ok a ∧ f a = Except.ok b := by
  cases r with
  | ok a => exact ⟨a, rfl, h⟩
  | error e => cases h

/- A result that passes a test. -/
theorem exists_of_test
    {α : Type} {r : Run α} {test : α → Bool}
    (h : r.toOption.any test = true) :
    ∃ a, r = Except.ok a ∧ test a = true := by
  cases r with
  | ok a => exact ⟨a, rfl, h⟩
  | error e => cases h

/- The macro `assert`. -/
def check (cond : Prop) [Decidable cond] : Run Unit :=
  if cond then Except.ok () else Except.error Fault.assertion

theorem check_of
    {cond : Prop} [Decidable cond]
    (h : cond) :
    check cond = Except.ok () := by
  unfold check
  rw [if_pos h]

theorem of_check
    {cond : Prop} [Decidable cond]
    (h : check cond = Except.ok ()) :
    cond := by
  unfold check at h
  split at h
  · assumption
  · cases h

/- Follow a pointer that may be null. -/
def deref : Option Nat → Run Nat
| some p => Except.ok p
| none => Except.error Fault.dangling

@[simp] theorem deref_some (p : Nat) :
    deref (some p) = Except.ok p := rfl

------------------------------------------------------------
-- Access to Memory
------------------------------------------------------------

namespace Mem

variable {m : Mem} {p : Nat}

/- Read a record of a heap. -/
def load
    {α : Type} (h : Heap α) (p : Nat) : Run α :=
  match h.get p with
  | some a => Except.ok a
  | none => Except.error Fault.dangling

theorem load_of_get
    {α : Type} {h : Heap α} {a : α}
    (hGet : h.get p = some a) :
    load h p = Except.ok a := by
  unfold load
  rw [hGet]

theorem get_of_load
    {α : Type} {h : Heap α} {a : α}
    (hLoad : load h p = Except.ok a) :
    h.get p = some a := by
  unfold load at hLoad
  split at hLoad
  · cases hLoad
    assumption
  · cases hLoad

/- The memory after a change to one record. -/
def mapNode
    (m : Mem) (p : Nat) (f : BlNode → BlNode) : Mem :=
  { m with nodes := m.nodes.modify p f }

def mapList
    (m : Mem) (p : Nat) (f : BList → BList) : Mem :=
  { m with lists := m.lists.modify p f }

def mapTl
    (m : Mem) (p : Nat) (f : TlNode → TlNode) : Mem :=
  { m with tls := m.tls.modify p f }

/- Write fields of a record, if there is one. -/
def setNode
    (m : Mem) (p : Nat) (f : BlNode → BlNode) : Run Mem :=
  match m.nodes.get p with
  | some _ => Except.ok (m.mapNode p f)
  | none => Except.error Fault.dangling

def setList
    (m : Mem) (p : Nat) (f : BList → BList) : Run Mem :=
  match m.lists.get p with
  | some _ => Except.ok (m.mapList p f)
  | none => Except.error Fault.dangling

def setTl
    (m : Mem) (p : Nat) (f : TlNode → TlNode) : Run Mem :=
  match m.tls.get p with
  | some _ => Except.ok (m.mapTl p f)
  | none => Except.error Fault.dangling

theorem setNode_of_get
    {n : BlNode} (f : BlNode → BlNode)
    (hGet : m.nodes.get p = some n) :
    m.setNode p f = Except.ok (m.mapNode p f) := by
  unfold setNode
  rw [hGet]

theorem setList_of_get
    {l : BList} (f : BList → BList)
    (hGet : m.lists.get p = some l) :
    m.setList p f = Except.ok (m.mapList p f) := by
  unfold setList
  rw [hGet]

theorem setTl_of_get
    {n : TlNode} (f : TlNode → TlNode)
    (hGet : m.tls.get p = some n) :
    m.setTl p f = Except.ok (m.mapTl p f) := by
  unfold setTl
  rw [hGet]

/- The memory with other top-level nodes. -/
def withTls (m : Mem) (tls : Heap TlNode) : Mem :=
  { m with tls := tls }

@[simp] theorem nodes_withTls (tls : Heap TlNode) :
    (m.withTls tls).nodes = m.nodes := rfl

@[simp] theorem lists_withTls (tls : Heap TlNode) :
    (m.withTls tls).lists = m.lists := rfl

@[simp] theorem tls_withTls (tls : Heap TlNode) :
    (m.withTls tls).tls = tls := rfl

@[simp] theorem junk_withTls (tls : Heap TlNode) :
    (m.withTls tls).junk = m.junk := rfl

@[simp] theorem withTls_self : m.withTls m.tls = m := rfl

@[simp] theorem withTls_withTls (tls tls' : Heap TlNode) :
    (m.withTls tls).withTls tls' = m.withTls tls' := rfl

theorem setTl_withTls
    {tls : Heap TlNode} {n : TlNode} (f : TlNode → TlNode)
    (hGet : tls.get p = some n) :
    (m.withTls tls).setTl p f =
      Except.ok (m.withTls (tls.modify p f)) :=
  setTl_of_get f hGet

@[simp] theorem nodes_mapNode (f : BlNode → BlNode) :
    (m.mapNode p f).nodes = m.nodes.modify p f := rfl

@[simp] theorem lists_mapNode (f : BlNode → BlNode) :
    (m.mapNode p f).lists = m.lists := rfl

@[simp] theorem tls_mapNode (f : BlNode → BlNode) :
    (m.mapNode p f).tls = m.tls := rfl

@[simp] theorem nodes_mapList (f : BList → BList) :
    (m.mapList p f).nodes = m.nodes := rfl

@[simp] theorem lists_mapList (f : BList → BList) :
    (m.mapList p f).lists = m.lists.modify p f := rfl

@[simp] theorem tls_mapList (f : BList → BList) :
    (m.mapList p f).tls = m.tls := rfl

@[simp] theorem nodes_mapTl (f : TlNode → TlNode) :
    (m.mapTl p f).nodes = m.nodes := rfl

@[simp] theorem lists_mapTl (f : TlNode → TlNode) :
    (m.mapTl p f).lists = m.lists := rfl

@[simp] theorem tls_mapTl (f : TlNode → TlNode) :
    (m.mapTl p f).tls = m.tls.modify p f := rfl

end Mem

------------------------------------------------------------
-- Configurations
------------------------------------------------------------

/-
  What C leaves to the machine: the value of the `int` 1
  shifted by 31 or more, and how a result of type `double`
  is rounded.  Rounding is monotone and keeps the constants
  that the code computes with.
-/
structure Machine where
  overshift : Nat → Nat
  rnd : ℚ → ℚ
  rnd_mono : Monotone rnd
  rnd_one : rnd 1 = 1
  rnd_quarter : rnd (1 / 4) = 1 / 4

/- Shifts and divisions without overflow and rounding. -/
def Machine.exact : Machine where
  overshift := fun h => 2 ^ h
  rnd := id
  rnd_mono := monotone_id
  rnd_one := rfl
  rnd_quarter := rfl

/- The constants of `om_common.h`. -/
structure Config where
  maxLabel : Label
  maxLevel : Nat
  nodeInterval : Label
  sublistSize : Nat
  machine : Machine

/- The constants that the header defines. -/
def Config.default (machine : Machine) : Config where
  maxLabel := BitVec.allOnes 64
  maxLevel := 64
  nodeInterval := BitVec.twoPow 64 58
  sublistSize := 64
  machine := machine

end OrderMaint

end PRacer
