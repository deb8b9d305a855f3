import Mathlib.Algebra.Group.Nat.Defs
import PRacer.Foundations.Heap
import PRacer.MemAccess.Coverage

/-
  The shadow memory as the code stores it: a directory of
  tables that are made when they are first needed
  (`shadow_mem.h`), and the loop that clears a range of it
  (`clear_shadow_memory`).

  The entries are pointers.  A null pointer is `none`.  An
  access outside of an array and an access to a table that
  does not exist are faults.

  Main declarations:
    * `ShadowDir.findSlot`
    * `ShadowDir.find`, `ShadowDir.insert`, `ShadowDir.erase`
    * `clearShadowMemory`
-/

------------------------------------------------------------
-- Tables and the Directory
------------------------------------------------------------

namespace PRacer

open Foundations

namespace ShadowTable

def LOG_TBL_SIZE : Nat := 20

def TBL_SIZE : Nat := 2 ^ LOG_TBL_SIZE

def DIR_SIZE : Nat := 2 ^ (48 - LOG_TBL_SIZE - LOG_KEY_SIZE)

/- How the code stops before its end. -/
inductive Fault where
| assertion
| dangling
| outOfBounds
| outOfFuel
deriving DecidableEq, Repr

/- A result, unless the code stops. -/
abbrev Run := Except Fault

@[simp] theorem ok_bind
    {α β : Type} (a : α) (f : α → Run β) :
    ((Except.ok a : Run α) >>= f) = f a := rfl

@[simp] theorem error_bind
    {α β : Type} (e : Fault) (f : α → Run β) :
    ((Except.error e : Run α) >>= f) = Except.error e := rfl

/- The macro `om_assert`. -/
def check (cond : Prop) [Decidable cond] : Run Unit :=
  if cond then Except.ok () else Except.error Fault.assertion

@[simp] theorem check_of
    {cond : Prop} [Decidable cond]
    (hCond : cond) :
    check cond = Except.ok () :=
  if_pos hCond

/- The structure `shadow_tbl`. -/
structure ShadowTbl (T : Type) where
  shadowEntries : Nat → Option T

/- A new table holds null pointers. -/
def ShadowTbl.new {T : Type} : ShadowTbl T where
  shadowEntries := fun _ => none

/- The tables in memory and the directory. -/
structure ShadowDir (T : Type) where
  tbls : Heap (ShadowTbl T)
  shadowDir : Nat → Option Nat

/- The address of an entry. -/
structure Slot where
  tbl : Nat
  index : Nat
deriving DecidableEq, Repr

/- The index of a key in the directory. -/
def dirIndex (key : BitVec 64) : Nat :=
  (key >>> LOG_TBL_SIZE).toNat

/- The index of a key in its table. -/
def tblIndex (key : BitVec 64) : Nat :=
  (key &&& (1#64 <<< LOG_TBL_SIZE - 1#64)).toNat

/-
  A compare-and-swap that expects a null pointer: the new
  contents of the cell and the contents it returns.
-/
def compareAndSwap {α : Type} (cell : Option α) (own : α) :
    Option α × Option α :=
  (cell <|> some own, cell)

namespace ShadowDir

variable {T : Type}

/- A new directory holds null pointers. -/
def new : ShadowDir T where
  tbls := Heap.empty
  shadowDir := fun _ => none

/- Read a cell of the directory. -/
def loadDir (m : ShadowDir T) (i : Nat) : Run (Option Nat) :=
  if i < DIR_SIZE then Except.ok (m.shadowDir i)
  else Except.error Fault.outOfBounds

/- A compare-and-swap on a cell of the directory. -/
def casDir (m : ShadowDir T) (i own : Nat) :
    Run (ShadowDir T × Option Nat) := do
  let cell ← m.loadDir i
  let (cell', old) := compareAndSwap cell own
  return ({ m with
    shadowDir := Function.update m.shadowDir i cell' }, old)

/- Read an entry. -/
def loadSlot (m : ShadowDir T) (slot : Slot) :
    Run (Option T) :=
  match m.tbls.get slot.tbl with
  | none => Except.error Fault.dangling
  | some tbl =>
      if slot.index < TBL_SIZE then
        Except.ok (tbl.shadowEntries slot.index)
      else Except.error Fault.outOfBounds

/- Overwrite an entry. -/
def setSlot (m : ShadowDir T) (slot : Slot) (cell : Option T) :
    ShadowDir T :=
  { m with
    tbls := m.tbls.modify slot.tbl fun tbl =>
      { shadowEntries :=
          Function.update tbl.shadowEntries slot.index cell } }

/- A compare-and-swap on an entry. -/
def casSlot (m : ShadowDir T) (slot : Slot) (own : T) :
    Run (ShadowDir T × Option T) := do
  let cell ← m.loadSlot slot
  let (cell', old) := compareAndSwap cell own
  return (m.setSlot slot cell', old)

/- Allocate a table, with the address it gets. -/
def tblNew (m : ShadowDir T) : ShadowDir T × Nat :=
  ({ m with tbls := m.tbls.alloc ShadowTbl.new }, m.tbls.next)

/- Give a table back. -/
def tblDelete (m : ShadowDir T) (p : Nat) : ShadowDir T :=
  { m with tbls := m.tbls.free p }

------------------------------------------------------------
-- The Operations
------------------------------------------------------------

/- Offer a table until the cell of the directory is filled. -/
def offerTbl (i newTbl : Nat) :
    Nat → ShadowDir T → Run (ShadowDir T × Nat)
| 0, _ => Except.error Fault.outOfFuel
| fuel + 1, m => do
    let (m, old) ← m.casDir i newTbl
    match old with
    | none => offerTbl i newTbl fuel m
    | some tbl => return (m, tbl)

/- The slot of a key, if there is a table for it. -/
def findSlot (m : ShadowDir T) (key : BitVec 64)
    (alloc : Bool) : Run (ShadowDir T × Option Slot) := do
  let tbl ← m.loadDir (dirIndex key)
  match tbl with
  | some tbl =>
      return (m, some { tbl := tbl, index := tblIndex key })
  | none =>
      if !alloc then return (m, none)
      else do
        let (m, newTbl) := m.tblNew
        -- The second round reads back what the first stored.
        let (m, tbl) ← offerTbl (dirIndex key) newTbl 2 m
        let m := if tbl ≠ newTbl then m.tblDelete newTbl else m
        return (m, some { tbl := tbl, index := tblIndex key })

def find (m : ShadowDir T) (key : BitVec 64) :
    Run (Option T) := do
  let (m, slot) ← m.findSlot key false
  match slot with
  | none => return none
  | some slot => m.loadSlot slot

/- Offer an entry until the slot is filled. -/
def offerEntry (slot : Slot) (val : T) :
    Nat → ShadowDir T → Option T → Run (ShadowDir T × T)
| _, m, some old => return (m, old)
| 0, _, none => Except.error Fault.outOfFuel
| fuel + 1, m, none => do
    let (m, old) ← m.casSlot slot val
    offerEntry slot val fuel m old

/- The entry that the slot of the key holds in the end. -/
def insert (m : ShadowDir T) (key : BitVec 64) (val : T) :
    Run (ShadowDir T × T) := do
  let (m, slot) ← m.findSlot key true
  match slot with
  | none => Except.error Fault.dangling
  | some slot => do
      let old ← m.loadSlot slot
      offerEntry slot val 2 m old

def erase (m : ShadowDir T) (key : BitVec 64) :
    Run (ShadowDir T) := do
  let (m, slot) ← m.findSlot key false
  let m ← match slot with
    | none => pure m
    | some slot => do
        let old ← m.loadSlot slot
        match old with
        | none => pure m
        | some _ => pure (m.setSlot slot none)
  let _ ← m.find key
  return m

end ShadowDir

------------------------------------------------------------
-- Clearing a Range
------------------------------------------------------------

/- The next multiple of the block size. -/
def alignByNextMaxGrainSize (addr : BitVec 64) : BitVec 64 :=
  (addr + BitVec.ofNat 64 (MAX_GRAIN_SIZE - 1)) &&&
    MAX_GRAIN_MASK

/- The loop, with the keys that it passes to `erase`. -/
def clearLoop {T : Type} (stop : BitVec 64) :
    Nat → ShadowDir T → BitVec 64 →
      Run (ShadowDir T × List (BitVec 64))
| fuel, m, start =>
    if start = stop then return (m, [])
    else
      match fuel with
      | 0 => Except.error Fault.outOfFuel
      | fuel + 1 => do
          let m ← m.erase (addrToKey start)
          let (m, keys) ← clearLoop stop fuel m
            (start + BitVec.ofNat 64 MAX_GRAIN_SIZE)
          return (m, addrToKey start :: keys)

/- Clear the memory block from `start` on, without `stop`. -/
def clearShadowMemory {T : Type} (fuel : Nat)
    (m : ShadowDir T) (start stop : BitVec 64) :
    Run (ShadowDir T × List (BitVec 64)) := do
  check (alignByNextMaxGrainSize stop = stop)
  check (start < stop)
  clearLoop stop fuel m start

end ShadowTable

end PRacer
