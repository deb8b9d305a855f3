import PRacer.OrderMaint.Memory

/-
  Bottom lists (`om/blist.c`).

  Main declarations:
    * `getNewLabel`, `insertInternal`
    * `blInsertInitial`, `blInsert`
    * `blSize`, `blVerify`
-/

------------------------------------------------------------
-- Labels
------------------------------------------------------------

namespace PRacer

open Foundations

namespace OrderMaint

/- The average of two labels, halved one by one. -/
def averageLabel (x y : Label) : Label :=
  let lab := (x >>> 1) + (y >>> 1)
  -- Correction for average of two odd integers.
  if x &&& y &&& 1 = 1 then lab + 1 else lab

/-
  The label of a node after `base`, or 0 if there is none.
-/
def getNewLabel (cfg : Config) (m : Mem) (base : Nat) :
    Run Label := do
  let b ← Mem.load m.nodes base
  let nextLabel ←
    match b.next with
    | none => pure cfg.maxLabel
    | some next => do
        let x ← Mem.load m.nodes next
        check (b.label < x.label)
        pure x.label
  let lab := averageLabel b.label nextLabel
  -- Correction for adding to the end.
  let lab := if b.next = none then lab + 1 else lab
  let lab := if b.label = lab then 0 else lab
  check (lab = 0 ∨ b.label < lab)
  return lab

------------------------------------------------------------
-- Insertion
------------------------------------------------------------

/- Link a node in after `base`, or into the empty list. -/
def insertInternal
    (m : Mem) (self : Nat) (base : Option Nat) (n : Nat) :
    Run Mem := do
  let m ←
    match base with
    | none => do
        let m ← m.setList self fun l =>
          { l with tail := some n, head := some n }
        m.setNode n fun x =>
          { x with next := none, prev := none, label := 0 }
    | some base => do
        let x ← Mem.load m.nodes n
        let b ← Mem.load m.nodes base
        check (b.label < x.label)
        let l ← Mem.load m.lists self
        let m ←
          if some base = l.tail then do
            let m ← m.setList self fun l =>
              { l with tail := some n }
            m.setNode n fun x => { x with next := none }
          else do
            let m ← m.setNode n fun x =>
              { x with next := b.next }
            let next ← deref b.next
            m.setNode next fun y => { y with prev := some n }
        let m ← m.setNode base fun b =>
          { b with next := some n }
        m.setNode n fun x => { x with prev := some base }
  m.setNode n fun x => { x with list := self }

/- A node whose links and label have yet to be set. -/
def freshNode : BlNode where
  label := 0
  next := none
  prev := none
  list := 0
  inUse := 42
  activeInsert := 0
  lastInsertId := -1

/- Allocate a node, with the address it gets. -/
def nodeNew (m : Mem) : Mem × Nat :=
  ({ m with nodes := m.nodes.alloc freshNode }, m.nodes.next)

/- Allocate an empty list, with the address it gets. -/
def blNew (m : Mem) : Mem × Nat :=
  let l : BList :=
    { head := none, tail := none, above := none, heavy := false }
  ({ m with lists := m.lists.alloc l }, m.lists.next)

/- The first node of a list. -/
def blInsertInitial (m : Mem) (self : Nat) :
    Run (Mem × Nat) := do
  let l ← Mem.load m.lists self
  check (l.head = none)
  let (m, n) := nodeNew m
  let m ← insertInternal m self none n
  return (m, n)

/- A node right after `base`, if there is a label for it. -/
def blInsert (cfg : Config) (m : Mem) (self base : Nat) :
    Run (Mem × Option Nat) := do
  let b ← Mem.load m.nodes base
  check (b.activeInsert = 0 ∧ b.lastInsertId = -1)
  let m ← m.setNode base fun b =>
    { b with activeInsert := b.activeInsert + 1 }
  let b ← Mem.load m.nodes base
  check (b.activeInsert = 1)
  let lab ← getNewLabel cfg m base
  let (m, n) ←
    if 0 < lab then do
      let (m, n) := nodeNew m
      let m ← m.setNode n fun x => { x with label := lab }
      let m ← insertInternal m self (some base) n
      pure (m, some n)
    else pure (m, none)
  let m ← m.setNode base fun b =>
    { b with activeInsert := b.activeInsert - 1 }
  let b ← Mem.load m.nodes base
  check (b.activeInsert = 0)
  let m ← m.setNode base fun b => { b with lastInsertId := -1 }
  return (m, n)

------------------------------------------------------------
-- Sizes
------------------------------------------------------------

/- Count the nodes from a node on. -/
def blSizeFrom (m : Mem) : Nat → Option Nat → Nat → Run Nat
| _, none, count => return count
| 0, some _, _ => Except.error Fault.outOfFuel
| fuel + 1, some current, count => do
    let n ← Mem.load m.nodes current
    blSizeFrom m fuel n.next (count + 1)

def blSize (m : Mem) (self : Nat) : Run Nat := do
  let l ← Mem.load m.lists self
  blSizeFrom m (m.nodes.next + 1) l.head 0

------------------------------------------------------------
-- Verification
------------------------------------------------------------

/- What `bl_verify` asks of the debugging fields. -/
def BlNode.Quiet (n : BlNode) : Prop :=
  n.inUse = 42 ∧ n.activeInsert = 0 ∧ n.lastInsertId = -1

instance (n : BlNode) : Decidable n.Quiet :=
  inferInstanceAs (Decidable (_ ∧ _ ∧ _))

/- The loop of `bl_verify`, from node `p` to the last one. -/
def blVerifyFrom (m : Mem) (self : Nat) :
    Nat → Nat → Run Nat
| 0, _ => Except.error Fault.outOfFuel
| fuel + 1, p => do
    let n ← Mem.load m.nodes p
    match n.next with
    | none => pure p
    | some q => do
        check n.Quiet
        check (q ≠ p)
        let x ← Mem.load m.nodes q
        check (n.label < x.label)
        check (n.list = self)
        check (x.prev = some p)
        blVerifyFrom m self fuel q

/-
  Check a list.  No walk along distinct nodes is longer than
  the number of addresses in use.
-/
def blVerify (m : Mem) (self : Nat) : Run Unit := do
  let l ← Mem.load m.lists self
  match l.head with
  | none => do
      check (l.tail = none)
      check (l.heavy = false)
  | some p => do
      let n ← Mem.load m.nodes p
      check (n.prev = none)
      let last ← blVerifyFrom m self m.nodes.next p
      let n ← Mem.load m.nodes last
      check n.Quiet
      check (n.list = self)
      check (n.next = none)
      check (l.tail = some last)

end OrderMaint

end PRacer
