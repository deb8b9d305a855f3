import PRacer.OrderMaint.BottomList

/-
  The order-maintenance structure (`om/om.c`) and its relabel
  (`om/blist_split.c`, `om/om_relabel.c`).

  The parallel loops and calls of the relabel run in their
  serial order.  A loop or recursion over linked records gets
  enough fuel for all records there are.

  Main declarations:
    * `split`
    * `rebuildRecursive`, `rebuild`, `rebalance`
    * `omRelabel`
    * `omNew`, `omInsertInitial`, `omInsert`, `omPrecedes`
-/

namespace PRacer

open Foundations

namespace OrderMaint

------------------------------------------------------------
-- Splitting a Bottom List
------------------------------------------------------------

/- Allocate a top-level node, with the address it gets. -/
def tlNodeNew (m : Mem) : Mem × Nat :=
  ({ m with tls := m.tls.alloc (m.junk m.tls.next) },
    m.tls.next)

/- Give a top-level node back. -/
def tlNodeFree (m : Mem) (p : Nat) : Run Mem := do
  let _ ← Mem.load m.tls p
  return { m with tls := m.tls.free p }

/- Read the union as the field `below`. -/
def Below.asList : Below → Run Nat
| .list l => Except.ok l
| _ => Except.error Fault.dangling

/- Read the union as the field `split_nodes`. -/
def Below.asSplitNodes : Below → Run Nat
| .splitNodes n => Except.ok n
| _ => Except.error Fault.dangling

/-
  Move the next nodes to a new list, `room` at most, with
  labels from `label` on.  The node after them is returned.
-/
def splitInner (cfg : Config) (list : Nat) :
    Nat → Mem → Option Nat → Label → Run (Mem × Option Nat)
| 0, m, current, _ => return (m, current)
| _ + 1, m, none, _ => return (m, none)
| room + 1, m, some current, label => do
    let n ← Mem.load m.nodes current
    let m ← m.setNode current fun n => { n with label := label }
    let m ← insertInternal m list n.prev current
    splitInner cfg list room m n.next
      (label + cfg.nodeInterval)

/- Hang a new leaf behind the one before it. -/
def linkSplitNode (m : Mem) (above n : Nat) :
    Option Nat → Run Mem
| some prev => m.setTl prev fun x => { x with right := some n }
| none => m.setTl above fun x =>
    { x with below := .splitNodes n }

/- The new lists, one after the other, and their number. -/
def splitOuter (cfg : Config) (above : Nat) :
    Nat → Mem → Option Nat → Option Nat → Nat →
      Run (Mem × Nat)
| _, m, none, _, numLists => return (m, numLists)
| 0, _, some _, _, _ => Except.error Fault.outOfFuel
| fuel + 1, m, some current, prevTlNode, numLists => do
    let (m, n) := tlNodeNew m
    let m ← m.setTl n fun x =>
      { x with
        level := cfg.maxLevel
        right := none
        left := prevTlNode
        numLeaves := 1 }
    let m ← linkSplitNode m above n prevTlNode
    let (m, list) := blNew m
    let m ← m.setTl n fun x => { x with below := .list list }
    let m ← m.setList list fun l => { l with above := some n }
    let m ← m.setNode current fun c => { c with prev := none }
    let (m, rest) ←
      splitInner cfg list cfg.sublistSize m (some current) 0
    splitOuter cfg above fuel m rest (some n) (numLists + 1)

/- Split a list into sublists; the list itself is freed. -/
def split (cfg : Config) (m : Mem) (self : Nat) :
    Run (Mem × Nat) := do
  let l ← Mem.load m.lists self
  let above ← deref l.above
  let a ← Mem.load m.tls above
  check (a.below = .list self)
  check (l.head ≠ none)
  let (m, numLists) ←
    splitOuter cfg above (m.nodes.next + 1) m l.head none 0
  let m ← m.setList self fun l =>
    { l with head := none, tail := none }
  let m := { m with lists := m.lists.free self }
  return (m, numLists)

------------------------------------------------------------
-- Ranges and Densities
------------------------------------------------------------

def isLeaf (cfg : Config) (n : TlNode) : Bool :=
  n.level = cfg.maxLevel || (n.left = none && n.right = none)

def rangeRight (n : TlNode) : Label := n.label

/- The shift to the right is arithmetic. -/
def rangeLeft (cfg : Config) (n : TlNode) : Label :=
  match n.parent with
  | none => 0
  | some _ =>
      let lab := cfg.maxLabel <<< (cfg.maxLevel - 1)
      lab.sshiftRight (n.level - 1) &&& rangeRight n

def height (cfg : Config) (n : TlNode) : Nat :=
  cfg.maxLevel - n.level

/- The `int` 1, shifted to the left. -/
def shiftOne (cfg : Config) (k : Nat) : Nat :=
  if k < 31 then 2 ^ k else cfg.machine.overshift k

def capacity (cfg : Config) (n : TlNode) : Nat :=
  if n.level = 0 then cfg.maxLabel.toNat
  else shiftOne cfg (height cfg n)

/- A quotient of two integers, as a `double`. -/
def quotient (cfg : Config) (x y : Nat) : ℚ :=
  cfg.machine.rnd (cfg.machine.rnd x / cfg.machine.rnd y)

def density (cfg : Config) (n : TlNode) : ℚ :=
  quotient cfg n.numLeaves (capacity cfg n)

def threshold (cfg : Config) (n : TlNode) (height : Nat) : ℚ :=
  cfg.machine.rnd (3 / 4 +
    cfg.machine.rnd (1 / 4 * quotient cfg n.level height))

/-
  A quotient by zero is infinite, or not a number if it is
  zero by zero; nothing compares with the latter.
-/
def tooHeavy (cfg : Config) (n : TlNode) (height : Nat) :
    Bool :=
  n.needsRebalance &&
    if capacity cfg n = 0 then
      n.numLeaves ≠ 0 && !(height = 0 && n.level = 0)
    else if height = 0 then false
    else threshold cfg n height ≤ density cfg n

------------------------------------------------------------
-- Rebuilding a Subtree
------------------------------------------------------------

/- An array of leaves, not initialized. -/
structure LeafArray where
  size : Nat
  cells : Nat → Option Nat

namespace LeafArray

/- A new array. -/
def new (size : Nat) : LeafArray where
  size := size
  cells := fun _ => none

def read (a : LeafArray) (i : Nat) : Run Nat :=
  if i < a.size then deref (a.cells i)
  else Except.error Fault.dangling

def write (a : LeafArray) (i p : Nat) : Run LeafArray :=
  if i < a.size then
    Except.ok { a with
      cells := Function.update a.cells i (some p) }
  else Except.error Fault.dangling

end LeafArray

/- The next leaf of a chain points back. -/
def checkNext (m : Mem) (current : Nat) :
    Option Nat → Run Unit
| none => return ()
| some next => do
    let y ← Mem.load m.tls next
    check (y.left = some current)

/- The leaf before in a chain is its end. -/
def unlinkPrev (m : Mem) : Option Nat → Run Mem
| none => return m
| some prev => m.setTl prev fun y => { y with right := none }

/-
  Put the leaves of a split list into the array, and take
  their chain apart.  The index after them is returned.
-/
def buildArrayOfSplitNodes :
    Nat → Mem → LeafArray → Option Nat → Nat →
      Run (Mem × LeafArray × Nat)
| _, m, array, none, index => return (m, array, index)
| 0, _, _, some _, _ => Except.error Fault.outOfFuel
| fuel + 1, m, array, some current, index => do
    let array ← array.write index current
    let x ← Mem.load m.tls current
    checkNext m current x.right
    let m ← unlinkPrev m x.left
    let m ← m.setTl current fun x => { x with left := none }
    let x ← Mem.load m.tls current
    buildArrayOfSplitNodes fuel m array x.right (index + 1)

/- Put a leaf, or the leaves it was split into, there. -/
def buildArrayOfLeaf
    (m : Mem) (array : LeafArray) (n : Nat) (x : TlNode)
    (leftIndex rightIndex : Nat) : Run (Mem × LeafArray) :=
  if x.numLeaves = 1 then do
    let array ← array.write leftIndex n
    check (leftIndex + 1 = rightIndex)
    return (m, array)
  else do
    let first ← x.below.asSplitNodes
    let (m, array, index) ←
      buildArrayOfSplitNodes m.tls.next m array (some first)
        leftIndex
    check (index = rightIndex)
    return (m, array)

/- A node that was marked is freed. -/
def freeMarked (m : Mem) (n : Nat) : Run Mem := do
  let x ← Mem.load m.tls n
  check (x.left = none)
  check (x.right = none)
  if x.needsRebalance then tlNodeFree m n else return m

/-
  Put the leaves below `n` into the array from left to right
  and free the marked nodes, but for the root, whose mark was
  taken away before.
-/
def buildArrayOfLeaves (cfg : Config) :
    Nat → Mem → LeafArray → Option Nat → Nat → Nat →
      Run (Mem × LeafArray)
| _, _, _, none, _, _ => Except.error Fault.assertion
| 0, _, _, some _, _, _ => Except.error Fault.outOfFuel
| fuel + 1, m, array, some n, leftIndex, rightIndex => do
    let x ← Mem.load m.tls n
    if isLeaf cfg x then do
      let (m, array) ←
        buildArrayOfLeaf m array n x leftIndex rightIndex
      let m ← freeMarked m n
      return (m, array)
    else do
      let left ← deref x.left
      let l ← Mem.load m.tls left
      let mid := leftIndex + l.numLeaves
      let (m, array) ←
        buildArrayOfLeaves cfg fuel m array x.left leftIndex mid
      let (m, array) ←
        buildArrayOfLeaves cfg fuel m array x.right mid
          rightIndex
      let m ← m.setTl n fun x =>
        { x with left := none, right := none }
      let m ← freeMarked m n
      return (m, array)

/- The middle of a range, the right end of its left half. -/
def middle (llab rlab : Label) : Label :=
  llab + ((rlab - llab) / 2 + 1) - 1

/- The only leaf of a part of the array, or a new node. -/
def leafOrNew
    (m : Mem) (array : LeafArray) (lindex size : Nat) :
    Run (Mem × Nat) :=
  if size = 1 then do
    let n ← array.read lindex
    return (m, n)
  else return tlNodeNew m

/- Build a balanced subtree over a part of the array. -/
def rebuildRecursive (cfg : Config) :
    Nat → Mem → Nat → LeafArray → Nat → Nat →
      Label → Label → Run (Mem × Nat)
| 0, _, _, _, _, _, _, _ => Except.error Fault.outOfFuel
| fuel + 1, m, parent, array, lindex, rindex, llab, rlab => do
    let size := rindex - lindex
    let (m, n) ← leafOrNew m array lindex size
    let m ← m.setTl n fun x =>
      { x with parent := some parent, needsRebalance := false }
    check (llab ≤ rlab)
    if size = 1 then do
      let m ← m.setTl n fun x =>
        { x with
          label := llab
          level := cfg.maxLevel
          left := none
          right := none
          numLeaves := 1 }
      return (m, n)
    else do
      let p ← Mem.load m.tls parent
      let m ← m.setTl n fun x => { x with level := p.level + 1 }
      let mindex := lindex + (size - size / 2)
      let mlab := middle llab rlab
      let (m, left) ←
        rebuildRecursive cfg fuel m n array lindex mindex
          llab mlab
      let (m, right) ←
        rebuildRecursive cfg fuel m n array mindex rindex
          (mlab + 1) rlab
      let m ← m.setTl n fun x =>
        { x with
          left := some left
          right := some right
          label := rlab
          numLeaves := size }
      check (rlab % 2 = 1)
      return (m, n)

/- The new range of a leaf that becomes an internal node. -/
def openLeaf (cfg : Config) (m : Mem) (n : Nat) :
    Run Mem := do
  let m ← m.setTl n fun x => { x with below := .null }
  let x ← Mem.load m.tls n
  match x.parent with
  | some parent => do
      let p ← Mem.load m.tls parent
      let m ←
        if p.right = some n then
          m.setTl n fun x => { x with label := p.label }
        else
          m.setTl n fun x =>
            { x with
              label := (rangeRight p - rangeLeft cfg p) / 2 +
                rangeLeft cfg p }
      m.setTl n fun x => { x with level := p.level + 1 }
  | none =>
      m.setTl n fun x =>
        { x with level := 0, label := cfg.maxLabel }

/- Rebuild the subtree at a node that is not marked. -/
def rebuild (cfg : Config) (m : Mem) (n : Nat) : Run Mem := do
  let x ← Mem.load m.tls n
  let arraySize := x.numLeaves
  let wasLeaf := x.left = none ∧ x.right = none
  let array := LeafArray.new arraySize
  let (m, array) ←
    buildArrayOfLeaves cfg (m.tls.next + 1) m array (some n) 0
      arraySize
  let m ← if wasLeaf then openLeaf cfg m n else pure m
  let m ← m.setTl n fun x =>
    { x with left := none, right := none }
  let x ← Mem.load m.tls n
  let llab := rangeLeft cfg x
  let rlab := x.label
  check (rlab % 2 = 1)
  let mindex := arraySize - arraySize / 2
  let mlab := middle llab rlab
  let (m, left) ←
    rebuildRecursive cfg arraySize m n array 0 mindex llab mlab
  let (m, right) ←
    rebuildRecursive cfg arraySize m n array mindex arraySize
      (mlab + 1) rlab
  m.setTl n fun x =>
    { x with left := some left, right := some right }

------------------------------------------------------------
-- Rebalancing
------------------------------------------------------------

/- Whether there is a child and it is too heavy. -/
def childHeavy (cfg : Config) (m : Mem) (height : Nat) :
    Option Nat → Run Bool
| none => return false
| some child => do
    let c ← Mem.load m.tls child
    return tooHeavy cfg c height

/- Rebuild the marked subtrees whose children are too heavy. -/
def rebalance (cfg : Config) (height : Nat) :
    Nat → Mem → Option Nat → Run Mem
| _, m, none => return m
| 0, _, some _ => Except.error Fault.outOfFuel
| fuel + 1, m, some n => do
    let x ← Mem.load m.tls n
    if x.needsRebalance = false then return m
    else do
      let m ← m.setTl n fun x =>
        { x with needsRebalance := false }
      if isLeaf cfg x then rebuild cfg m n
      else do
        check (x.numLeaves ≤ capacity cfg x)
        let left ← deref x.left
        let l ← Mem.load m.tls left
        let rightHeavy ← childHeavy cfg m height x.right
        if tooHeavy cfg l height || rightHeavy then
          rebuild cfg m n
        else do
          let m ← rebalance cfg height fuel m x.left
          rebalance cfg height fuel m x.right

def omRebalance (cfg : Config) (m : Mem) (self : Om) :
    Run Mem :=
  rebalance cfg self.height (m.tls.next + 1) m (some self.root)

------------------------------------------------------------
-- Relabeling
------------------------------------------------------------

def fastLog2Ceil (cfg : Config) (x : Nat) : Nat :=
  if x = shiftOne cfg (Nat.log2 x) then Nat.log2 x
  else Nat.log2 x + 1

/-
  Count the new leaves and mark the nodes on the way to the
  root.  The height grows by one for each of the nodes.
-/
def updateSizes (extra : Nat) :
    Nat → Mem → Option Nat → Nat → Run (Mem × Nat)
| _, m, none, height => return (m, height)
| 0, _, some _, _ => Except.error Fault.outOfFuel
| fuel + 1, m, some current, height => do
    let x ← Mem.load m.tls current
    let m ← m.setTl current fun x =>
      { x with
        numLeaves := x.numLeaves + extra
        needsRebalance := true }
    updateSizes extra fuel m x.parent (height + 1)

/- Split the list of one heavy leaf. -/
def splitHeavy (cfg : Config) (m : Mem) (self : Om)
    (current : Nat) : Run (Mem × Om) := do
  let x ← Mem.load m.tls current
  check (x.level = cfg.maxLevel)
  check (x.parent ≠ none ∨ current = self.root)
  check (x.left = none ∧ x.right = none)
  let list ← x.below.asList
  let (m, numSplitLists) ← split cfg m list
  if 1 < numSplitLists then do
    let m ← m.setTl current fun x =>
      { x with left := none, right := none }
    let (m, height) ←
      updateSizes (numSplitLists - 1) (m.tls.next + 1) m
        (some current) (fastLog2Ceil cfg numSplitLists - 1)
    -- The compare-and-swap loop leaves the larger height.
    return (m, { self with height := max self.height height })
  else do
    let m ← m.setTl current fun x =>
      { x with needsRebalance := false }
    let x ← Mem.load m.tls current
    let node ← x.below.asSplitNodes
    let s ← Mem.load m.tls node
    let list ← s.below.asList
    let m ← m.setTl node fun s => { s with level := cfg.maxLevel }
    let m ← tlNodeFree m node
    let m ← m.setTl current fun x => { x with below := .list list }
    let m ← m.setList list fun l => { l with above := some current }
    return (m, self)

/- Split the lists of all heavy leaves. -/
def splitAllHeavy (cfg : Config) :
    Mem → Om → List Nat → Run (Mem × Om)
| m, self, [] => return (m, self)
| m, self, current :: rest => do
    let (m, self) ← splitHeavy cfg m self current
    splitAllHeavy cfg m self rest

/- The test for overflow of the label space. -/
def Overflow (cfg : Config) (oldSize newSize : Nat) : Prop :=
  newSize < oldSize ∨
    (cfg.maxLabel + 1 ≠ 0 ∧ (cfg.maxLabel + 1).toNat < newSize)

instance (cfg : Config) (oldSize newSize : Nat) :
    Decidable (Overflow cfg oldSize newSize) :=
  inferInstanceAs (Decidable (_ ∨ _))

def omRelabel (cfg : Config) (m : Mem) (self : Om)
    (heavyLists : List Nat) : Run (Mem × Om) := do
  let root ← Mem.load m.tls self.root
  let (m, self) ← splitAllHeavy cfg m self heavyLists
  let newRoot ← Mem.load m.tls self.root
  if Overflow cfg root.numLeaves newRoot.numLeaves then
    Except.error Fault.full
  else do
    let m ← omRebalance cfg m self
    return (m, self)

------------------------------------------------------------
-- The Structure
------------------------------------------------------------

/- A structure with one leaf and an empty list below it. -/
def omNew (cfg : Config) (m : Mem) : Run (Mem × Om) := do
  let (m, root) := tlNodeNew m
  let (m, list) := blNew m
  let m ← m.setTl root fun x => { x with below := .list list }
  let m ← m.setList list fun l => { l with above := some root }
  let m ← m.setTl root fun x =>
    { x with
      level := cfg.maxLevel
      numLeaves := 1
      label := 0
      needsRebalance := false
      parent := none
      left := none
      right := none }
  return (m, { root := root, head := root, tail := root
               height := 0 })

def omInsertInitial (m : Mem) (self : Om) :
    Run (Mem × Nat) := do
  let root ← Mem.load m.tls self.root
  check (root.numLeaves = 1)
  let list ← root.below.asList
  let (m, n) ← blInsertInitial m list
  let x ← Mem.load m.nodes n
  check (x.list = list)
  return (m, n)

def omInsert (cfg : Config) (m : Mem) (base : Nat) :
    Run (Mem × Option Nat) := do
  let b ← Mem.load m.nodes base
  let l ← Mem.load m.lists b.list
  let above ← deref l.above
  let a ← Mem.load m.tls above
  check (a.level = cfg.maxLevel)
  check (a.below = .list b.list)
  let (m, n) ← blInsert cfg m b.list base
  match n with
  | none => return (m, none)
  | some n => do
      let x ← Mem.load m.nodes n
      let b ← Mem.load m.nodes base
      check (b.label < x.label)
      return (m, some n)

/- Whether a node comes before another. -/
def omPrecedes (m : Mem) (x y : Option Nat) : Run Bool :=
  match x, y with
  | none, _ => return true
  | some _, none => return false
  | some x, some y => do
      let x ← Mem.load m.nodes x
      let y ← Mem.load m.nodes y
      if x.list = y.list then return x.label < y.label
      else do
        let k ← Mem.load m.lists x.list
        let l ← Mem.load m.lists y.list
        let a ← deref k.above
        let b ← deref l.above
        let s ← Mem.load m.tls a
        let t ← Mem.load m.tls b
        return s.label < t.label

end OrderMaint

end PRacer
