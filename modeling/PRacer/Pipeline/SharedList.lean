import Mathlib.Data.Option.Basic
import Mathlib.Order.Lattice
import Mathlib.Tactic.Common

/-
  Lists that one thread appends to while others read them
  (`List` in `list.cpp`), one access to memory at a time.

  Main declarations:
    * `SharedList.AppendPc`, `SharedList.appendStep`
    * `SharedList.GetPc`, `SharedList.getStep`
    * `SharedList.Keeps`, `SharedList.Keeps.appendStep`
-/

------------------------------------------------------------
-- Lists in Memory
------------------------------------------------------------

namespace PRacer

/-
  A list with its array.  The arrays that a list has had are
  numbered, and `live` is false while the present one has been
  deleted.  An entry that was never written is `none`.  The
  source keeps `top`, which is the length less one.
-/
structure SharedList (T : Type*) where
  array : Nat
  live : Bool
  p : List (Option T)
  length : Nat
  size : Nat
  index : Nat
deriving DecidableEq, Repr

namespace SharedList

variable {T : Type*}

/- The cursor `index` is set later, with the first element. -/
def new : SharedList T where
  array := 0
  live := true
  p := List.replicate 100 none
  length := 0
  size := 100
  index := 0

------------------------------------------------------------
-- Appending
------------------------------------------------------------

/-
  Where the owner of a list is in `append`: at the test for
  room, in `ExtendList` before the old array is deleted and
  before it is replaced, before the element is counted, and
  before it is written.
-/
inductive AppendPc where
| room
| deleteArray
| newArray
| count
| write
deriving DecidableEq, Repr

/-
  The next step of `append`, and where it leads, which is
  `none` once the element is in the list.  The copy that
  replaces the array is made before the array is deleted, from
  entries that only the owner writes.
-/
def appendStep
    (l : SharedList T) (element : T) :
    AppendPc → Option (SharedList T × Option AppendPc)
| .room =>
    if l.length = l.size then some (l, some .deleteArray)
    else some (l, some .count)
| .deleteArray => some ({ l with live := false }, some .newArray)
| .newArray =>
    some
      ({ l with
          array := l.array + 1
          live := true
          p := l.p ++ List.replicate 100 none
          size := l.size + 100 },
        some .count)
| .count => some ({ l with length := l.length + 1 }, some .write)
| .write =>
    if 0 < l.length ∧ l.length ≤ l.size then
      some
        ({ l with p := l.p.set (l.length - 1) (some element) },
          none)
    else none

------------------------------------------------------------
-- Reading
------------------------------------------------------------

/-
  The entry that is read through a pointer to an array.  It
  can be anything if the array has been deleted or the entry
  has not been written.
-/
def read
    (l : SharedList T) (array index : Nat) (anything : T) :
    T :=
  if array = l.array ∧ l.live = true then
    match l.p[index]? with
    | some (some element) => element
    | _ => anything
  else anything

/-
  Where a reader is in `get`: at the test of the index, before
  it reads the pointer to the array, and before it reads the
  entry through that pointer.
-/
inductive GetPc where
| length
| array
| entry (array : Nat)
deriving DecidableEq, Repr

/-
  The next step of `get`, which gives the element in the end.
  It is `none` where the source throws an exception.
-/
def getStep
    (l : SharedList T) (index : Nat) (anything : T) :
    GetPc → Option (Sum GetPc T)
| .length =>
    if index < l.length then some (.inl .array) else none
| .array => some (.inl (.entry l.array))
| .entry array => some (.inr (l.read array index anything))

/- `get` by the owner, which no other thread disturbs. -/
def get
    (l : SharedList T) (index : Nat) (anything : T) :
    Option T :=
  if index < l.length then
    some (l.read l.array index anything)
  else none

------------------------------------------------------------
-- What a List Keeps
------------------------------------------------------------

/-
  The list has the given elements while its owner is at a
  point of `append`, or outside of it.
-/
structure Keeps
    (l : SharedList T) (elements : List T)
    (pc : Option AppendPc) : Prop where
  size : l.p.length = l.size
  room : l.length ≤ l.size
  count : pc = some .count → l.length < l.size
  live : l.live = true ↔ pc ≠ some .newArray
  length : l.length =
    if pc = some .write then elements.length + 1
    else elements.length
  entry : ∀ (k : Nat) (element : T),
    elements[k]? = some element →
      l.p[k]? = some (some element)

theorem keeps_new : (new : SharedList T).Keeps [] none where
  size := List.length_replicate
  room := Nat.zero_le _
  count := by
    intro h
    cases h
  live := by simp [new]
  length := rfl
  entry := by
    intro k element h
    cases h

namespace Keeps

variable {l : SharedList T} {elements : List T}
variable {pc : Option AppendPc}

theorem length_le
    (h : l.Keeps elements pc) :
    elements.length ≤ l.length := by
  rw [h.length]
  split
  · exact Nat.le_succ _
  · exact le_rfl

/- The next call of `append` starts. -/
theorem append
    (h : l.Keeps elements none) :
    l.Keeps elements (some .room) where
  size := h.size
  room := h.room
  count := by
    intro hPc
    cases hPc
  live := by
    rw [h.live]
    simp
  length := by
    rw [h.length]
    rfl
  entry := h.entry

theorem setIndex
    (h : l.Keeps elements pc) (index : Nat) :
    { l with index := index }.Keeps elements pc where
  size := h.size
  room := h.room
  count := h.count
  live := h.live
  length := h.length
  entry := h.entry

/-
  A pointer to the present array gives every element that
  the list has, wherever its owner is.
-/
theorem read
    {k : Nat} {element anything : T}
    (h : l.Keeps elements pc)
    (hLive : l.live = true)
    (hElement : elements[k]? = some element) :
    l.read l.array k anything = element := by
  unfold SharedList.read
  rw [if_pos ⟨rfl, hLive⟩, h.entry k element hElement]

/- The owner gets the elements of its list. -/
theorem get
    {k : Nat} {element anything : T}
    (h : l.Keeps elements none)
    (hElement : elements[k]? = some element) :
    l.get k anything = some element := by
  have hLive : l.live = true := by
    rw [h.live]
    simp
  have hLt : k < elements.length := by
    by_contra hGe
    rw [List.getElem?_eq_none (not_lt.mp hGe)] at hElement
    cases hElement
  unfold SharedList.get
  rw [if_pos (hLt.trans_le h.length_le),
    h.read hLive hElement]

/- The owner gets the last element of its list. -/
theorem get_last
    (h : l.Keeps elements none)
    (hNe : elements ≠ []) (anything : T) :
    l.get (l.length - 1) anything =
      some (elements.getLast hNe) := by
  have hLength : l.length = elements.length := h.length
  apply h.get
  rw [hLength, ← List.getLast?_eq_getElem?,
    List.getLast?_eq_some_getLast hNe]

end Keeps

------------------------------------------------------------
-- Steps of the Owner
------------------------------------------------------------

/- The elements after a step of `append`. -/
def appended
    (elements : List T) (element : T) :
    Option AppendPc → List T
| none => elements ++ [element]
| some _ => elements

/- The steps that are left of `append`, at most. -/
def AppendPc.rank : AppendPc → Nat
| .room => 4
| .deleteArray => 3
| .newArray => 2
| .count => 1
| .write => 0

/- The owner goes on without a change of the elements. -/
theorem Keeps.moved
    {l : SharedList T} {elements : List T}
    {pc pc' : Option AppendPc} {live : Bool}
    (h : l.Keeps elements pc)
    (hOld : pc ≠ some .write)
    (hNew : pc' ≠ some .write)
    (hCount : pc' = some .count → l.length < l.size)
    (hLive : live = true ↔ pc' ≠ some .newArray) :
    { l with live := live }.Keeps elements pc' where
  size := h.size
  room := h.room
  count := hCount
  live := hLive
  length := by
    have hLength := h.length
    rw [if_neg hOld] at hLength
    rw [if_neg hNew]
    exact hLength
  entry := h.entry

/-
  No step of `append` gets stuck, the list never gets shorter,
  and it has the new element after the last step.
-/
theorem Keeps.appendStep
    {l : SharedList T} {elements : List T} {pc : AppendPc}
    (h : l.Keeps elements (some pc)) (element : T) :
    ∃ l' pc',
      l.appendStep element pc = some (l', pc') ∧
        l'.Keeps (appended elements element pc') pc' ∧
        l.length ≤ l'.length ∧ l'.index = l.index ∧
        ∀ q, pc' = some q → q.rank < pc.rank := by
  have hLength := h.length
  have hLive := h.live
  cases pc with
  | room =>
      unfold SharedList.appendStep
      dsimp only
      split
      · refine ⟨_, _, rfl, ?_, le_rfl, rfl, ?_⟩
        · exact h.moved (by simp) (by simp) (by simp)
            (by rw [hLive]; simp)
        · simp [AppendPc.rank]
      · rename_i hRoom
        refine ⟨_, _, rfl, ?_, le_rfl, rfl, ?_⟩
        · exact h.moved (by simp) (by simp)
            (fun _ => lt_of_le_of_ne h.room hRoom)
            (by rw [hLive]; simp)
        · simp [AppendPc.rank]
  | deleteArray =>
      refine ⟨_, _, rfl, ?_, le_rfl, rfl, ?_⟩
      · exact h.moved (by simp) (by simp) (by simp) (by simp)
      · simp [AppendPc.rank]
  | newArray =>
      refine ⟨_, _, rfl, ?_, le_rfl, rfl, ?_⟩
      · exact
          { size := by
              rw [List.length_append, h.size,
                List.length_replicate]
            room := h.room.trans (Nat.le_add_right _ _)
            count := fun _ =>
              Nat.lt_of_le_of_lt h.room (Nat.lt_add_of_pos_right
                (by decide))
            live := by simp
            length := by simpa [appended] using hLength
            entry := by
              intro k e hElement
              have hOld := h.entry k e hElement
              have hLt := (List.getElem?_eq_some_iff.mp hOld).1
              dsimp only
              rw [List.getElem?_append_left hLt]
              exact hOld }
      · simp [AppendPc.rank]
  | count =>
      refine ⟨_, _, rfl, ?_, Nat.le_succ _, rfl, ?_⟩
      · exact
          { size := h.size
            room := h.count rfl
            count := by simp
            live := by simpa using hLive
            length := by simpa [appended] using hLength
            entry := h.entry }
      · simp [AppendPc.rank]
  | write =>
      rw [if_pos rfl] at hLength
      have hPos : 0 < l.length := by
        rw [hLength]
        exact Nat.succ_pos _
      unfold SharedList.appendStep
      dsimp only
      rw [if_pos ⟨hPos, h.room⟩]
      refine ⟨_, _, rfl, ?_, le_rfl, rfl, by simp⟩
      exact
        { size := by
            rw [List.length_set]
            exact h.size
          room := h.room
          count := by simp
          live := by simpa using hLive
          length := by simpa [appended] using hLength
          entry := by
            intro k e hElement
            have hLast : l.length - 1 = elements.length := by
              omega
            have hRoom : elements.length < l.p.length := by
              have := h.room
              rw [h.size]
              omega
            dsimp only
            rw [hLast]
            change (elements ++ [element])[k]? = some e
              at hElement
            rcases lt_trichotomy k elements.length with
              hOld | rfl | hOut
            · rw [List.getElem?_append_left hOld] at hElement
              rw [List.getElem?_set_ne hOld.ne']
              exact h.entry k e hElement
            · rw [List.getElem?_concat_length] at hElement
              rw [List.getElem?_set_self hRoom, hElement]
            · rw [List.getElem?_eq_none (by
                rw [List.length_append]
                exact hOut)] at hElement
              cases hElement }

end SharedList

end PRacer
