import PRacer.Foundations.TransitionSystem
import PRacer.ShadowTable.Refinement

/-
  Insertions for one key by any number of workers at a time,
  down to the single accesses to the shared memory.

  Main declarations:
    * `insertStep`, `insertSystem`
    * `RaceInv`, `raceInv_of_reachable`
    * `Agreed`, `refinement`
-/

------------------------------------------------------------
-- Steps of an Insertion
------------------------------------------------------------

namespace PRacer

open Foundations

namespace ShadowTable

/- Where a worker is in `insert`. -/
inductive Pc (T : Type) where
| start
| offeringTbl (newTbl : Nat)
| atSlot (slot : Slot)
| offeringEntry (slot : Slot)
| returned (val : T)
deriving DecidableEq, Repr

/-
  The code of `insert` up to the next access to the directory
  or to an entry.  Each access is one step.
-/
def insertStep {T : Type} (key : BitVec 64) (own : T)
    (m : ShadowDir T) : Pc T → Run (ShadowDir T × Pc T)
| .start => do
    let tbl ← m.loadDir (dirIndex key)
    match tbl with
    | some tbl =>
        return (m, .atSlot
          { tbl := tbl, index := tblIndex key })
    | none =>
        let (m, newTbl) := m.tblNew
        return (m, .offeringTbl newTbl)
| .offeringTbl newTbl => do
    let (m, old) ← m.casDir (dirIndex key) newTbl
    match old with
    | none => return (m, .offeringTbl newTbl)
    | some tbl =>
        let m := if tbl ≠ newTbl then m.tblDelete newTbl else m
        return (m, .atSlot
          { tbl := tbl, index := tblIndex key })
| .atSlot slot => do
    let old ← m.loadSlot slot
    match old with
    | none => return (m, .offeringEntry slot)
    | some val => return (m, .returned val)
| .offeringEntry slot => do
    let (m, old) ← m.casSlot slot own
    match old with
    | none => return (m, .offeringEntry slot)
    | some val => return (m, .returned val)
| .returned val => return (m, .returned val)

/- The memory and the places of all workers. -/
structure RaceState (ι T : Type) where
  mem : ShadowDir T
  pc : ι → Pc T

variable {ι T : Type} [DecidableEq ι]

/- A worker that has not returned takes a step. -/
def insertSystem (m₀ : ShadowDir T) (key : BitVec 64)
    (val : ι → T) : TransitionSystem (RaceState ι T) ι where
  init s := s = { mem := m₀, pc := fun _ => .start }
  step s i t :=
    (∀ v, s.pc i ≠ .returned v) ∧
      ∃ next,
        insertStep key (val i) s.mem (s.pc i) =
          Except.ok (t.mem, next) ∧
        t.pc = Function.update s.pc i next

------------------------------------------------------------
-- The Invariant
------------------------------------------------------------

/-
  What a worker knows.  A table that it offers is the one in
  the directory, or empty and not in the directory.
-/
def Holds (m : ShadowDir T) (key : BitVec 64) : Pc T → Prop
| .start => True
| .offeringTbl newTbl =>
    m.shadowDir (dirIndex key) = some newTbl ∨
      m.tbls.get newTbl = some ShadowTbl.new ∧
        ∀ j, m.shadowDir j ≠ some newTbl
| .atSlot slot | .offeringEntry slot =>
    m.shadowDir (dirIndex key) = some slot.tbl ∧
      slot.index = tblIndex key
| .returned v => m.toMap key = some v

structure RaceInv
    (m₀ : ShadowDir T) (key : BitVec 64) (val : ι → T)
    (s : RaceState ι T) : Prop where
  wellFormed : s.mem.WellFormed
  holds : ∀ i, Holds s.mem key (s.pc i)
  distinct : ∀ i j n, s.pc i = .offeringTbl n →
    s.pc j = .offeringTbl n → i = j
  owner : ∀ v, s.mem.toMap key = some v →
    ∃ i, val i = v ∧
      ((∃ slot, s.pc i = .offeringEntry slot) ∨
        s.pc i = .returned v)
  others : ∀ key', key' ≠ key →
    s.mem.toMap key' = m₀.toMap key'

/-
  What a step of a worker does: its new place, and what it
  changes in memory.
-/
inductive Stepped
    (key : BitVec 64) (own : T) (m m' : ShadowDir T) :
    Pc T → Pc T → Prop
| enter (p : Nat) :
    m.shadowDir (dirIndex key) = some p → m' = m →
    Stepped key own m m' .start
      (.atSlot { tbl := p, index := tblIndex key })
| allocate :
    m.shadowDir (dirIndex key) = none → m' = m.tblNew.1 →
    Stepped key own m m' .start (.offeringTbl m.tbls.next)
| store (n : Nat) :
    m.shadowDir (dirIndex key) = none →
    m' = m.publish (dirIndex key) n →
    Stepped key own m m' (.offeringTbl n) (.offeringTbl n)
| won (n : Nat) :
    m.shadowDir (dirIndex key) = some n → m' = m →
    Stepped key own m m' (.offeringTbl n)
      (.atSlot { tbl := n, index := tblIndex key })
| lost (n p : Nat) :
    m.shadowDir (dirIndex key) = some p → p ≠ n →
    m' = m.tblDelete n →
    Stepped key own m m' (.offeringTbl n)
      (.atSlot { tbl := p, index := tblIndex key })
| empty (p : Nat) :
    m.shadowDir (dirIndex key) = some p →
    m.toMap key = none → m' = m →
    Stepped key own m m'
      (.atSlot { tbl := p, index := tblIndex key })
      (.offeringEntry { tbl := p, index := tblIndex key })
| write (p : Nat) :
    m.shadowDir (dirIndex key) = some p →
    m.toMap key = none →
    m' = m.setSlot { tbl := p, index := tblIndex key }
      (some own) →
    Stepped key own m m'
      (.offeringEntry { tbl := p, index := tblIndex key })
      (.offeringEntry { tbl := p, index := tblIndex key })
| read (p : Nat) (v : T) :
    m.shadowDir (dirIndex key) = some p →
    m.toMap key = some v → m' = m →
    Stepped key own m m'
      (.atSlot { tbl := p, index := tblIndex key })
      (.returned v)
| reread (p : Nat) (v : T) :
    m.shadowDir (dirIndex key) = some p →
    m.toMap key = some v → m' = m →
    Stepped key own m m'
      (.offeringEntry { tbl := p, index := tblIndex key })
      (.returned v)

/- A compare-and-swap on a cell that is filled. -/
theorem ShadowDir.casDir_of_some
    {m : ShadowDir T} {key : BitVec 64} {p : Nat}
    (hKey : InSpace key)
    (hDir : m.shadowDir (dirIndex key) = some p)
    (own : Nat) :
    m.casDir (dirIndex key) own = Except.ok (m, some p) := by
  unfold casDir
  rw [loadDir_of_inSpace hKey, ok_bind, hDir]
  have hSame : Function.update m.shadowDir (dirIndex key)
      (some p) = m.shadowDir := by
    rw [← hDir, Function.update_eq_self]
  show Except.ok
    ({ m with
      shadowDir := Function.update m.shadowDir (dirIndex key)
        (some p) }, some p) = _
  rw [hSame]

theorem ShadowDir.casDir_of_none
    {m : ShadowDir T} {key : BitVec 64}
    (hKey : InSpace key)
    (hDir : m.shadowDir (dirIndex key) = none)
    (own : Nat) :
    m.casDir (dirIndex key) own =
      Except.ok (m.publish (dirIndex key) own, none) := by
  unfold casDir
  rw [loadDir_of_inSpace hKey, ok_bind, hDir]
  rfl

/- A worker that has not returned can take a step. -/
theorem exists_stepped
    {m : ShadowDir T} {key : BitVec 64} {pc : Pc T}
    (hKey : InSpace key)
    (hWf : m.WellFormed)
    (hHolds : Holds m key pc)
    (hNot : ∀ v, pc ≠ .returned v) (own : T) :
    ∃ m' next,
      insertStep key own m pc = Except.ok (m', next) ∧
        Stepped key own m m' pc next := by
  cases pc with
  | start =>
      unfold insertStep
      rw [ShadowDir.loadDir_of_inSpace hKey, ok_bind]
      cases hDir : m.shadowDir (dirIndex key) with
      | none => exact ⟨_, _, rfl, .allocate hDir rfl⟩
      | some p => exact ⟨_, _, rfl, .enter p hDir rfl⟩
  | offeringTbl n =>
      unfold insertStep
      dsimp only
      cases hDir : m.shadowDir (dirIndex key) with
      | none =>
          rw [ShadowDir.casDir_of_none hKey hDir, ok_bind]
          exact ⟨_, _, rfl, .store n hDir rfl⟩
      | some p =>
          rw [ShadowDir.casDir_of_some hKey hDir, ok_bind]
          by_cases hp : p = n
          · subst hp
            refine ⟨m, _, ?_, .won p hDir rfl⟩
            simp
            rfl
          · refine ⟨m.tblDelete n, _, ?_,
              .lost n p hDir hp rfl⟩
            simp [hp]
            rfl
  | atSlot slot =>
      rcases slot with ⟨p, index⟩
      rcases hHolds with ⟨hDir, hIndex⟩
      change index = tblIndex key at hIndex
      subst hIndex
      unfold insertStep
      dsimp only
      rw [hWf.loadSlot_eq hDir, ok_bind]
      cases hMap : m.toMap key with
      | none => exact ⟨_, _, rfl, .empty p hDir hMap rfl⟩
      | some v => exact ⟨_, _, rfl, .read p v hDir hMap rfl⟩
  | offeringEntry slot =>
      rcases slot with ⟨p, index⟩
      rcases hHolds with ⟨hDir, hIndex⟩
      change index = tblIndex key at hIndex
      subst hIndex
      have hLoad := hWf.loadSlot_eq hDir
      unfold insertStep
      dsimp only
      cases hMap : m.toMap key with
      | none =>
          rw [hMap] at hLoad
          rw [ShadowDir.casSlot_of_none hLoad, ok_bind]
          exact ⟨_, _, rfl, .write p hDir hMap rfl⟩
      | some v =>
          rw [hMap] at hLoad
          rw [ShadowDir.casSlot_of_some hLoad, ok_bind]
          exact ⟨_, _, rfl, .reread p v hDir hMap rfl⟩
  | returned v => exact absurd rfl (hNot v)

------------------------------------------------------------
-- What the Steps Do to the Memory
------------------------------------------------------------

namespace ShadowDir

theorem WellFormed.tblDelete
    {m : ShadowDir T} {n : Nat}
    (h : m.WellFormed)
    (hOut : ∀ j, m.shadowDir j ≠ some n) :
    (m.tblDelete n).WellFormed := by
  refine ⟨?_, h.distinct⟩
  intro j p hDir
  rcases h.live j p hDir with ⟨tbl, hGet⟩
  have hNe : p ≠ n := by
    intro hEq
    subst hEq
    exact hOut j hDir
  refine ⟨tbl, ?_⟩
  unfold ShadowDir.tblDelete
  rw [Heap.get_free, if_neg hNe]
  exact hGet

theorem toMap_tblDelete
    {m : ShadowDir T} {n : Nat}
    (hOut : ∀ j, m.shadowDir j ≠ some n) :
    (m.tblDelete n).toMap = m.toMap := by
  funext key
  unfold toMap ShadowDir.tblDelete
  dsimp only
  cases hDir : m.shadowDir (dirIndex key) with
  | none => rfl
  | some p =>
      have hNe : p ≠ n := by
        intro hEq
        subst hEq
        exact hOut _ hDir
      rw [Option.bind_some, Option.bind_some, Heap.get_free,
        if_neg hNe]

end ShadowDir

/- A worker whose table was not taken still owns it. -/
theorem Holds.fresh
    {m : ShadowDir T} {key : BitVec 64} {n : Nat}
    (h : Holds m key (.offeringTbl n))
    (hNot : m.shadowDir (dirIndex key) ≠ some n) :
    m.Fresh n := by
  rcases h with hIn | hFresh
  · exact absurd hIn hNot
  · exact hFresh

theorem Stepped.wellFormed
    {m m' : ShadowDir T} {key : BitVec 64} {own : T}
    {pc next : Pc T}
    (h : Stepped key own m m' pc next)
    (hWf : m.WellFormed)
    (hHolds : Holds m key pc) :
    m'.WellFormed := by
  cases h with
  | enter p hDir hEq => exact hEq ▸ hWf
  | allocate hDir hEq => exact hEq ▸ hWf.tblNew
  | store n hDir hEq =>
      have hFresh := hHolds.fresh (by rw [hDir]; simp)
      exact hEq ▸ hWf.publish hFresh _
  | won n hDir hEq => exact hEq ▸ hWf
  | lost n p hDir hp hEq =>
      have hFresh := hHolds.fresh (by rw [hDir]; simp [hp])
      exact hEq ▸ hWf.tblDelete hFresh.2
  | empty p hDir hMap hEq => exact hEq ▸ hWf
  | write p hDir hMap hEq => exact hEq ▸ hWf.setSlot _ _
  | read p v hDir hMap hEq => exact hEq ▸ hWf
  | reread p v hDir hMap hEq => exact hEq ▸ hWf

/- Only the first entry that is offered changes the map. -/
theorem Stepped.toMap
    {m m' : ShadowDir T} {key : BitVec 64} {own : T}
    {pc next : Pc T}
    (h : Stepped key own m m' pc next)
    (hWf : m.WellFormed)
    (hHolds : Holds m key pc) :
    m'.toMap = m.toMap ∨
      m.toMap key = none ∧
        m'.toMap = Function.update m.toMap key (some own) ∧
        ∃ slot, next = .offeringEntry slot := by
  cases h with
  | enter p hDir hEq => exact Or.inl (by rw [hEq])
  | allocate hDir hEq =>
      rw [hEq]
      exact Or.inl hWf.toMap_tblNew
  | store n hDir hEq =>
      have hFresh := hHolds.fresh (by rw [hDir]; simp)
      rw [hEq]
      exact Or.inl (ShadowDir.toMap_publish hFresh hDir)
  | won n hDir hEq => exact Or.inl (by rw [hEq])
  | lost n p hDir hp hEq =>
      have hFresh := hHolds.fresh (by rw [hDir]; simp [hp])
      rw [hEq]
      exact Or.inl (ShadowDir.toMap_tblDelete hFresh.2)
  | empty p hDir hMap hEq => exact Or.inl (by rw [hEq])
  | write p hDir hMap hEq =>
      rw [hEq]
      exact Or.inr ⟨hMap, hWf.toMap_setSlot hDir _, _, rfl⟩
  | read p v hDir hMap hEq => exact Or.inl (by rw [hEq])
  | reread p v hDir hMap hEq => exact Or.inl (by rw [hEq])

/- What is in place for the key stays. -/
structure Grows
    (key : BitVec 64) (m m' : ShadowDir T) : Prop where
  dir : ∀ p, m.shadowDir (dirIndex key) = some p →
    m'.shadowDir (dirIndex key) = some p
  entry : ∀ v, m.toMap key = some v → m'.toMap key = some v

theorem Stepped.grows
    {m m' : ShadowDir T} {key : BitVec 64} {own : T}
    {pc next : Pc T}
    (h : Stepped key own m m' pc next)
    (hWf : m.WellFormed)
    (hHolds : Holds m key pc) :
    Grows key m m' := by
  have hMap := h.toMap hWf hHolds
  constructor
  · intro p hp
    cases h with
    | store n hDir hEq =>
        rw [hDir] at hp
        cases hp
    | enter _ _ hEq => rw [hEq, hp]
    | allocate _ hEq => rw [hEq]; exact hp
    | won _ _ hEq => rw [hEq, hp]
    | lost _ _ _ _ hEq => rw [hEq]; exact hp
    | empty _ _ _ hEq => rw [hEq, hp]
    | write _ _ _ hEq => rw [hEq]; exact hp
    | read _ _ _ _ hEq => rw [hEq, hp]
    | reread _ _ _ _ hEq => rw [hEq, hp]
  · intro v hv
    rcases hMap with hSame | ⟨hNone, -, -⟩
    · rw [hSame, hv]
    · rw [hNone] at hv
      cases hv

/- What another worker knows stays true. -/
theorem Stepped.holds_other
    {m m' : ShadowDir T} {key : BitVec 64} {own : T}
    {pc next pc' : Pc T}
    (h : Stepped key own m m' pc next)
    (hWf : m.WellFormed)
    (hHolds : Holds m key pc)
    (hOther : Holds m key pc')
    (hDistinct : ∀ n, pc = .offeringTbl n →
      pc' ≠ .offeringTbl n) :
    Holds m' key pc' := by
  have hGrows := h.grows hWf hHolds
  cases pc' with
  | start => trivial
  | offeringTbl n' =>
      rcases hOther with hIn | ⟨hGet, hOut⟩
      · exact Or.inl (hGrows.dir n' hIn)
      · cases h with
        | enter _ _ hEq => exact Or.inr (hEq ▸ ⟨hGet, hOut⟩)
        | allocate hDir hEq =>
            rw [hEq]
            exact Or.inr ⟨Heap.get_alloc_of_get _ hGet, hOut⟩
        | store n hDir hEq =>
            rw [hEq]
            refine Or.inr ⟨hGet, ?_⟩
            intro j hj
            rw [ShadowDir.shadowDir_publish] at hj
            split at hj
            · cases hj
              exact hDistinct _ rfl rfl
            · exact hOut j hj
        | won _ _ hEq => exact Or.inr (hEq ▸ ⟨hGet, hOut⟩)
        | lost n p hDir hp hEq =>
            have hNe : n' ≠ n := by
              intro hEqN
              subst hEqN
              exact hDistinct _ rfl rfl
            rw [hEq]
            refine Or.inr ⟨?_, hOut⟩
            unfold ShadowDir.tblDelete
            rw [Heap.get_free, if_neg hNe]
            exact hGet
        | empty _ _ _ hEq => exact Or.inr (hEq ▸ ⟨hGet, hOut⟩)
        | write p hDir hMap hEq =>
            have hNe : n' ≠ p := by
              intro hEqN
              subst hEqN
              exact hOut _ hDir
            rw [hEq]
            refine Or.inr ⟨?_, hOut⟩
            unfold ShadowDir.setSlot
            rw [Heap.get_modify_of_ne _ hNe]
            exact hGet
        | read _ _ _ _ hEq => exact Or.inr (hEq ▸ ⟨hGet, hOut⟩)
        | reread _ _ _ _ hEq =>
            exact Or.inr (hEq ▸ ⟨hGet, hOut⟩)
  | atSlot slot => exact ⟨hGrows.dir _ hOther.1, hOther.2⟩
  | offeringEntry slot =>
      exact ⟨hGrows.dir _ hOther.1, hOther.2⟩
  | returned v => exact hGrows.entry v hOther

/- What the worker itself knows after its step. -/
theorem Stepped.holds_next
    {m m' : ShadowDir T} {key : BitVec 64} {own : T}
    {pc next : Pc T}
    (h : Stepped key own m m' pc next)
    (hWf : m.WellFormed)
    (hHolds : Holds m key pc) :
    Holds m' key next := by
  have hGrows := h.grows hWf hHolds
  cases h with
  | enter p hDir hEq => exact ⟨hGrows.dir p hDir, rfl⟩
  | allocate hDir hEq =>
      rw [hEq]
      refine Or.inr ⟨Heap.get_alloc_self _, ?_⟩
      intro j hj
      rcases hWf.live j _ hj with ⟨tbl, hGet⟩
      have := Heap.lt_next hGet
      omega
  | store n hDir hEq =>
      rw [hEq]
      refine Or.inl ?_
      rw [ShadowDir.shadowDir_publish, if_pos rfl]
  | won n hDir hEq => exact ⟨hGrows.dir n hDir, rfl⟩
  | lost n p hDir hp hEq => exact ⟨hGrows.dir p hDir, rfl⟩
  | empty p hDir hMap hEq => exact ⟨hGrows.dir p hDir, rfl⟩
  | write p hDir hMap hEq => exact ⟨hGrows.dir p hDir, rfl⟩
  | read p v hDir hMap hEq => exact hGrows.entry v hMap
  | reread p v hDir hMap hEq => exact hGrows.entry v hMap

/- A table that is offered is new or was offered before. -/
theorem Stepped.offered
    {m m' : ShadowDir T} {key : BitVec 64} {own : T}
    {pc next : Pc T} {n : Nat}
    (h : Stepped key own m m' pc next)
    (hNext : next = .offeringTbl n) :
    pc = .offeringTbl n ∨ n = m.tbls.next := by
  cases h with
  | allocate => cases hNext; exact Or.inr rfl
  | store => cases hNext; exact Or.inl rfl
  | enter | won | lost | empty | write | read | reread =>
      cases hNext

/- Tables that are offered have been allocated. -/
theorem Holds.lt_next
    {m : ShadowDir T} {key : BitVec 64} {n : Nat}
    (h : Holds m key (.offeringTbl n))
    (hWf : m.WellFormed) :
    n < m.tbls.next := by
  rcases h with hIn | ⟨hGet, -⟩
  · rcases hWf.live _ n hIn with ⟨tbl, hGet⟩
    exact Heap.lt_next hGet
  · exact Heap.lt_next hGet

------------------------------------------------------------
-- All Interleavings
------------------------------------------------------------

section

variable {m₀ : ShadowDir T} {key : BitVec 64} {val : ι → T}
variable {s t : RaceState ι T} {i : ι}

/- A step of the system is a step of its worker. -/
theorem RaceInv.stepped
    (h : RaceInv m₀ key val s)
    (hKey : InSpace key)
    (hStep : (insertSystem m₀ key val).step s i t) :
    ∃ next, Stepped key (val i) s.mem t.mem (s.pc i) next ∧
      t.pc = Function.update s.pc i next := by
  rcases hStep with ⟨hNot, next, hRun, hPc⟩
  rcases exists_stepped hKey h.wellFormed (h.holds i) hNot
    (val i) with ⟨m', next', hRun', hStepped⟩
  rw [hRun'] at hRun
  cases hRun
  exact ⟨next, hStepped, hPc⟩

theorem RaceInv.step
    (h : RaceInv m₀ key val s)
    (hKey : InSpace key)
    (hStep : (insertSystem m₀ key val).step s i t) :
    RaceInv m₀ key val t := by
  rcases h.stepped hKey hStep with ⟨next, hStepped, hPc⟩
  have hWf := h.wellFormed
  have hMap := hStepped.toMap hWf (h.holds i)
  have hNext : t.pc i = next := by
    rw [hPc, Function.update_self]
  have hSame : ∀ j, j ≠ i → t.pc j = s.pc j := by
    intro j hj
    rw [hPc, Function.update_of_ne hj]
  constructor
  · exact hStepped.wellFormed hWf (h.holds i)
  · intro j
    by_cases hj : j = i
    · rw [hj, hNext]
      exact hStepped.holds_next hWf (h.holds i)
    · rw [hSame j hj]
      apply hStepped.holds_other hWf (h.holds i) (h.holds j)
      intro n hi hjn
      exact hj (h.distinct j i n hjn hi)
  · -- A table that was just allocated is offered by no other.
    have hOnly : ∀ j n, j ≠ i → t.pc i = .offeringTbl n →
        t.pc j ≠ .offeringTbl n := by
      intro j n hj hi hjn
      rw [hNext] at hi
      rw [hSame j hj] at hjn
      rcases hStepped.offered hi with hOld | hNew
      · exact hj (h.distinct j i n hjn hOld)
      · have hHolds := h.holds j
        rw [hjn] at hHolds
        have := hHolds.lt_next hWf
        omega
    intro j k n hj hk
    by_cases hji : j = i
    · subst hji
      by_contra hNe
      exact hOnly k n (Ne.symm hNe) hj hk
    · by_cases hki : k = i
      · subst hki
        exact absurd hj (hOnly j n hji hk)
      · rw [hSame j hji] at hj
        rw [hSame k hki] at hk
        exact h.distinct j k n hj hk
  · intro v hv
    rcases hMap with hKeep | ⟨-, hWrite, slot, hSlot⟩
    · rw [hKeep] at hv
      rcases h.owner v hv with ⟨j, hVal, hPlace⟩
      refine ⟨j, hVal, ?_⟩
      by_cases hj : j = i
      · subst hj
        rw [hNext]
        rcases hPlace with ⟨slot, hOffer⟩ | hReturned
        · rw [hOffer] at hStepped
          cases hStepped with
          | write p hDir hNone hEq => exact Or.inl ⟨_, rfl⟩
          | reread p w hDir hSome hEq =>
              rw [hSome] at hv
              cases hv
              exact Or.inr rfl
        · exact absurd hReturned (hStep.1 v)
      · rw [hSame j hj]
        exact hPlace
    · rw [hWrite, Function.update_self] at hv
      refine ⟨i, Option.some.inj hv, Or.inl ⟨slot, ?_⟩⟩
      rw [hNext, hSlot]
  · intro key' hNe
    rcases hMap with hKeep | ⟨-, hWrite, -⟩
    · rw [hKeep]
      exact h.others key' hNe
    · rw [hWrite, Function.update_of_ne hNe]
      exact h.others key' hNe

omit [DecidableEq ι] in
theorem raceInv_init
    (hWf : m₀.WellFormed)
    (hEmpty : m₀.toMap key = none) :
    RaceInv m₀ key val { mem := m₀, pc := fun _ => .start } := by
  refine ⟨hWf, fun _ => trivial, ?_, ?_, fun _ _ => rfl⟩
  · intro i j n hi
    cases hi
  · intro v hv
    rw [show m₀.toMap key = _ from hEmpty] at hv
    cases hv

------------------------------------------------------------
-- The Loops End
------------------------------------------------------------

/- The steps that a worker has left, at most. -/
def stepsLeft (m : ShadowDir T) (key : BitVec 64) :
    Pc T → Nat
| .start => 6
| .offeringTbl _ =>
    if m.shadowDir (dirIndex key) = none then 5 else 4
| .atSlot _ => 3
| .offeringEntry _ =>
    if (m.toMap key).isNone then 2 else 1
| .returned _ => 0

theorem Stepped.stepsLeft_lt
    {m m' : ShadowDir T} {own : T} {pc next : Pc T}
    (h : Stepped key own m m' pc next)
    (hWf : m.WellFormed)
    (hHolds : Holds m key pc) :
    stepsLeft m' key next < stepsLeft m key pc := by
  cases h with
  | enter | read => simp [stepsLeft]
  | allocate | won | lost | empty | reread =>
      simp only [stepsLeft]
      split <;> omega
  | store n hDir hEq =>
      have hNew : m'.shadowDir (dirIndex key) = some n := by
        rw [hEq, ShadowDir.shadowDir_publish, if_pos rfl]
      simp [stepsLeft, hDir, hNew]
  | write p hDir hMap hEq =>
      have hNew : m'.toMap key = some own := by
        rw [hEq, hWf.toMap_setSlot hDir _, Function.update_self]
      simp [stepsLeft, hMap, hNew]

/- Steps of other workers leave a worker no more to do. -/
theorem Grows.stepsLeft_le
    {m m' : ShadowDir T}
    (h : Grows key m m') (pc : Pc T) :
    stepsLeft m' key pc ≤ stepsLeft m key pc := by
  cases pc with
  | start | atSlot | returned => exact le_refl _
  | offeringTbl n =>
      simp only [stepsLeft]
      cases hDir : m.shadowDir (dirIndex key) with
      | none => split <;> simp
      | some p => simp [h.dir p hDir]
  | offeringEntry slot =>
      simp only [stepsLeft]
      cases hMap : m.toMap key with
      | none => split <;> simp
      | some v => simp [h.entry v hMap]

/- What every run keeps. -/
theorem raceInv_of_run
    {acts : List ι}
    (hWf : m₀.WellFormed)
    (hKey : InSpace key)
    (hEmpty : m₀.toMap key = none)
    (hRun : (insertSystem m₀ key val).Run
      { mem := m₀, pc := fun _ => .start } acts s) :
    RaceInv m₀ key val s ∧
      ∀ i, acts.count i + stepsLeft s.mem key (s.pc i) ≤ 6 := by
  induction hRun with
  | refl => exact ⟨raceInv_init hWf hEmpty, fun i => le_refl 6⟩
  | @tail s₁ t acts i hRun hStep ih =>
      rcases ih with ⟨hInv, hCount⟩
      refine ⟨hInv.step hKey hStep, ?_⟩
      rcases hInv.stepped hKey hStep with
        ⟨next, hStepped, hPc⟩
      have hGrows :=
        hStepped.grows hInv.wellFormed (hInv.holds i)
      intro j
      have hOld := hCount j
      rw [List.count_append, hPc]
      by_cases hj : j = i
      · subst hj
        have := hStepped.stepsLeft_lt hInv.wellFormed
          (hInv.holds j)
        rw [Function.update_self, List.count_singleton_self]
        omega
      · have := hGrows.stepsLeft_le (s₁.pc j)
        rw [Function.update_of_ne hj,
          List.count_singleton, beq_eq_false_iff_ne.mpr
            (Ne.symm hj)]
        simp only [Bool.false_eq_true, if_false]
        omega

end

------------------------------------------------------------
-- The Refinement
------------------------------------------------------------

/-
  What holds after any steps of insertions for one key: no
  worker is stuck or goes on forever, and they agree on one
  entry, which `find` returns.
-/
structure Agreed
    (m₀ : ShadowDir T) (key : BitVec 64) (val : ι → T)
    (acts : List ι) (s : RaceState ι T) : Prop where
  ends : ∀ i, acts.count i ≤ 6
  proceeds : ∀ i, (∃ v, s.pc i = .returned v) ∨
    ∃ t, (insertSystem m₀ key val).step s i t
  same : ∀ i j v w, s.pc i = .returned v →
    s.pc j = .returned w → v = w
  found : ∀ i v, s.pc i = .returned v →
    s.mem.find key = Except.ok (some v)
  owner : (∀ i, ∃ v, s.pc i = .returned v) → Nonempty ι →
    ∃ i, s.pc i = .returned (val i) ∧
      ∀ j, s.pc j = .returned (val j) → j = i
  others : ∀ key', InSpace key' → key' ≠ key →
    s.mem.find key' = m₀.find key'

theorem agreed_of_run
    {m₀ : ShadowDir T} {key : BitVec 64} {val : ι → T}
    {acts : List ι} {s : RaceState ι T}
    (hWf : m₀.WellFormed)
    (hKey : InSpace key)
    (hEmpty : m₀.toMap key = none)
    (hVal : Function.Injective val)
    (hRun : (insertSystem m₀ key val).Run
      { mem := m₀, pc := fun _ => .start } acts s) :
    Agreed m₀ key val acts s := by
  rcases raceInv_of_run hWf hKey hEmpty hRun with
    ⟨hInv, hCount⟩
  have hReturned : ∀ i v, s.pc i = .returned v →
      s.mem.toMap key = some v := by
    intro i v hi
    have hHolds := hInv.holds i
    rw [hi] at hHolds
    exact hHolds
  have hSame : ∀ i j v w, s.pc i = .returned v →
      s.pc j = .returned w → v = w := by
    intro i j v w hi hj
    have hv := hReturned i v hi
    rw [hReturned j w hj] at hv
    exact (Option.some.inj hv).symm
  constructor
  · intro i
    have := hCount i
    omega
  · intro i
    by_cases hDone : ∃ v, s.pc i = .returned v
    · exact Or.inl hDone
    · have hNot : ∀ v, s.pc i ≠ .returned v :=
        fun v hv => hDone ⟨v, hv⟩
      rcases exists_stepped hKey hInv.wellFormed
        (hInv.holds i) hNot (val i) with
        ⟨m', next, hRun, -⟩
      exact Or.inr ⟨{ mem := m'
                      pc := Function.update s.pc i next },
        hNot, next, hRun, rfl⟩
  · exact hSame
  · intro i v hi
    rw [ShadowDir.find_eq hInv.wellFormed hKey,
      hReturned i v hi]
  · intro hAll hNonempty
    rcases hNonempty with ⟨i₀⟩
    rcases hAll i₀ with ⟨v, hv⟩
    rcases hInv.owner v (hReturned i₀ v hv) with
      ⟨i, hOwn, hPlace⟩
    have hi : s.pc i = .returned (val i) := by
      rcases hPlace with ⟨slot, hOffer⟩ | hDone
      · rcases hAll i with ⟨w, hw⟩
        rw [hOffer] at hw
        cases hw
      · rw [hDone, hOwn]
    refine ⟨i, hi, ?_⟩
    intro j hj
    exact hVal (hSame j i _ _ hj hi)
  · intro key' hKey' hNe
    rw [ShadowDir.find_eq hInv.wellFormed hKey',
      ShadowDir.find_eq hWf hKey', hInv.others key' hNe]

/-
  The tables are one map from blocks to entries for every
  sequence of operations, and insertions for an empty block
  at the same time agree.
-/
theorem refinement
    (m : ShadowDir T) (f : Nat → Option T)
    (hRep : Represents m f) :
    (∀ ops : List (Op T),
      (∀ op ∈ ops, op.addr.toNat < 2 ^ 48) →
        ∃ m', run m ops =
            Except.ok (m', (runMap f ops).2) ∧
          Represents m' (runMap f ops).1) ∧
    ∀ (addr : BitVec 64) (val : ι → T),
      addr.toNat < 2 ^ 48 → f (addr.toNat / 16) = none →
      Function.Injective val →
        ∀ acts s,
          (insertSystem m (addrToKey addr) val).Run
            { mem := m, pc := fun _ => .start } acts s →
          Agreed m (addrToKey addr) val acts s := by
  constructor
  · intro ops hAddr
    exact hRep.run hAddr
  · intro addr val hAddr hEmpty hVal acts s hRun
    apply agreed_of_run hRep.wellFormed
      (inSpace_addrToKey hAddr) _ hVal hRun
    rw [hRep.map, addrToKey_toNat]
    exact hEmpty

/- The steps of the workers in a given order. -/
def insertRun (key : BitVec 64) (val : ι → T) :
    RaceState ι T → List ι → Option (RaceState ι T)
| s, [] => some s
| s, i :: acts =>
    match s.pc i, insertStep key (val i) s.mem (s.pc i) with
    | .returned _, _ => none
    | _, Except.error _ => none
    | _, Except.ok (m, next) =>
        insertRun key val
          { mem := m, pc := Function.update s.pc i next } acts

theorem run_of_insertRun
    {m₀ : ShadowDir T} {key : BitVec 64} {val : ι → T}
    {acts : List ι} {s t : RaceState ι T}
    (h : insertRun key val s acts = some t) :
    (insertSystem m₀ key val).Run s acts t := by
  induction acts generalizing s with
  | nil =>
      cases h
      exact TransitionSystem.Run.refl _
  | cons i acts ih =>
      unfold insertRun at h
      split at h
      · cases h
      · cases h
      · rename_i pc m next hRun hNot
        apply TransitionSystem.Run.head _ (ih h)
        exact ⟨fun v hv => hNot v hv, next, hRun, rfl⟩

/-
  Both workers allocate a table and find the slot empty; the
  table of the first and the entry of the second are kept.
-/
theorem refinement_new :
    (∃ m', run (ShadowDir.new : ShadowDir Nat)
        [.insert 16 7, .find 28, .erase 20, .find 16] =
      Except.ok (m', [some 7, some 7, none, none])) ∧
    ∃ acts s, s.pc false = .returned 2 ∧
      s.pc true = .returned 2 ∧
      Agreed (ShadowDir.new : ShadowDir Nat) (addrToKey 16)
        (fun i : Bool => if i then 2 else 1) acts s := by
  constructor
  · rcases (refinement (ι := Nat) ShadowDir.new _
      represents_new).1
      [.insert 16 7, .find 28, .erase 20, .find 16]
      (by decide) with ⟨m', hRun, -⟩
    exact ⟨m', hRun⟩
  · obtain ⟨s, hRun, hFalse, hTrue⟩ :
        ∃ s : RaceState Bool Nat,
          insertRun (addrToKey 16) (fun i => if i then 2 else 1)
            { mem := ShadowDir.new, pc := fun _ => .start }
            [false, true, false, true, false, false, true,
              true, false, true] = some s ∧
          s.pc false = .returned 2 ∧ s.pc true = .returned 2 :=
      ⟨_, rfl, rfl, rfl⟩
    refine ⟨_, s, hFalse, hTrue,
      (refinement ShadowDir.new _ represents_new).2 16 _
        (by decide) rfl ?_ _ s (run_of_insertRun hRun)⟩
    intro i j
    revert i j
    decide

end ShadowTable

end PRacer
