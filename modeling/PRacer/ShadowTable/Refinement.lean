import PRacer.ShadowTable.Model

/-
  The tables together are one map from the keys to the
  entries.

  Main declarations:
    * `ShadowDir.toMap`, `ShadowDir.WellFormed`
    * `ShadowDir.find_eq`, `ShadowDir.insert_spec`,
      `ShadowDir.erase_spec`
    * `run_eq_runMap`
-/

------------------------------------------------------------
-- Keys
------------------------------------------------------------

namespace PRacer

open Foundations

namespace ShadowTable

theorem dirIndex_eq (key : BitVec 64) :
    dirIndex key = key.toNat / 2 ^ 20 := by
  simp [dirIndex, LOG_TBL_SIZE, BitVec.toNat_ushiftRight,
    Nat.shiftRight_eq_div_pow]

theorem tblIndex_eq (key : BitVec 64) :
    tblIndex key = key.toNat % 2 ^ 20 := by
  unfold tblIndex
  rw [BitVec.toNat_and]
  exact Nat.and_two_pow_sub_one_eq_mod key.toNat 20

/- The two indices of a key tell it. -/
theorem key_ext
    {key key' : BitVec 64}
    (hDir : dirIndex key = dirIndex key')
    (hTbl : tblIndex key = tblIndex key') :
    key = key' := by
  rw [dirIndex_eq, dirIndex_eq] at hDir
  rw [tblIndex_eq, tblIndex_eq] at hTbl
  apply BitVec.eq_of_toNat_eq
  rw [← Nat.div_add_mod key.toNat (2 ^ 20), hDir, hTbl,
    Nat.div_add_mod]

/- The key is the key of an address below `2 ^ 48`. -/
def InSpace (key : BitVec 64) : Prop :=
  key.toNat < 2 ^ 44

instance (key : BitVec 64) : Decidable (InSpace key) :=
  inferInstanceAs (Decidable (_ < _))

theorem dirIndex_lt_iff (key : BitVec 64) :
    dirIndex key < DIR_SIZE ↔ InSpace key := by
  rw [dirIndex_eq]
  unfold DIR_SIZE InSpace LOG_TBL_SIZE LOG_KEY_SIZE
  omega

theorem tblIndex_lt (key : BitVec 64) :
    tblIndex key < TBL_SIZE := by
  rw [tblIndex_eq]
  exact Nat.mod_lt _ (by decide)

theorem inSpace_addrToKey
    {addr : BitVec 64}
    (hAddr : addr.toNat < 2 ^ 48) :
    InSpace (addrToKey addr) := by
  unfold InSpace
  rw [addrToKey_toNat]
  omega

------------------------------------------------------------
-- The Map
------------------------------------------------------------

namespace ShadowDir

variable {T : Type}

/- The entries of all keys. -/
def toMap (m : ShadowDir T) (key : BitVec 64) : Option T :=
  (m.shadowDir (dirIndex key)).bind fun p =>
    (m.tbls.get p).bind fun tbl =>
      tbl.shadowEntries (tblIndex key)

/-
  The tables of the directory exist, and no two cells share
  one.
-/
structure WellFormed (m : ShadowDir T) : Prop where
  live : ∀ i p, m.shadowDir i = some p →
    ∃ tbl, m.tbls.get p = some tbl
  distinct : ∀ i j p, m.shadowDir i = some p →
    m.shadowDir j = some p → i = j

theorem wellFormed_new : (new : ShadowDir T).WellFormed := by
  constructor
  · intro i p hDir
    cases hDir
  · intro i j p hDir
    cases hDir

theorem loadDir_of_inSpace
    {m : ShadowDir T} {key : BitVec 64}
    (hKey : InSpace key) :
    m.loadDir (dirIndex key) =
      Except.ok (m.shadowDir (dirIndex key)) :=
  if_pos ((dirIndex_lt_iff key).mpr hKey)

theorem loadDir_of_not_inSpace
    {m : ShadowDir T} {key : BitVec 64}
    (hKey : ¬ InSpace key) :
    m.loadDir (dirIndex key) =
      Except.error Fault.outOfBounds :=
  if_neg fun hLt => hKey ((dirIndex_lt_iff key).mp hLt)

/- The slot of a key in its table. -/
theorem WellFormed.loadSlot_eq
    {m : ShadowDir T} {key : BitVec 64} {p : Nat}
    (h : m.WellFormed)
    (hDir : m.shadowDir (dirIndex key) = some p) :
    m.loadSlot { tbl := p, index := tblIndex key } =
      Except.ok (m.toMap key) := by
  rcases h.live _ p hDir with ⟨tbl, hGet⟩
  unfold loadSlot toMap
  simp [hGet, hDir, tblIndex_lt]

theorem toMap_eq_none
    {m : ShadowDir T} {key : BitVec 64}
    (hDir : m.shadowDir (dirIndex key) = none) :
    m.toMap key = none := by
  unfold toMap
  rw [hDir]
  rfl

/- Writing an entry changes the map at its key only. -/
theorem WellFormed.toMap_setSlot
    {m : ShadowDir T} {key : BitVec 64} {p : Nat}
    (h : m.WellFormed)
    (hDir : m.shadowDir (dirIndex key) = some p)
    (cell : Option T) :
    (m.setSlot { tbl := p, index := tblIndex key } cell).toMap =
      Function.update m.toMap key cell := by
  rcases h.live _ p hDir with ⟨tbl, hGet⟩
  funext key'
  by_cases hKey : key' = key
  · subst hKey
    simp [toMap, setSlot, hDir, Heap.get_modify, hGet]
  · rw [Function.update_of_ne hKey]
    unfold toMap setSlot
    dsimp only
    cases hDir' : m.shadowDir (dirIndex key') with
    | none => rfl
    | some q =>
        by_cases hTbl : q = p
        · subst hTbl
          have hIndex : tblIndex key' ≠ tblIndex key := by
            intro hEq
            exact hKey
              (key_ext (h.distinct _ _ q hDir' hDir) hEq)
          simp [Heap.get_modify, hGet, hIndex]
        · simp [Heap.get_modify, hTbl]

theorem WellFormed.setSlot
    {m : ShadowDir T}
    (h : m.WellFormed) (slot : Slot) (cell : Option T) :
    (m.setSlot slot cell).WellFormed := by
  refine ⟨?_, h.distinct⟩
  intro i p hDir
  rcases h.live i p hDir with ⟨tbl, hGet⟩
  unfold ShadowDir.setSlot
  rw [Heap.get_modify]
  split
  · exact ⟨_, by simp [hGet]; rfl⟩
  · exact ⟨tbl, hGet⟩

/- Writing back what a slot holds changes nothing. -/
theorem setSlot_of_loadSlot
    {m : ShadowDir T} {slot : Slot} {cell : Option T}
    (hLoad : m.loadSlot slot = Except.ok cell) :
    m.setSlot slot cell = m := by
  unfold loadSlot at hLoad
  unfold ShadowDir.setSlot
  split at hLoad
  · cases hLoad
  · rename_i tbl hGet
    split at hLoad
    · cases hLoad
      rw [Heap.modify_eq_self hGet]
      rw [Function.update_eq_self]
    · cases hLoad

/- A compare-and-swap on a slot that is filled. -/
theorem casSlot_of_some
    {m : ShadowDir T} {slot : Slot} {old : T}
    (hLoad : m.loadSlot slot = Except.ok (some old))
    (own : T) :
    m.casSlot slot own = Except.ok (m, some old) := by
  unfold casSlot
  rw [hLoad, ok_bind]
  show Except.ok (m.setSlot slot (some old), some old) = _
  rw [setSlot_of_loadSlot hLoad]

/- A compare-and-swap on an empty slot. -/
theorem casSlot_of_none
    {m : ShadowDir T} {slot : Slot}
    (hLoad : m.loadSlot slot = Except.ok none)
    (own : T) :
    m.casSlot slot own =
      Except.ok (m.setSlot slot (some own), none) := by
  unfold casSlot
  rw [hLoad, ok_bind]
  rfl

------------------------------------------------------------
-- Find
------------------------------------------------------------

theorem findSlot_false
    {m : ShadowDir T} {key : BitVec 64}
    (hKey : InSpace key) :
    m.findSlot key false =
      Except.ok (m, (m.shadowDir (dirIndex key)).map fun p =>
        { tbl := p, index := tblIndex key }) := by
  unfold findSlot
  rw [loadDir_of_inSpace hKey, ok_bind]
  cases m.shadowDir (dirIndex key) with
  | none => rfl
  | some p => rfl

theorem find_eq
    {m : ShadowDir T} {key : BitVec 64}
    (h : m.WellFormed)
    (hKey : InSpace key) :
    m.find key = Except.ok (m.toMap key) := by
  unfold find
  rw [findSlot_false hKey, ok_bind]
  cases hDir : m.shadowDir (dirIndex key) with
  | none =>
      rw [toMap_eq_none hDir]
      rfl
  | some p => exact h.loadSlot_eq hDir

------------------------------------------------------------
-- Insert
------------------------------------------------------------

/- The directory with a table in one more cell. -/
def publish
    (m : ShadowDir T) (i n : Nat) : ShadowDir T :=
  { m with shadowDir := Function.update m.shadowDir i (some n) }

theorem shadowDir_publish
    (m : ShadowDir T) (i n j : Nat) :
    (m.publish i n).shadowDir j =
      if j = i then some n else m.shadowDir j :=
  Function.update_apply ..

theorem WellFormed.tblNew
    {m : ShadowDir T}
    (h : m.WellFormed) :
    m.tblNew.1.WellFormed := by
  refine ⟨?_, h.distinct⟩
  intro j p hDir
  rcases h.live j p hDir with ⟨tbl, hGet⟩
  exact ⟨tbl, Heap.get_alloc_of_get _ hGet⟩

theorem WellFormed.toMap_tblNew
    {m : ShadowDir T}
    (h : m.WellFormed) :
    m.tblNew.1.toMap = m.toMap := by
  funext key
  unfold toMap ShadowDir.tblNew
  dsimp only
  cases hDir : m.shadowDir (dirIndex key) with
  | none => rfl
  | some p =>
      rcases h.live _ p hDir with ⟨tbl, hGet⟩
      rw [Option.bind_some, Option.bind_some, hGet,
        Heap.get_alloc_of_get _ hGet]

/- An empty table that is not in the directory yet. -/
def Fresh (m : ShadowDir T) (n : Nat) : Prop :=
  m.tbls.get n = some ShadowTbl.new ∧
    ∀ j, m.shadowDir j ≠ some n

theorem WellFormed.publish
    {m : ShadowDir T} {n : Nat}
    (h : m.WellFormed)
    (hFresh : m.Fresh n) (i : Nat) :
    (m.publish i n).WellFormed := by
  constructor
  · intro j p hDir
    rw [shadowDir_publish] at hDir
    split at hDir
    · cases hDir
      exact ⟨_, hFresh.1⟩
    · exact h.live j p hDir
  · intro j k p hj hk
    rw [shadowDir_publish] at hj hk
    split at hj <;> split at hk
    · omega
    · cases hj
      exact absurd hk (hFresh.2 k)
    · cases hk
      exact absurd hj (hFresh.2 j)
    · exact h.distinct j k p hj hk

theorem toMap_publish
    {m : ShadowDir T} {i n : Nat}
    (hFresh : m.Fresh n)
    (hNone : m.shadowDir i = none) :
    (m.publish i n).toMap = m.toMap := by
  funext key
  unfold toMap
  rw [shadowDir_publish]
  split
  · rename_i hi
    rw [hi, hNone, Option.bind_some]
    show (m.tbls.get n).bind _ = _
    rw [hFresh.1]
    rfl
  · rfl

/- A new table is not in the directory. -/
theorem WellFormed.fresh_tblNew
    {m : ShadowDir T}
    (h : m.WellFormed) :
    m.tblNew.1.Fresh m.tblNew.2 := by
  refine ⟨Heap.get_alloc_self _, ?_⟩
  intro j hDir
  rcases h.live j _ hDir with ⟨tbl, hGet⟩
  exact absurd (Heap.lt_next hGet) (lt_irrefl _)

/- A cell of the directory gets a new table. -/
def attach (m : ShadowDir T) (i : Nat) : ShadowDir T :=
  m.tblNew.1.publish i m.tblNew.2

theorem WellFormed.attach
    {m : ShadowDir T}
    (h : m.WellFormed) (i : Nat) :
    (m.attach i).WellFormed :=
  h.tblNew.publish h.fresh_tblNew i

/- A new table adds no entry. -/
theorem WellFormed.toMap_attach
    {m : ShadowDir T} {i : Nat}
    (h : m.WellFormed)
    (hNone : m.shadowDir i = none) :
    (m.attach i).toMap = m.toMap := by
  unfold ShadowDir.attach
  rw [toMap_publish h.fresh_tblNew hNone, h.toMap_tblNew]

/- The directory with a table for the key. -/
def ensure (m : ShadowDir T) (key : BitVec 64) :
    ShadowDir T :=
  match m.shadowDir (dirIndex key) with
  | none => m.attach (dirIndex key)
  | some _ => m

theorem WellFormed.ensure
    {m : ShadowDir T}
    (h : m.WellFormed) (key : BitVec 64) :
    (m.ensure key).WellFormed := by
  unfold ShadowDir.ensure
  split
  · exact h.attach _
  · exact h

theorem WellFormed.toMap_ensure
    {m : ShadowDir T}
    (h : m.WellFormed) (key : BitVec 64) :
    (m.ensure key).toMap = m.toMap := by
  unfold ShadowDir.ensure
  split
  · rename_i hDir
    exact h.toMap_attach hDir
  · rfl

theorem findSlot_true
    {m : ShadowDir T} {key : BitVec 64}
    (hKey : InSpace key) :
    ∃ p, (m.ensure key).shadowDir (dirIndex key) = some p ∧
      m.findSlot key true =
        Except.ok (m.ensure key,
          some { tbl := p, index := tblIndex key }) := by
  have hIndex := (dirIndex_lt_iff key).mpr hKey
  unfold findSlot ensure
  rw [loadDir_of_inSpace hKey, ok_bind]
  cases hDir : m.shadowDir (dirIndex key) with
  | none =>
      refine ⟨m.tbls.next, Function.update_self .., ?_⟩
      simp [tblNew, offerTbl, casDir, loadDir, hIndex, hDir,
        compareAndSwap, attach, publish]
      rfl
  | some p => exact ⟨p, hDir, rfl⟩

theorem offerEntry_none
    (m : ShadowDir T) (slot : Slot) (val : T) (fuel : Nat) :
    offerEntry slot val (fuel + 1) m none =
      (m.casSlot slot val >>= fun r =>
        offerEntry slot val fuel r.1 r.2) := rfl

/- An insertion fills the slot of its key if it is empty. -/
theorem insert_spec
    {m : ShadowDir T} {key : BitVec 64}
    (h : m.WellFormed)
    (hKey : InSpace key) (val : T) :
    ∃ m', m.insert key val =
        Except.ok (m', (m.toMap key).getD val) ∧
      m'.WellFormed ∧
      m'.toMap = Function.update m.toMap key
        (some ((m.toMap key).getD val)) := by
  rcases findSlot_true (m := m) hKey with ⟨p, hDir, hSlot⟩
  have hWf := h.ensure key
  have hMap := h.toMap_ensure key
  unfold insert
  rw [hSlot, ok_bind]
  dsimp only
  rw [hWf.loadSlot_eq hDir, ok_bind, hMap]
  cases hOld : m.toMap key with
  | some old =>
      refine ⟨m.ensure key, rfl, hWf, ?_⟩
      rw [hMap, Option.getD_some, ← hOld,
        Function.update_eq_self]
  | none =>
      -- The first round stores the entry.
      have hNew := hWf.setSlot
        { tbl := p, index := tblIndex key } (some val)
      have hStored := hWf.toMap_setSlot hDir (some val)
      refine ⟨(m.ensure key).setSlot
        { tbl := p, index := tblIndex key } (some val),
        ?_, hNew, ?_⟩
      · have hEmpty := hWf.loadSlot_eq hDir
        rw [hMap, hOld] at hEmpty
        have hFull := WellFormed.loadSlot_eq hNew
          (show ((m.ensure key).setSlot _ (some val)).shadowDir
            (dirIndex key) = some p from hDir)
        rw [hStored, Function.update_self] at hFull
        rw [offerEntry_none, casSlot_of_none hEmpty, ok_bind,
          offerEntry_none, casSlot_of_some hFull]
        rfl
      · rw [hStored, hMap]
        rfl

------------------------------------------------------------
-- Erase
------------------------------------------------------------

theorem erase_spec
    {m : ShadowDir T} {key : BitVec 64}
    (h : m.WellFormed)
    (hKey : InSpace key) :
    ∃ m', m.erase key = Except.ok m' ∧ m'.WellFormed ∧
      m'.toMap = Function.update m.toMap key none := by
  have hSame : m.toMap key = none →
      m.toMap = Function.update m.toMap key none := by
    intro hNone
    rw [← hNone, Function.update_eq_self]
  unfold erase
  rw [findSlot_false hKey, ok_bind]
  cases hDir : m.shadowDir (dirIndex key) with
  | none =>
      refine ⟨m, ?_, h, hSame (toMap_eq_none hDir)⟩
      simp only [Option.map_none, pure_bind]
      rw [find_eq h hKey]
      rfl
  | some p =>
      simp only [Option.map_some, h.loadSlot_eq hDir, ok_bind]
      cases hOld : m.toMap key with
      | none =>
          refine ⟨m, ?_, h, hSame hOld⟩
          simp only [pure_bind]
          rw [find_eq h hKey]
          rfl
      | some old =>
          have hNew := h.setSlot
            { tbl := p, index := tblIndex key } none
          refine ⟨_, ?_, hNew, h.toMap_setSlot hDir _⟩
          simp only [pure_bind]
          rw [find_eq hNew hKey]
          rfl

theorem erase_of_not_inSpace
    {m : ShadowDir T} {key : BitVec 64}
    (hKey : ¬ InSpace key) :
    m.erase key = Except.error Fault.outOfBounds := by
  unfold erase findSlot
  rw [loadDir_of_not_inSpace hKey]
  rfl

end ShadowDir

------------------------------------------------------------
-- Sequences of Operations
------------------------------------------------------------

/- The operations, by the address that they are for. -/
inductive Op (T : Type) where
| find (addr : BitVec 64)
| insert (addr : BitVec 64) (val : T)
| erase (addr : BitVec 64)
deriving DecidableEq, Repr

namespace Op

variable {T : Type}

def addr : Op T → BitVec 64
| .find addr => addr
| .insert addr _ => addr
| .erase addr => addr

/- The operation on the tables, and the entry it returns. -/
def run (m : ShadowDir T) :
    Op T → Run (ShadowDir T × Option T)
| .find addr => do
    let r ← m.find (addrToKey addr)
    return (m, r)
| .insert addr val => do
    let (m, r) ← m.insert (addrToKey addr) val
    return (m, some r)
| .erase addr => do
    let m ← m.erase (addrToKey addr)
    return (m, none)

/- The operation on one map of the blocks of 16 bytes. -/
def runMap (f : Nat → Option T) :
    Op T → (Nat → Option T) × Option T
| .find addr => (f, f (addr.toNat / 16))
| .insert addr val =>
    let r := (f (addr.toNat / 16)).getD val
    (Function.update f (addr.toNat / 16) (some r), some r)
| .erase addr =>
    (Function.update f (addr.toNat / 16) none, none)

end Op

variable {T : Type}

/- The operations in order, with what they return. -/
def run : ShadowDir T → List (Op T) →
    Run (ShadowDir T × List (Option T))
| m, [] => return (m, [])
| m, op :: ops => do
    let (m, r) ← op.run m
    let (m, rs) ← run m ops
    return (m, r :: rs)

def runMap : (Nat → Option T) → List (Op T) →
    (Nat → Option T) × List (Option T)
| f, [] => (f, [])
| f, op :: ops =>
    let (f, r) := op.runMap f
    let (f, rs) := runMap f ops
    (f, r :: rs)

/- The tables hold the entries of the blocks. -/
structure Represents
    (m : ShadowDir T) (f : Nat → Option T) : Prop where
  wellFormed : m.WellFormed
  map : ∀ key, m.toMap key = f key.toNat

theorem represents_new :
    Represents (ShadowDir.new : ShadowDir T) fun _ => none :=
  ⟨ShadowDir.wellFormed_new, fun _ => rfl⟩

/- A change of one key is a change of one block. -/
theorem Represents.update
    {m m' : ShadowDir T} {f : Nat → Option T}
    {addr : BitVec 64} {cell : Option T}
    (h : Represents m f)
    (hWf : m'.WellFormed)
    (hMap : m'.toMap =
      Function.update m.toMap (addrToKey addr) cell) :
    Represents m'
      (Function.update f (addr.toNat / 16) cell) := by
  refine ⟨hWf, ?_⟩
  intro key
  rw [hMap]
  by_cases hKey : key = addrToKey addr
  · rw [hKey, Function.update_self, addrToKey_toNat,
      Function.update_self]
  · have hNe : key.toNat ≠ addr.toNat / 16 := by
      intro hEq
      rw [← addrToKey_toNat] at hEq
      exact hKey (BitVec.eq_of_toNat_eq hEq)
    rw [Function.update_of_ne hKey, Function.update_of_ne hNe]
    exact h.map key

/- One operation returns what it returns on the map. -/
theorem Represents.op
    {m : ShadowDir T} {f : Nat → Option T} {op : Op T}
    (h : Represents m f)
    (hAddr : op.addr.toNat < 2 ^ 48) :
    ∃ m', op.run m = Except.ok (m', (op.runMap f).2) ∧
      Represents m' (op.runMap f).1 := by
  have hKey := inSpace_addrToKey hAddr
  have hGet := h.map (addrToKey op.addr)
  rw [addrToKey_toNat] at hGet
  cases op with
  | find addr =>
      have hFind := ShadowDir.find_eq h.wellFormed hKey
      rw [hGet] at hFind
      refine ⟨m, ?_, h⟩
      show ((m.find (addrToKey addr)) >>= _) = _
      rw [show m.find (addrToKey addr) = _ from hFind]
      rfl
  | insert addr val =>
      rcases ShadowDir.insert_spec h.wellFormed hKey val with
        ⟨m', hRun, hWf, hMap⟩
      rw [hGet] at hRun hMap
      refine ⟨m', ?_, h.update hWf hMap⟩
      show ((m.insert (addrToKey addr) val) >>= _) = _
      rw [show m.insert (addrToKey addr) val = _ from hRun]
      rfl
  | erase addr =>
      rcases ShadowDir.erase_spec h.wellFormed hKey with
        ⟨m', hRun, hWf, hMap⟩
      refine ⟨m', ?_, h.update hWf hMap⟩
      show ((m.erase (addrToKey addr)) >>= _) = _
      rw [show m.erase (addrToKey addr) = _ from hRun]
      rfl

/- All operations return what they return on the map. -/
theorem Represents.run
    {m : ShadowDir T} {f : Nat → Option T} {ops : List (Op T)}
    (h : Represents m f)
    (hAddr : ∀ op ∈ ops, op.addr.toNat < 2 ^ 48) :
    ∃ m', ShadowTable.run m ops =
        Except.ok (m', (runMap f ops).2) ∧
      Represents m' (runMap f ops).1 := by
  induction ops generalizing m f with
  | nil => exact ⟨m, rfl, h⟩
  | cons op ops ih =>
      rw [List.forall_mem_cons] at hAddr
      rcases h.op hAddr.1 with ⟨m₁, hOp, hNext⟩
      rcases ih hNext hAddr.2 with ⟨m₂, hOps, hLast⟩
      refine ⟨m₂, ?_, hLast⟩
      unfold ShadowTable.run
      rw [hOp, ok_bind]
      dsimp only
      rw [hOps]
      rfl

end ShadowTable

end PRacer
