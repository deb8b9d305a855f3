import PRacer.MemAccess.Model

/-
  Which bytes of the program's memory the recorded slots
  stand for (`mem_access.h`, `shadow_mem.h`,
  `record_mem_helper`).

  Main declarations:
    * `ShadowMem.recordMemHelper`
    * `Access.Uses`, `Access.Overlaps`
    * `uses_iff_reaches`, `records_iff_reaches`
    * `coverage_iff_fits`
-/

------------------------------------------------------------
-- Shadow Memory
------------------------------------------------------------

namespace PRacer

open Foundations

/- The block of an address. -/
def addrToKey (addr : BitVec 64) : BitVec 64 :=
  addr >>> LOG_KEY_SIZE

theorem addrToKey_toNat (addr : BitVec 64) :
    (addrToKey addr).toNat = addr.toNat / 16 := by
  simp [addrToKey, LOG_KEY_SIZE, BitVec.toNat_ushiftRight,
    Nat.shiftRight_eq_div_pow]

/- The access lists of all blocks, by key. -/
abbrev ShadowMem (E H : Type*) :=
  BitVec 64 → Option (MemAccessList E H)

namespace ShadowMem

variable {E H : Type*} [LinearOrder E] [LinearOrder H]

/-
  The list of the start address is created or checked and
  updated.  A list that another worker inserts first is found
  as if it had been there.
-/
def recordMemHelper
    (m : ShadowMem E H) (a : Access E H) :
    ShadowMem E H × Bool :=
  let key := addrToKey a.addr
  match m key with
  | none =>
      (Function.update m key (some (MemAccessList.new a)),
        false)
  | some val =>
      let next := val.checkRacesAndUpdate a
      (Function.update m key (some next.1), next.2)

/- What the arrays of a block hold in a slot. -/
def slot
    (m : ShadowMem E H) (key : BitVec 64) (i : Nat) :
    Option (MemAccess E H) × Option (MemAccess E H) ×
      Option (MemAccess E H) :=
  match m key with
  | none => (none, none, none)
  | some l => (l.lreaders i, l.rreaders i, l.writers i)

end ShadowMem

------------------------------------------------------------
-- Grains of an Access
------------------------------------------------------------

namespace Access

variable {E H : Type*}

/- The loops of the access run over a slot of the block. -/
def Reaches
    (a : Access E H) (key : BitVec 64) (i : Nat) : Prop :=
  key = addrToKey a.addr ∧ a.Covers i

/- The byte range of the access has a byte in the grain. -/
def Overlaps (a : Access E H) (grain : Nat) : Prop :=
  ∃ b, a.addr.toNat ≤ b ∧ b < a.addr.toNat + a.memSize ∧
    b / GRAIN_SIZE = grain

/- The grain that a slot of a block stands for. -/
def grainOf (key : BitVec 64) (i : Nat) : Nat :=
  key.toNat * NUM_SLOTS + i

/- Whole grains from a grain's first byte, in one block. -/
def Fits (a : Access E H) : Prop :=
  GRAIN_SIZE ≤ a.memSize ∧
    a.addr.toNat % GRAIN_SIZE = 0 ∧
    a.addr.toNat % MAX_GRAIN_SIZE + a.memSize ≤
      MAX_GRAIN_SIZE

instance (a : Access E H) : Decidable a.Fits :=
  inferInstanceAs (Decidable (_ ∧ _))

/- A size that the instrumentation passes. -/
def HasSize (a : Access E H) : Prop :=
  a.memSize ∈ [1, 2, 4, 8, 16]

variable [LinearOrder E] [LinearOrder H]

/-
  The recording of the access writes a slot of some shadow
  memory, or what it answers depends on the slot.
-/
inductive Uses
    (a : Access E H) (key : BitVec 64) (i : Nat) : Prop
| writes (m : ShadowMem E H) :
    (m.recordMemHelper a).1.slot key i ≠ m.slot key i →
      Uses a key i
| looks (m m' : ShadowMem E H) :
    (∀ key' i', (key', i') ≠ (key, i) →
      m'.slot key' i' = m.slot key' i') →
      (m'.recordMemHelper a).2 ≠ (m.recordMemHelper a).2 →
        Uses a key i

/-
  In every shadow memory, the slot holds the access once it
  is recorded; for a read, both arrays hold it or a reader
  that it does not replace.
-/
def Records
    (a : Access E H) (key : BitVec 64) (i : Nat) : Prop :=
  ∀ m : ShadowMem E H,
    if a.isRead then
      ((m.recordMemHelper a).1.slot key i).1.isSome = true ∧
        ((m.recordMemHelper a).1.slot key i).2.1.isSome =
          true
    else
      ((m.recordMemHelper a).1.slot key i).2.2 =
        some a.entry

/-
  The recording of the access touches no slot beyond the
  arrays, and the grains that it touches and records are
  those that the bytes overlap.
-/
structure Covered (a : Access E H) : Prop where
  inRange : ∀ key i, a.Uses key i → i < NUM_SLOTS
  used :
    ∀ grain,
      (∃ key i, a.Uses key i ∧ grainOf key i = grain) ↔
        a.Overlaps grain
  recorded :
    ∀ grain,
      (∃ key i, a.Records key i ∧ grainOf key i = grain) ↔
        a.Overlaps grain

end Access

/-
  The recording of every access of a history touches the
  right slots, and two accesses with a common byte are
  recorded in a common slot.
-/
structure Coverage {E H : Type*}
    [LinearOrder E] [LinearOrder H]
    (accesses : List (Access E H)) : Prop where
  covered : ∀ a ∈ accesses, a.Covered
  common :
    ∀ a ∈ accesses, ∀ b ∈ accesses,
      (∃ byte,
        (a.addr.toNat ≤ byte ∧
          byte < a.addr.toNat + a.memSize) ∧
        b.addr.toNat ≤ byte ∧
          byte < b.addr.toNat + b.memSize) →
        ∃ key i, a.Records key i ∧ b.Records key i ∧
          i < NUM_SLOTS

------------------------------------------------------------
-- What a Recording Uses
------------------------------------------------------------

namespace ShadowMem

variable {E H : Type*} [LinearOrder E] [LinearOrder H]

/- The other slots of the memory stay as they are. -/
theorem slot_of_not_reached
    {m : ShadowMem E H} {a : Access E H}
    {key : BitVec 64} {i : Nat}
    (hNot : ¬ a.Reaches key i) :
    (m.recordMemHelper a).1.slot key i = m.slot key i := by
  by_cases hKey : key = addrToKey a.addr
  · have hCovers : ¬ a.Covers i := by
      intro hCovers
      exact hNot ⟨hKey, hCovers⟩
    subst hKey
    unfold recordMemHelper slot
    dsimp only
    cases hFind : m (addrToKey a.addr) with
    | none =>
        have hEmpty := a.forGrains_fst
          (fun _ => (some a.entry, false)) (fun _ => none) i
        rw [if_neg hCovers] at hEmpty
        unfold Access.start Access.grains at hEmpty
        unfold MemAccessList.new
        cases a.isRead <;> simp [hEmpty]
    | some l =>
        unfold MemAccessList.checkRacesAndUpdate
          MemAccessList.checkRacesAndUpdateWithRead
          MemAccessList.checkRacesAndUpdateWithWrite
        cases a.isRead <;>
          simp [Access.forGrains_fst, hCovers]
  · unfold recordMemHelper slot
    dsimp only
    cases m (addrToKey a.addr) <;> simp [hKey]

/- A touched slot records the access, or a reader of old. -/
theorem slot_of_reached
    {m : ShadowMem E H} {a : Access E H}
    {key : BitVec 64} {i : Nat}
    (hReaches : a.Reaches key i) :
    if a.isRead then
      ((m.recordMemHelper a).1.slot key i).1.isSome = true ∧
        ((m.recordMemHelper a).1.slot key i).2.1.isSome =
          true
    else
      ((m.recordMemHelper a).1.slot key i).2.2 =
        some a.entry := by
  rcases hReaches with ⟨rfl, hCovers⟩
  unfold recordMemHelper slot
  dsimp only
  cases hFind : m (addrToKey a.addr) with
  | none =>
      have hFilled := a.forGrains_fst
        (fun _ => (some a.entry, false)) (fun _ => none) i
      rw [if_pos hCovers] at hFilled
      unfold Access.start Access.grains at hFilled
      unfold MemAccessList.new
      cases a.isRead <;> simp [hFilled]
  | some l =>
      unfold MemAccessList.checkRacesAndUpdate
        MemAccessList.checkRacesAndUpdateWithRead
        MemAccessList.checkRacesAndUpdateWithWrite
      cases a.isRead
      · have hWriter :
            (a.updateWriter (l.writers i)).1 =
              some a.entry := by
          cases hSlot : l.writers i <;> rfl
        simp [Access.forGrains_fst, hCovers, hWriter]
      · simp [Access.forGrains_fst, hCovers,
          Access.updateLreader, Access.updateRreader]

/- A race is answered for the slots that the loops run over. -/
theorem recordMemHelper_snd
    (m : ShadowMem E H) (a : Access E H) :
    (m.recordMemHelper a).2 = true ↔
      ∃ i, a.Covers i ∧
        if a.isRead then
          a.compareSlot (m.slot (addrToKey a.addr) i).2.2 =
            true
        else
          a.compareSlot (m.slot (addrToKey a.addr) i).2.2 =
              true ∨
            a.compareSlot (m.slot (addrToKey a.addr) i).1 =
              true ∨
            a.compareSlot (m.slot (addrToKey a.addr) i).2.1 =
              true := by
  have hWriter : ∀ w, (a.updateWriter w).2 =
      a.compareSlot w := by
    intro w
    cases w <;> rfl
  unfold recordMemHelper slot
  dsimp only
  cases hFind : m (addrToKey a.addr) with
  | none => simp [Access.compareSlot]
  | some l =>
      unfold MemAccessList.checkRacesAndUpdate
        MemAccessList.checkRacesAndUpdateWithRead
        MemAccessList.checkRacesAndUpdateWithWrite
      cases a.isRead
      · simp only [Bool.false_eq_true, if_false,
          Bool.or_eq_true, Access.forGrains_snd, hWriter,
          Access.checkSlot, or_assoc, ← exists_or,
          ← and_or_left]
      · simp [Access.forGrains_snd, Access.checkSlot,
          Access.updateLreader, Access.updateRreader]

end ShadowMem

namespace Access

variable {E H : Type*} [LinearOrder E] [LinearOrder H]
variable {a : Access E H}

/- The loops touch what they run over, and nothing else. -/
theorem uses_iff_reaches (key : BitVec 64) (i : Nat) :
    a.Uses key i ↔ a.Reaches key i := by
  constructor
  · intro hUses
    by_contra hNot
    cases hUses with
    | writes m hWrites =>
        exact hWrites (ShadowMem.slot_of_not_reached hNot)
    | looks m m' hSame hLooks =>
        apply hLooks
        rw [Bool.eq_iff_iff, ShadowMem.recordMemHelper_snd,
          ShadowMem.recordMemHelper_snd]
        refine exists_congr fun i' =>
          and_congr_right fun hCovers => ?_
        rw [hSame]
        intro hEq
        cases hEq
        exact hNot ⟨rfl, hCovers⟩
  · intro hReaches
    -- A slot of the empty memory is filled.
    apply Uses.writes fun _ => none
    have hFilled := ShadowMem.slot_of_reached
      (m := fun _ => none) hReaches
    intro hSame
    rw [hSame] at hFilled
    cases hRead : a.isRead <;>
      simp [hRead, ShadowMem.slot] at hFilled

theorem records_iff_reaches (key : BitVec 64) (i : Nat) :
    a.Records key i ↔ a.Reaches key i := by
  constructor
  · intro hRecords
    by_contra hNot
    have hEmpty := hRecords fun _ => none
    rw [ShadowMem.slot_of_not_reached hNot] at hEmpty
    cases hRead : a.isRead <;>
      simp [hRead, ShadowMem.slot] at hEmpty
  · intro hReaches m
    exact ShadowMem.slot_of_reached hReaches

end Access

------------------------------------------------------------
-- Accesses That Fit
------------------------------------------------------------

namespace Access

variable {E H : Type*} {a b : Access E H}

theorem covers_iff (i : Nat) :
    a.Covers i ↔
      a.addr.toNat % 16 / 4 ≤ i ∧
        i < a.addr.toNat % 16 / 4 + a.memSize / 4 := by
  unfold Covers start grains
  rw [addrToMemIndex_eq, sizeToNumGrains_eq]

theorem fits_iff :
    a.Fits ↔
      4 ≤ a.memSize ∧ a.addr.toNat % 4 = 0 ∧
        a.addr.toNat % 16 + a.memSize ≤ 16 := Iff.rfl

/- The grains that an access touches, by number. -/
theorem exists_reaches_iff (grain : Nat) :
    (∃ key i, a.Reaches key i ∧ grainOf key i = grain) ↔
      a.addr.toNat / 4 ≤ grain ∧
        grain < a.addr.toNat / 4 + a.memSize / 4 := by
  have hGrain : ∀ i,
      grainOf (addrToKey a.addr) i =
        a.addr.toNat / 16 * 4 + i := by
    intro i
    unfold grainOf
    rw [addrToKey_toNat]
    rfl
  constructor
  · rintro ⟨key, i, ⟨rfl, hCovers⟩, rfl⟩
    rw [covers_iff] at hCovers
    rw [hGrain]
    omega
  · intro hRange
    refine ⟨addrToKey a.addr, grain - a.addr.toNat / 16 * 4,
      ⟨rfl, ?_⟩, ?_⟩
    · rw [covers_iff]
      omega
    · rw [hGrain]
      omega

/- The grains that an access overlaps, by number. -/
theorem overlaps_iff
    (hPos : 0 < a.memSize) (grain : Nat) :
    a.Overlaps grain ↔
      a.addr.toNat / 4 ≤ grain ∧
        grain ≤ (a.addr.toNat + a.memSize - 1) / 4 := by
  unfold Overlaps GRAIN_SIZE
  constructor
  · rintro ⟨byte, hLow, hHigh, rfl⟩
    omega
  · intro hRange
    refine ⟨max a.addr.toNat (grain * 4), ?_, ?_, ?_⟩ <;>
      omega

theorem HasSize.cases
    (h : a.HasSize) :
    a.memSize = 1 ∨ a.memSize = 2 ∨ a.memSize = 4 ∨
      a.memSize = 8 ∨ a.memSize = 16 := by
  simpa [HasSize] using h

variable [LinearOrder E] [LinearOrder H]

/- An access touches the right slots exactly if it fits. -/
theorem covered_iff_fits
    (hSize : a.HasSize) :
    a.Covered ↔ a.Fits := by
  have hSizes := hSize.cases
  have hPos : 0 < a.memSize := by omega
  rw [fits_iff]
  constructor
  · intro hCovered
    have hFirst := hCovered.used (a.addr.toNat / 4)
    have hLast := hCovered.used
      ((a.addr.toNat + a.memSize - 1) / 4)
    simp only [uses_iff_reaches] at hFirst hLast
    rw [exists_reaches_iff, overlaps_iff hPos] at hFirst
    rw [exists_reaches_iff, overlaps_iff hPos] at hLast
    have hEnd := hCovered.inRange (addrToKey a.addr)
      (a.addr.toNat % 16 / 4 + a.memSize / 4 - 1)
    rw [uses_iff_reaches] at hEnd
    unfold Reaches at hEnd
    rw [covers_iff] at hEnd
    unfold NUM_SLOTS MAX_GRAIN_SIZE LOG_KEY_SIZE GRAIN_SIZE
      at hEnd
    simp only [true_and] at hEnd
    omega
  · intro hFits
    have hGrains : ∀ grain,
        (∃ key i, a.Reaches key i ∧ grainOf key i = grain) ↔
          a.Overlaps grain := by
      intro grain
      rw [exists_reaches_iff, overlaps_iff hPos]
      omega
    constructor
    · intro key i hUses
      have hCovers := ((uses_iff_reaches key i).mp
        hUses).2
      rw [covers_iff] at hCovers
      unfold NUM_SLOTS MAX_GRAIN_SIZE LOG_KEY_SIZE GRAIN_SIZE
      omega
    · simpa only [uses_iff_reaches] using hGrains
    · simpa only [records_iff_reaches] using hGrains

/- Two accesses that fit and share a byte share a slot. -/
theorem common_of_fits
    {b : Access E H}
    (hSizeA : a.HasSize) (hSizeB : b.HasSize)
    (hA : a.Fits) (hB : b.Fits)
    {byte : Nat}
    (hByteA :
      a.addr.toNat ≤ byte ∧
        byte < a.addr.toNat + a.memSize)
    (hByteB :
      b.addr.toNat ≤ byte ∧
        byte < b.addr.toNat + b.memSize) :
    ∃ key i, a.Records key i ∧ b.Records key i ∧
      i < NUM_SLOTS := by
  rw [fits_iff] at hA hB
  have hCasesA := hSizeA.cases
  have hCasesB := hSizeB.cases
  have hKey : addrToKey a.addr = addrToKey b.addr := by
    apply BitVec.eq_of_toNat_eq
    rw [addrToKey_toNat, addrToKey_toNat]
    omega
  refine ⟨addrToKey a.addr, byte % 16 / 4,
    (records_iff_reaches _ _).mpr ⟨rfl, ?_⟩,
    (records_iff_reaches _ _).mpr ⟨hKey, ?_⟩, ?_⟩
  · rw [covers_iff]
    omega
  · rw [covers_iff]
    omega
  · unfold NUM_SLOTS MAX_GRAIN_SIZE LOG_KEY_SIZE GRAIN_SIZE
    omega

end Access

/-
  The recordings cover the bytes of a history exactly if each
  access consists of whole grains of one block.
-/
theorem coverage_iff_fits
    {E H : Type*} [LinearOrder E] [LinearOrder H]
    {accesses : List (Access E H)}
    (hSizes : ∀ a ∈ accesses, a.HasSize) :
    Coverage accesses ↔ ∀ a ∈ accesses, a.Fits := by
  constructor
  · intro hCoverage a hA
    exact (Access.covered_iff_fits (hSizes a hA)).mp
      (hCoverage.covered a hA)
  · intro hFits
    constructor
    · intro a hA
      exact (Access.covered_iff_fits (hSizes a hA)).mpr
        (hFits a hA)
    · rintro a hA b hB ⟨byte, hByteA, hByteB⟩
      exact Access.common_of_fits (hSizes a hA) (hSizes b hB)
        (hFits a hA) (hFits b hB) hByteA hByteB

/- An access to a global array. -/
def arrayAccess
    (isRead : Bool) (addr : BitVec 64) (memSize : Nat)
    (strand : Nat × Nat) : Access Nat Nat :=
  { isRead := isRead
    instAddr := 0
    addr := addr
    memSize := memSize
    currEstrand := strand.1
    currHstrand := strand.2 }

/-
  A block is read, a half of it is written, and then one of
  its words, which is the last one of that half.
-/
theorem coverage_iff_fits_block :
    Coverage
      [arrayAccess true 0x601060 16 (0, 0),
        arrayAccess false 0x601060 8 (1, 2),
        arrayAccess false 0x601064 4 (2, 1)] :=
  (coverage_iff_fits (by simp [Access.HasSize, arrayAccess])).mpr
    (by decide)

/- A write of one `char` of a global array. -/
def charWrite (strand : Nat × Nat) : Access Nat Nat :=
  arrayAccess false 0x601060 1 strand

/-
  Two parallel strands write the same `char`.  The recordings
  touch no slot, and no race is found.
-/
theorem char_uncovered :
    ¬ Coverage [charWrite (0, 1), charWrite (1, 0)] ∧
      Planar.Parallel (charWrite (0, 1)).strand
        (charWrite (1, 0)).strand ∧
      (∀ key i, ¬ (charWrite (0, 1)).Uses key i) ∧
      (MemAccessList.record (charWrite (0, 1))
        [charWrite (1, 0)]).2 = false := by
  have hNone : ∀ key i,
      ¬ (charWrite (0, 1)).Uses key i := by
    intro key i hUses
    have hCovers := ((Access.uses_iff_reaches key i).mp
      hUses).2
    rw [Access.covers_iff] at hCovers
    simp only [charWrite, arrayAccess] at hCovers
    omega
  refine ⟨?_, ?_, hNone, ?_⟩
  · intro hCoverage
    have hCovered := hCoverage.covered (charWrite (0, 1))
      (by simp)
    have hUsed := (hCovered.used (0x601060 / 4)).mpr
      ⟨0x601060, by decide, by decide, by decide⟩
    rcases hUsed with ⟨key, i, hUses, -⟩
    exact hNone key i hUses
  · simp [Planar.Parallel, Access.strand, charWrite,
      arrayAccess]
  · decide

end PRacer
