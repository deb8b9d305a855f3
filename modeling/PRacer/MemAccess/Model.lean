import Mathlib.Data.Fintype.Basic
import Mathlib.Logic.Function.Basic
import PRacer.Foundations.PlanarOrder

/-
  The access history of one 16-byte block of memory
  (`mem_access.h`, `mem_access.cpp`).

  The nodes of `g_english` and `g_hebrew` are elements of two
  linear orders, and `om_precedes` is the strict order.  A
  routine that calls `races_with` also returns whether one of
  its calls answered true.

  Main declarations:
    * `MemAccess.racesWith`
    * `MemAccessList.new`
    * `MemAccessList.checkRacesAndUpdate`
    * `MemAccessList.record`
-/

------------------------------------------------------------
-- Single Accesses
------------------------------------------------------------

namespace PRacer

open Foundations

/- A recorded left reader, right reader or last writer. -/
structure MemAccess (E H : Type*) where
  estrand : E
  hstrand : H
  rip : BitVec 64
deriving DecidableEq, Repr

/- The arguments of one call of `check_races_and_update`. -/
structure Access (E H : Type*) where
  isRead : Bool
  instAddr : BitVec 64
  addr : BitVec 64
  memSize : Nat
  currEstrand : E
  currHstrand : H
deriving DecidableEq, Repr

namespace MemAccess

variable {E H : Type*} [LinearOrder E] [LinearOrder H]

/- The place of a recorded access in the two orders. -/
def strand (m : MemAccess E H) : E × H :=
  (m.estrand, m.hstrand)

/- A race is reported if english and hebrew differ. -/
def racesWith
    (m : MemAccess E H)
    (currEstrand : E) (currHstrand : H) : Bool :=
  let precInEnglish := decide (m.estrand < currEstrand)
  let precInHebrew := decide (m.hstrand < currHstrand)
  precInEnglish == !precInHebrew

omit [LinearOrder E] [LinearOrder H] in
/- Overwrite all fields of a recorded access. -/
def updateAccInfo
    (_m : MemAccess E H)
    (estrand : E) (hstrand : H) (rip : BitVec 64) :
    MemAccess E H :=
  { estrand := estrand, hstrand := hstrand, rip := rip }

/- `races_with` answers true exactly on parallel strands. -/
theorem racesWith_iff_parallel
    {m : MemAccess E H} {e : E} {h : H}
    (hGen : Planar.Generic m.strand (e, h)) :
    m.racesWith e h = true ↔
      Planar.Parallel m.strand (e, h) := by
  rw [hGen.parallel_iff]
  by_cases hE : m.estrand < e <;>
    by_cases hH : m.hstrand < h <;>
    simp [racesWith, strand, hE, hH]

end MemAccess

------------------------------------------------------------
-- Grains
------------------------------------------------------------

def GRAIN_SIZE : Nat := 4
def LOG_GRAIN_SIZE : Nat := 2
def LOG_KEY_SIZE : Nat := 4
def MAX_GRAIN_SIZE : Nat := 1 <<< LOG_KEY_SIZE
def NUM_SLOTS : Nat := MAX_GRAIN_SIZE / GRAIN_SIZE

/- All bits set except those of a position in a block. -/
def MAX_GRAIN_MASK : BitVec 64 :=
  ~~~ BitVec.ofNat 64 (MAX_GRAIN_SIZE - 1)

/- The first address of the block of an address. -/
def alignByPrevMaxGrainSize (addr : BitVec 64) : BitVec 64 :=
  addr &&& MAX_GRAIN_MASK

/- The slot of an address in its block. -/
def addrToMemIndex (addr : BitVec 64) : Nat :=
  ((addr &&& BitVec.ofNat 64 (MAX_GRAIN_SIZE - 1)) >>>
    LOG_GRAIN_SIZE).toNat

/- The number of slots that a size fills. -/
def sizeToNumGrains (size : Nat) : Nat :=
  size >>> LOG_GRAIN_SIZE

theorem addrToMemIndex_eq (addr : BitVec 64) :
    addrToMemIndex addr = addr.toNat % 16 / 4 := by
  have hMask :
      addr.toNat &&& 15 = addr.toNat % 16 :=
    Nat.and_two_pow_sub_one_eq_mod addr.toNat 4
  simp [addrToMemIndex, MAX_GRAIN_SIZE, LOG_KEY_SIZE,
    LOG_GRAIN_SIZE, BitVec.toNat_and,
    BitVec.toNat_ushiftRight, hMask, Nat.shiftRight_eq_div_pow]

theorem sizeToNumGrains_eq (size : Nat) :
    sizeToNumGrains size = size / 4 := by
  simp [sizeToNumGrains, LOG_GRAIN_SIZE,
    Nat.shiftRight_eq_div_pow]

------------------------------------------------------------
-- The Per-Grain Loops
------------------------------------------------------------

/- One array of slots of a block. -/
abbrev Slots (E H : Type*) := Nat → Option (MemAccess E H)

namespace Slots

variable {E H : Type*}

/-
  A loop `for (i = start; i < start + grains; i++)` whose
  body reads and writes slot `i` only.  The flag tells
  whether some `races_with` call of the loop answered true.
-/
def forGrains
    (body :
      Option (MemAccess E H) →
        Option (MemAccess E H) × Bool)
    (start grains : Nat)
    (slots : Slots E H) : Slots E H × Bool :=
  (List.range' start grains).foldl
    (fun acc i =>
      let next := body (acc.1 i)
      (Function.update acc.1 i next.1, acc.2 || next.2))
    (slots, false)

/- A pass over distinct slots touches each of them once. -/
private theorem foldl_slots
    (body :
      Option (MemAccess E H) →
        Option (MemAccess E H) × Bool)
    (is : List Nat)
    (hNodup : is.Nodup)
    (slots : Slots E H)
    (raced : Bool) :
    is.foldl
      (fun acc i =>
        let next := body (acc.1 i)
        (Function.update acc.1 i next.1, acc.2 || next.2))
      (slots, raced) =
      (fun i =>
        if i ∈ is then (body (slots i)).1 else slots i,
        raced || is.any (fun i => (body (slots i)).2)) := by
  induction is generalizing slots raced with
  | nil => simp
  | cons i is ih =>
      have hNotMem : i ∉ is := (List.nodup_cons.mp hNodup).1
      have hRest : is.Nodup := (List.nodup_cons.mp hNodup).2
      rw [List.foldl_cons, ih hRest]
      refine Prod.ext ?_ ?_
      · funext j
        by_cases hj : j = i
        · subst hj
          simp [hNotMem]
        · simp [hj]
      · have hAny :
            (is.any fun j =>
              (body (Function.update slots i
                (body (slots i)).1 j)).2) =
              is.any fun j => (body (slots j)).2 := by
          rw [Bool.eq_iff_iff, List.any_eq_true,
            List.any_eq_true]
          refine exists_congr fun j =>
            and_congr_right fun hj => ?_
          have hne : j ≠ i := fun h => hNotMem (h ▸ hj)
          rw [Function.update_of_ne hne]
        simp [hAny, Bool.or_assoc]

/- What a loop leaves in each slot. -/
theorem forGrains_fst
    (body :
      Option (MemAccess E H) →
        Option (MemAccess E H) × Bool)
    (start grains : Nat)
    (slots : Slots E H)
    (i : Nat) :
    (forGrains body start grains slots).1 i =
      if start ≤ i ∧ i < start + grains then
        (body (slots i)).1
      else slots i := by
  unfold forGrains
  rw [foldl_slots body _ (List.nodup_range')]
  simp [List.mem_range'_1]

/- When a loop reports a race. -/
theorem forGrains_snd
    (body :
      Option (MemAccess E H) →
        Option (MemAccess E H) × Bool)
    (start grains : Nat)
    (slots : Slots E H) :
    (forGrains body start grains slots).2 = true ↔
      ∃ i, (start ≤ i ∧ i < start + grains) ∧
        (body (slots i)).2 = true := by
  unfold forGrains
  rw [foldl_slots body _ (List.nodup_range')]
  simp [List.mem_range'_1]

end Slots

------------------------------------------------------------
-- The Slot Updates
------------------------------------------------------------

namespace Access

variable {E H : Type*} [LinearOrder E] [LinearOrder H]

/- The place of the accessing strand in the two orders. -/
def strand (a : Access E H) : E × H :=
  (a.currEstrand, a.currHstrand)

omit [LinearOrder E] [LinearOrder H] in
/- The record that the access leaves in a slot. -/
def entry (a : Access E H) : MemAccess E H :=
  { estrand := a.currEstrand
    hstrand := a.currHstrand
    rip := a.instAddr }

/- Compare with what a slot holds, if it holds anything. -/
def compareSlot
    (a : Access E H)
    (slot : Option (MemAccess E H)) : Bool :=
  match slot with
  | none => false
  | some m => m.racesWith a.currEstrand a.currHstrand

/-
  The new reader is to the left of the old one, or there is
  a path from the old reader to it.
-/
def isLeftmost
    (a : Access E H) (reader : MemAccess E H) : Bool :=
  decide (a.currEstrand < reader.estrand) ||
    decide (reader.hstrand < a.currHstrand)

/- The new reader is to the right of the old one. -/
def isRightmost
    (a : Access E H) (reader : MemAccess E H) : Bool :=
  decide (reader.estrand < a.currEstrand)

/- Keep a reader, or replace it by the new one. -/
def updateReader
    (a : Access E H)
    (replace : MemAccess E H → Bool)
    (slot : Option (MemAccess E H)) : MemAccess E H :=
  match slot with
  | none => a.entry
  | some reader =>
      if replace reader then
        reader.updateAccInfo a.currEstrand a.currHstrand
          a.instAddr
      else reader

omit [LinearOrder E] [LinearOrder H] in
theorem updateReader_strand_of_replace
    {a : Access E H}
    {replace : MemAccess E H → Bool}
    {reader : MemAccess E H}
    (hReplace : replace reader = true) :
    (a.updateReader replace (some reader)).strand =
      a.strand := by
  simp [updateReader, hReplace, MemAccess.updateAccInfo,
    MemAccess.strand, strand]

omit [LinearOrder E] [LinearOrder H] in
theorem updateReader_strand_of_keep
    {a : Access E H}
    {replace : MemAccess E H → Bool}
    {reader : MemAccess E H}
    (hKeep : replace reader = false) :
    (a.updateReader replace (some reader)).strand =
      reader.strand := by
  simp [updateReader, hKeep]

/- The body of the loops that only look for a race. -/
def checkSlot
    (a : Access E H)
    (slot : Option (MemAccess E H)) :
    Option (MemAccess E H) × Bool :=
  (slot, a.compareSlot slot)

/- The body of the loop over the left readers. -/
def updateLreader
    (a : Access E H)
    (slot : Option (MemAccess E H)) :
    Option (MemAccess E H) × Bool :=
  (some (a.updateReader a.isLeftmost slot), false)

/- The body of the loop over the right readers. -/
def updateRreader
    (a : Access E H)
    (slot : Option (MemAccess E H)) :
    Option (MemAccess E H) × Bool :=
  (some (a.updateReader a.isRightmost slot), false)

/- The body of the loop over the writers. -/
def updateWriter
    (a : Access E H)
    (slot : Option (MemAccess E H)) :
    Option (MemAccess E H) × Bool :=
  match slot with
  | none => (some a.entry, false)
  | some writer =>
      -- The last writer is replaced regardless of a race.
      (some (writer.updateAccInfo a.currEstrand
        a.currHstrand a.instAddr),
        writer.racesWith a.currEstrand a.currHstrand)

/- The first slot of an access. -/
def start (a : Access E H) : Nat := addrToMemIndex a.addr

/- The number of slots of an access. -/
def grains (a : Access E H) : Nat := sizeToNumGrains a.memSize

/- The slots that the loops of an access run over. -/
def Covers (a : Access E H) (i : Nat) : Prop :=
  a.start ≤ i ∧ i < a.start + a.grains

instance (a : Access E H) (i : Nat) :
    Decidable (a.Covers i) :=
  inferInstanceAs (Decidable (_ ∧ _))

omit [LinearOrder E] [LinearOrder H] in
/- What a loop of an access leaves in each slot. -/
theorem forGrains_fst
    (a : Access E H)
    (body :
      Option (MemAccess E H) →
        Option (MemAccess E H) × Bool)
    (slots : Slots E H)
    (i : Nat) :
    (Slots.forGrains body a.start a.grains slots).1 i =
      if a.Covers i then (body (slots i)).1
      else slots i :=
  Slots.forGrains_fst body a.start a.grains slots i

omit [LinearOrder E] [LinearOrder H] in
/- When a loop of an access reports a race. -/
theorem forGrains_snd
    (a : Access E H)
    (body :
      Option (MemAccess E H) →
        Option (MemAccess E H) × Bool)
    (slots : Slots E H) :
    (Slots.forGrains body a.start a.grains slots).2 = true ↔
      ∃ i, a.Covers i ∧ (body (slots i)).2 = true :=
  Slots.forGrains_snd body a.start a.grains slots

end Access

------------------------------------------------------------
-- Access Lists
------------------------------------------------------------

/- The readers and writers recorded for one block. -/
structure MemAccessList (E H : Type*) where
  startAddr : BitVec 64
  lreaders : Slots E H
  rreaders : Slots E H
  writers : Slots E H

namespace MemAccessList

variable {E H : Type*} [LinearOrder E] [LinearOrder H]

omit [LinearOrder E] [LinearOrder H] in
/- The constructor, run for the first access to a block. -/
def new (a : Access E H) : MemAccessList E H :=
  let empty : Slots E H := fun _ => none
  let filled :=
    (Slots.forGrains (fun _ => (some a.entry, false))
      (addrToMemIndex a.addr) (sizeToNumGrains a.memSize)
      empty).1
  if a.isRead then
    { startAddr := alignByPrevMaxGrainSize a.addr
      lreaders := filled
      rreaders := filled
      writers := empty }
  else
    { startAddr := alignByPrevMaxGrainSize a.addr
      lreaders := empty
      rreaders := empty
      writers := filled }

/- Check a read against the writers, then record it. -/
def checkRacesAndUpdateWithRead
    (l : MemAccessList E H) (a : Access E H) :
    MemAccessList E H × Bool :=
  let start := a.start
  let grains := a.grains
  let writers :=
    Slots.forGrains a.checkSlot start grains l.writers
  let lreaders :=
    Slots.forGrains a.updateLreader start grains l.lreaders
  let rreaders :=
    Slots.forGrains a.updateRreader start grains l.rreaders
  ({ l with
      lreaders := lreaders.1
      rreaders := rreaders.1 },
    writers.2 || lreaders.2 || rreaders.2)

/- Check and record a write, then check it with the readers. -/
def checkRacesAndUpdateWithWrite
    (l : MemAccessList E H) (a : Access E H) :
    MemAccessList E H × Bool :=
  let start := a.start
  let grains := a.grains
  let writers :=
    Slots.forGrains a.updateWriter start grains l.writers
  let lreaders :=
    Slots.forGrains a.checkSlot start grains l.lreaders
  let rreaders :=
    Slots.forGrains a.checkSlot start grains l.rreaders
  ({ l with writers := writers.1 },
    writers.2 || lreaders.2 || rreaders.2)

def checkRacesAndUpdate
    (l : MemAccessList E H) (a : Access E H) :
    MemAccessList E H × Bool :=
  if a.isRead then l.checkRacesAndUpdateWithRead a
  else l.checkRacesAndUpdateWithWrite a

/- Process accesses one at a time, keeping the race flag. -/
def recordFrom
    (s : MemAccessList E H × Bool) :
    List (Access E H) → MemAccessList E H × Bool
  | [] => s
  | a :: rest =>
      let next := s.1.checkRacesAndUpdate a
      recordFrom (next.1, s.2 || next.2) rest

/- The constructor for the first access, then the others. -/
def record
    (first : Access E H) (rest : List (Access E H)) :
    MemAccessList E H × Bool :=
  recordFrom (new first, false) rest

end MemAccessList

end PRacer
