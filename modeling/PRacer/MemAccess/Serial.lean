import Mathlib.Tactic.Common
import PRacer.MemAccess.Model

/-
  Accesses processed one at a time.

  The slots of a block summarize its history: the last
  writer, the reader that is last in hebrew order and the
  reader that is last in english order.  In a history that
  extends the partial order of its strands, comparing with
  these three finds a race as soon as there is one.

  Main declarations:
    * `Records`, the summary invariant
    * `Records.checkRacesAndUpdate`
    * `Records.reports_iff`
    * `record_reports_iff_racy`
-/

------------------------------------------------------------
-- Conflicts
------------------------------------------------------------

namespace PRacer

open Foundations

namespace Access

variable {E H : Type*}

/- The access reaches into a 4-byte grain of memory. -/
def Touches (a : Access E H) (grain : Nat) : Prop :=
  a.addr.toNat < 4 * grain + 4 ∧
    4 * grain < a.addr.toNat + a.memSize

/- Aligned to grains and inside one block. -/
def WellShaped (a : Access E H) : Prop :=
  a.addr.toNat % 4 = 0 ∧
    (a.memSize = 4 ∨ a.memSize = 8 ∨ a.memSize = 16) ∧
    a.addr.toNat % 16 + a.memSize ≤ 16

instance (a : Access E H) : Decidable a.WellShaped :=
  inferInstanceAs (Decidable (_ ∧ _))

/- Two accesses to a common grain, one of them a write. -/
def Conflict (a b : Access E H) : Prop :=
  (∃ grain, a.Touches grain ∧ b.Touches grain) ∧
    (a.isRead = false ∨ b.isRead = false)

theorem Conflict.symm
    {a b : Access E H}
    (h : Conflict a b) :
    Conflict b a := by
  rcases h with ⟨⟨grain, ha, hb⟩, hWrite⟩
  exact ⟨⟨grain, hb, ha⟩, hWrite.symm⟩

/- Within one block, slots stand for grains. -/
theorem exists_touches_iff_exists_covers
    {a b : Access E H}
    (ha : a.WellShaped)
    (hb : b.WellShaped)
    (hBlock : a.addr.toNat / 16 = b.addr.toNat / 16) :
    (∃ grain, a.Touches grain ∧ b.Touches grain) ↔
      ∃ i, a.Covers i ∧ b.Covers i := by
  rcases ha with ⟨haAlign, haSize, haFit⟩
  rcases hb with ⟨hbAlign, hbSize, hbFit⟩
  simp only [Touches, Covers, start, grains,
    addrToMemIndex_eq, sizeToNumGrains_eq]
  constructor
  · rintro ⟨grain, haTouch, hbTouch⟩
    refine ⟨grain - 4 * (a.addr.toNat / 16), ?_, ?_⟩ <;>
      omega
  · rintro ⟨i, haCover, hbCover⟩
    refine ⟨i + 4 * (a.addr.toNat / 16), ?_, ?_⟩ <;>
      omega

end Access

------------------------------------------------------------
-- Histories
------------------------------------------------------------

namespace MemAccessList

variable {E H : Type*} [LinearOrder E] [LinearOrder H]

/- Two accesses of parallel strands conflict. -/
def Racy (hist : List (Access E H)) : Prop :=
  ∃ a ∈ hist, ∃ b ∈ hist,
    a.Conflict b ∧ Planar.Parallel a.strand b.strand

/-
  A history of accesses to one block, listed in a linear
  extension of the partial order of its strands.
-/
structure Legal (hist : List (Access E H)) : Prop where
  shaped : ∀ a ∈ hist, a.WellShaped
  block :
    ∀ a ∈ hist, ∀ b ∈ hist,
      a.addr.toNat / 16 = b.addr.toNat / 16
  generic :
    ∀ a ∈ hist, ∀ b ∈ hist,
      Planar.Generic a.strand b.strand
  extension :
    hist.Pairwise fun a b =>
      ¬ Planar.Before b.strand a.strand

theorem Legal.of_append
    {hist rest : List (Access E H)}
    (hLegal : Legal (hist ++ rest)) :
    Legal hist where
  shaped a ha := hLegal.shaped a (List.mem_append_left _ ha)
  block a ha b hb :=
    hLegal.block a (List.mem_append_left _ ha)
      b (List.mem_append_left _ hb)
  generic a ha b hb :=
    hLegal.generic a (List.mem_append_left _ ha)
      b (List.mem_append_left _ hb)
  extension := (List.pairwise_append.mp hLegal.extension).1

/- A race of the longer history is old or with the end. -/
theorem racy_append_singleton_iff
    (hist : List (Access E H))
    (a : Access E H) :
    Racy (hist ++ [a]) ↔
      Racy hist ∨
        ∃ x ∈ hist, x.Conflict a ∧
          Planar.Parallel x.strand a.strand := by
  constructor
  · rintro ⟨x, hx, y, hy, hConflict, hPar⟩
    rcases List.mem_append.mp hx with hxOld | hxNew <;>
      rcases List.mem_append.mp hy with hyOld | hyNew
    · exact Or.inl ⟨x, hxOld, y, hyOld, hConflict, hPar⟩
    · obtain rfl := List.mem_singleton.mp hyNew
      exact Or.inr ⟨x, hxOld, hConflict, hPar⟩
    · obtain rfl := List.mem_singleton.mp hxNew
      exact Or.inr ⟨y, hyOld, hConflict.symm, hPar.symm⟩
    · obtain rfl := List.mem_singleton.mp hxNew
      obtain rfl := List.mem_singleton.mp hyNew
      exact absurd hPar Planar.Parallel.irrefl
  · rintro (⟨x, hx, y, hy, h⟩ | ⟨x, hx, h⟩)
    · exact ⟨x, List.mem_append_left _ hx,
        y, List.mem_append_left _ hy, h⟩
    · exact ⟨x, List.mem_append_left _ hx,
        a, List.mem_append_right _ (by simp), h⟩

/- The writes of a history to one slot. -/
def writesTo
    (hist : List (Access E H)) (i : Nat) :
    List (Access E H) :=
  hist.filter fun a => !a.isRead && decide (a.Covers i)

/- The reads of a history of one slot. -/
def readsOf
    (hist : List (Access E H)) (i : Nat) :
    List (Access E H) :=
  hist.filter fun a => a.isRead && decide (a.Covers i)

omit [LinearOrder E] [LinearOrder H] in
theorem mem_writesTo
    {hist : List (Access E H)} {i : Nat} {a : Access E H} :
    a ∈ writesTo hist i ↔
      a ∈ hist ∧ a.isRead = false ∧ a.Covers i := by
  simp [writesTo]

omit [LinearOrder E] [LinearOrder H] in
theorem mem_readsOf
    {hist : List (Access E H)} {i : Nat} {a : Access E H} :
    a ∈ readsOf hist i ↔
      a ∈ hist ∧ a.isRead = true ∧ a.Covers i := by
  simp [readsOf]

------------------------------------------------------------
-- The Summary Invariant
------------------------------------------------------------

/-
  A slot holds an access of the list that is maximal in one
  of the two orders; it is empty only for the empty list.
-/
def Extremal
    {γ : Type*} [LE γ]
    (key : E × H → γ)
    (slot : Option (MemAccess E H))
    (accesses : List (Access E H)) : Prop :=
  match slot with
  | none => accesses = []
  | some m =>
      (∃ a ∈ accesses, a.strand = m.strand) ∧
        ∀ a ∈ accesses, key a.strand ≤ key m.strand

/- What the slots of a block say about its history. -/
structure Records
    (hist : List (Access E H))
    (l : MemAccessList E H) : Prop where
  writer :
    ∀ i, (l.writers i).map MemAccess.strand =
      (writesTo hist i).getLast?.map Access.strand
  lreader :
    ∀ i, Extremal Prod.snd (l.lreaders i) (readsOf hist i)
  rreader :
    ∀ i, Extremal Prod.fst (l.rreaders i) (readsOf hist i)

omit [LinearOrder E] [LinearOrder H] in
/- A new access that is maximal takes the slot. -/
theorem Extremal.replace
    {γ : Type*} [Preorder γ]
    {key : E × H → γ}
    {m : MemAccess E H}
    {accesses : List (Access E H)}
    {a : Access E H}
    (hStrand : m.strand = a.strand)
    (hLe :
      ∀ b ∈ accesses, key b.strand ≤ key a.strand) :
    Extremal key (some m) (accesses ++ [a]) := by
  refine ⟨⟨a, by simp, hStrand.symm⟩, ?_⟩
  intro b hb
  rw [hStrand]
  rcases List.mem_append.mp hb with hOld | hNew
  · exact hLe b hOld
  · rw [List.mem_singleton.mp hNew]

omit [LinearOrder E] [LinearOrder H] in
/- An access below the slot leaves it extremal. -/
theorem Extremal.keep
    {γ : Type*} [Preorder γ]
    {key : E × H → γ}
    {m m' : MemAccess E H}
    {accesses : List (Access E H)}
    {a : Access E H}
    (h : Extremal key (some m) accesses)
    (hStrand : m'.strand = m.strand)
    (hLe : key a.strand ≤ key m.strand) :
    Extremal key (some m') (accesses ++ [a]) := by
  rcases h with ⟨⟨b, hb, hSlot⟩, hMax⟩
  refine ⟨⟨b, by simp [hb], hSlot.trans hStrand.symm⟩, ?_⟩
  intro c hc
  rw [hStrand]
  rcases List.mem_append.mp hc with hOld | hNew
  · exact hMax c hOld
  · rwa [List.mem_singleton.mp hNew]

/- The left-reader update keeps the last in hebrew order. -/
theorem Extremal.updateLreader
    {slot : Option (MemAccess E H)}
    {accesses : List (Access E H)}
    (a : Access E H)
    (h : Extremal Prod.snd slot accesses)
    (hNot :
      ∀ b ∈ accesses,
        ¬ Planar.Before a.strand b.strand) :
    Extremal Prod.snd
      (some (a.updateReader a.isLeftmost slot))
      (accesses ++ [a]) := by
  cases slot with
  | none =>
      obtain rfl : accesses = [] := h
      exact Extremal.replace rfl (by simp)
  | some m =>
      rcases h with ⟨⟨b, hb, hStrand⟩, hMax⟩
      have hNotM : ¬ Planar.Before a.strand m.strand :=
        hStrand ▸ hNot b hb
      cases hLeft : a.isLeftmost m with
      | true =>
          have hLe : m.hstrand ≤ a.currHstrand := by
            simp only [Access.isLeftmost, Bool.or_eq_true,
              decide_eq_true_eq] at hLeft
            rcases hLeft with hE | hH
            · exact not_lt.mp fun hH => hNotM ⟨hE, hH⟩
            · exact hH.le
          exact Extremal.replace
            (Access.updateReader_strand_of_replace hLeft)
            fun c hc => (hMax c hc).trans hLe
      | false =>
          have hLe : a.currHstrand ≤ m.hstrand := by
            simp only [Access.isLeftmost,
              Bool.or_eq_false_iff,
              decide_eq_false_iff_not] at hLeft
            exact not_lt.mp hLeft.2
          exact Extremal.keep ⟨⟨b, hb, hStrand⟩, hMax⟩
            (Access.updateReader_strand_of_keep hLeft) hLe

omit [LinearOrder H] in
/- The right-reader update keeps the last in english order. -/
theorem Extremal.updateRreader
    {slot : Option (MemAccess E H)}
    {accesses : List (Access E H)}
    (a : Access E H)
    (h : Extremal Prod.fst slot accesses) :
    Extremal Prod.fst
      (some (a.updateReader a.isRightmost slot))
      (accesses ++ [a]) := by
  cases slot with
  | none =>
      obtain rfl : accesses = [] := h
      exact Extremal.replace rfl (by simp)
  | some m =>
      cases hRight : a.isRightmost m with
      | true =>
          have hLt : m.estrand < a.currEstrand :=
            of_decide_eq_true hRight
          exact Extremal.replace
            (Access.updateReader_strand_of_replace hRight)
            fun c hc => (h.2 c hc).trans hLt.le
      | false =>
          have hLe : a.currEstrand ≤ m.estrand :=
            not_lt.mp (of_decide_eq_false hRight)
          exact h.keep
            (Access.updateReader_strand_of_keep hRight) hLe

------------------------------------------------------------
-- The First Access
------------------------------------------------------------

omit [LinearOrder E] [LinearOrder H] in
/- What the constructor leaves in the slots. -/
theorem new_slots
    (a : Access E H) (i : Nat) :
    ((new a).writers i =
        if a.isRead = false ∧ a.Covers i then
          some a.entry
        else none) ∧
      ((new a).lreaders i =
        if a.isRead = true ∧ a.Covers i then
          some a.entry
        else none) ∧
      ((new a).rreaders i =
        if a.isRead = true ∧ a.Covers i then
          some a.entry
        else none) := by
  cases hRead : a.isRead <;>
    simp [new, hRead, Slots.forGrains_fst, Access.Covers,
      Access.start, Access.grains]

/- The constructor records the first access. -/
theorem Records.new (a : Access E H) :
    Records [a] (new a) where
  writer i := by
    rw [(new_slots a i).1]
    by_cases h : a.isRead = false ∧ a.Covers i <;>
      simp [writesTo, h, Access.entry, MemAccess.strand,
        Access.strand]
  lreader i := by
    rw [(new_slots a i).2.1]
    by_cases h : a.isRead = true ∧ a.Covers i
    · have hReads : readsOf [a] i = [] ++ [a] := by
        simp [readsOf, h]
      rw [if_pos h, hReads]
      exact Extremal.replace rfl (by simp)
    · rw [if_neg h]
      simp [Extremal, readsOf]
      tauto
  rreader i := by
    rw [(new_slots a i).2.2]
    by_cases h : a.isRead = true ∧ a.Covers i
    · have hReads : readsOf [a] i = [] ++ [a] := by
        simp [readsOf, h]
      rw [if_pos h, hReads]
      exact Extremal.replace rfl (by simp)
    · rw [if_neg h]
      simp [Extremal, readsOf]
      tauto

------------------------------------------------------------
-- One More Access
------------------------------------------------------------

/- A read leaves the writers and adds to the readers. -/
theorem Records.read
    {hist : List (Access E H)}
    {l : MemAccessList E H}
    {a : Access E H}
    (hRec : Records hist l)
    (hLegal : Legal (hist ++ [a]))
    (hRead : a.isRead = true) :
    Records (hist ++ [a])
      (l.checkRacesAndUpdateWithRead a).1 where
  writer i := by
    have hWrites :
        writesTo (hist ++ [a]) i = writesTo hist i := by
      simp [writesTo, hRead]
    rw [hWrites]
    exact hRec.writer i
  lreader i := by
    simp only [checkRacesAndUpdateWithRead,
      Access.forGrains_fst]
    by_cases hCover : a.Covers i
    · have hReads :
          readsOf (hist ++ [a]) i =
            readsOf hist i ++ [a] := by
        simp [readsOf, hRead, hCover]
      rw [if_pos hCover, hReads]
      refine (hRec.lreader i).updateLreader a ?_
      intro b hb
      exact (List.pairwise_append.mp hLegal.extension).2.2
        b (mem_readsOf.mp hb).1 a (by simp)
    · have hReads :
          readsOf (hist ++ [a]) i = readsOf hist i := by
        simp [readsOf, hCover]
      rw [if_neg hCover, hReads]
      exact hRec.lreader i
  rreader i := by
    simp only [checkRacesAndUpdateWithRead,
      Access.forGrains_fst]
    by_cases hCover : a.Covers i
    · have hReads :
          readsOf (hist ++ [a]) i =
            readsOf hist i ++ [a] := by
        simp [readsOf, hRead, hCover]
      rw [if_pos hCover, hReads]
      exact (hRec.rreader i).updateRreader a
    · have hReads :
          readsOf (hist ++ [a]) i = readsOf hist i := by
        simp [readsOf, hCover]
      rw [if_neg hCover, hReads]
      exact hRec.rreader i

/- A write becomes the last writer and leaves the readers. -/
theorem Records.write
    {hist : List (Access E H)}
    {l : MemAccessList E H}
    {a : Access E H}
    (hRec : Records hist l)
    (hWrite : a.isRead = false) :
    Records (hist ++ [a])
      (l.checkRacesAndUpdateWithWrite a).1 where
  writer i := by
    simp only [checkRacesAndUpdateWithWrite,
      Access.forGrains_fst]
    by_cases hCover : a.Covers i
    · have hWrites :
          writesTo (hist ++ [a]) i =
            writesTo hist i ++ [a] := by
        simp [writesTo, hWrite, hCover]
      rw [if_pos hCover, hWrites, List.getLast?_concat]
      cases hSlot : l.writers i <;>
        simp [Access.updateWriter, Access.entry,
          MemAccess.updateAccInfo, MemAccess.strand,
          Access.strand]
    · have hWrites :
          writesTo (hist ++ [a]) i = writesTo hist i := by
        simp [writesTo, hCover]
      rw [if_neg hCover, hWrites]
      exact hRec.writer i
  lreader i := by
    have hReads :
        readsOf (hist ++ [a]) i = readsOf hist i := by
      simp [readsOf, hWrite]
    rw [hReads]
    simpa [checkRacesAndUpdateWithWrite] using
      hRec.lreader i
  rreader i := by
    have hReads :
        readsOf (hist ++ [a]) i = readsOf hist i := by
      simp [readsOf, hWrite]
    rw [hReads]
    simpa [checkRacesAndUpdateWithWrite] using
      hRec.rreader i

/- Each processed access is added to the records. -/
theorem Records.checkRacesAndUpdate
    {hist : List (Access E H)}
    {l : MemAccessList E H}
    {a : Access E H}
    (hRec : Records hist l)
    (hLegal : Legal (hist ++ [a])) :
    Records (hist ++ [a]) (l.checkRacesAndUpdate a).1 := by
  unfold MemAccessList.checkRacesAndUpdate
  cases hRead : a.isRead with
  | true => exact hRec.read hLegal hRead
  | false => exact hRec.write hRead

------------------------------------------------------------
-- Reported Races
------------------------------------------------------------

omit [LinearOrder E] [LinearOrder H] in
/- Every element of a list is related to its last one. -/
private theorem rel_getLast
    {R : Access E H → Access E H → Prop}
    {accesses : List (Access E H)}
    {w x : Access E H}
    (hPairwise : accesses.Pairwise R)
    (hLast : accesses.getLast? = some w)
    (hMem : x ∈ accesses) :
    x = w ∨ R x w := by
  obtain ⟨front, rfl⟩ := List.getLast?_eq_some_iff.mp hLast
  rcases List.mem_append.mp hMem with hFront | hEnd
  · exact Or.inr
      ((List.pairwise_append.mp hPairwise).2.2 x hFront
        w (by simp))
  · exact Or.inl (List.mem_singleton.mp hEnd)

/- Writes to one slot conflict. -/
theorem conflict_of_covers
    {a b : Access E H}
    {hist : List (Access E H)}
    {i : Nat}
    (hLegal : Legal hist)
    (ha : a ∈ hist)
    (hb : b ∈ hist)
    (haCover : a.Covers i)
    (hbCover : b.Covers i)
    (hWrite : a.isRead = false ∨ b.isRead = false) :
    a.Conflict b :=
  ⟨(Access.exists_touches_iff_exists_covers
      (hLegal.shaped a ha) (hLegal.shaped b hb)
      (hLegal.block a ha b hb)).mpr
      ⟨i, haCover, hbCover⟩,
    hWrite⟩

/-
  In a race-free history the last writer of a slot is at or
  after all earlier writers of the slot.
-/
theorem below_lastWriter
    {hist : List (Access E H)}
    {w x : Access E H}
    {i : Nat}
    (hLegal : Legal hist)
    (hFree : ¬ Racy hist)
    (hLast : (writesTo hist i).getLast? = some w)
    (hx : x ∈ writesTo hist i) :
    Planar.Below x.strand w.strand := by
  have hw := mem_writesTo.mp (List.mem_of_getLast? hLast)
  have hxHist := mem_writesTo.mp hx
  have hExtension :
      (writesTo hist i).Pairwise fun a b =>
        ¬ Planar.Before b.strand a.strand :=
    hLegal.extension.sublist List.filter_sublist
  rcases rel_getLast hExtension hLast hx with
    rfl | hNotBefore
  · exact Or.inl rfl
  · have hNotPar :
        ¬ Planar.Parallel x.strand w.strand := by
      intro hPar
      exact hFree ⟨x, hxHist.1, w, hw.1,
        conflict_of_covers hLegal hxHist.1 hw.1
          hxHist.2.2 hw.2.2 (Or.inl hxHist.2.1), hPar⟩
    exact (hLegal.generic x hxHist.1 w hw.1).below
      hNotBefore hNotPar

/-
  In a race-free history, a strand parallel to some earlier
  write of a slot is parallel to its last writer.
-/
theorem Records.compareWriter_iff
    {hist : List (Access E H)}
    {l : MemAccessList E H}
    {a : Access E H}
    {i : Nat}
    (hRec : Records hist l)
    (hLegal : Legal (hist ++ [a]))
    (hFree : ¬ Racy hist) :
    a.compareSlot (l.writers i) = true ↔
      ∃ x ∈ writesTo hist i,
        Planar.Parallel x.strand a.strand := by
  have hWriter := hRec.writer i
  cases hLast : (writesTo hist i).getLast? with
  | none =>
      have hSlot : l.writers i = none := by
        simpa [hLast] using hWriter
      have hNil : writesTo hist i = [] :=
        List.getLast?_eq_none_iff.mp hLast
      simp [hSlot, hNil, Access.compareSlot]
  | some w =>
      rw [hLast] at hWriter
      obtain ⟨m, hSlot, hStrand⟩ :
          ∃ m, l.writers i = some m ∧
            m.strand = w.strand := by
        simpa using hWriter
      have hw : w ∈ writesTo hist i :=
        List.mem_of_getLast? hLast
      have hwHist := (mem_writesTo.mp hw).1
      have hGen :
          Planar.Generic w.strand a.strand :=
        hLegal.generic w (by simp [hwHist]) a (by simp)
      have hCompare :
          a.compareSlot (l.writers i) = true ↔
            Planar.Parallel w.strand a.strand := by
        rw [hSlot]
        rw [← hStrand] at hGen ⊢
        exact MemAccess.racesWith_iff_parallel hGen
      rw [hCompare]
      constructor
      · exact fun hPar => ⟨w, hw, hPar⟩
      · rintro ⟨x, hx, hPar⟩
        have hNotBefore :
            ¬ Planar.Before a.strand w.strand :=
          (List.pairwise_append.mp hLegal.extension).2.2
            w hwHist a (by simp)
        exact hPar.of_below hGen
          (below_lastWriter hLegal.of_append hFree hLast hx)
          hNotBefore

/- Comparing with an extremal reader slot. -/
theorem Extremal.compareSlot
    {γ : Type*} [LE γ]
    {key : E × H → γ}
    {slot : Option (MemAccess E H)}
    {accesses : List (Access E H)}
    {a : Access E H}
    (h : Extremal key slot accesses)
    (hGen :
      ∀ x ∈ accesses, Planar.Generic x.strand a.strand)
    (hCompare : a.compareSlot slot = true) :
    ∃ x ∈ accesses,
      Planar.Parallel x.strand a.strand := by
  cases slot with
  | none => simp [Access.compareSlot] at hCompare
  | some m =>
      rcases h with ⟨⟨x, hx, hStrand⟩, -⟩
      refine ⟨x, hx, ?_⟩
      have hGenM := hGen x hx
      rw [hStrand] at hGenM ⊢
      exact (MemAccess.racesWith_iff_parallel hGenM).mp
        hCompare

/-
  A strand parallel to some earlier reader of a slot is
  parallel to its left reader or to its right reader.
-/
theorem Records.compareReaders_iff
    {hist : List (Access E H)}
    {l : MemAccessList E H}
    {a : Access E H}
    {i : Nat}
    (hRec : Records hist l)
    (hLegal : Legal (hist ++ [a])) :
    (a.compareSlot (l.lreaders i) = true ∨
        a.compareSlot (l.rreaders i) = true) ↔
      ∃ x ∈ readsOf hist i,
        Planar.Parallel x.strand a.strand := by
  have hGen :
      ∀ x ∈ readsOf hist i,
        Planar.Generic x.strand a.strand := by
    intro x hx
    exact hLegal.generic x
      (by simp [(mem_readsOf.mp hx).1]) a (by simp)
  have hNotBefore :
      ∀ x ∈ readsOf hist i,
        ¬ Planar.Before a.strand x.strand := by
    intro x hx
    exact (List.pairwise_append.mp hLegal.extension).2.2
      x (mem_readsOf.mp hx).1 a (by simp)
  constructor
  · rintro (hLeft | hRight)
    · exact (hRec.lreader i).compareSlot hGen hLeft
    · exact (hRec.rreader i).compareSlot hGen hRight
  · rintro ⟨x, hx, ⟨hE, hH⟩ | ⟨hE, hH⟩⟩
    · -- The left reader is at or after `x` in hebrew.
      refine Or.inl ?_
      have hLeft := hRec.lreader i
      cases hSlot : l.lreaders i with
      | none =>
          rw [hSlot] at hLeft
          exact absurd hx (by simp [show _ = [] from hLeft])
      | some m =>
          rw [hSlot] at hLeft
          rcases hLeft with ⟨⟨y, hy, hStrand⟩, hMax⟩
          have hGenM := hGen y hy
          have hNotM := hNotBefore y hy
          rw [hStrand] at hGenM hNotM
          exact (MemAccess.racesWith_iff_parallel hGenM).mpr
            (Planar.Parallel.of_snd_le hGenM hNotM hH
              (hMax x hx))
    · -- The right reader is at or after `x` in english.
      refine Or.inr ?_
      have hRight := hRec.rreader i
      cases hSlot : l.rreaders i with
      | none =>
          rw [hSlot] at hRight
          exact absurd hx (by simp [show _ = [] from hRight])
      | some m =>
          rw [hSlot] at hRight
          rcases hRight with ⟨⟨y, hy, hStrand⟩, hMax⟩
          have hGenM := hGen y hy
          have hNotM := hNotBefore y hy
          rw [hStrand] at hGenM hNotM
          exact (MemAccess.racesWith_iff_parallel hGenM).mpr
            (Planar.Parallel.of_fst_le hGenM hNotM hE
              (hMax x hx))

/- The comparisons that can report a race for an access. -/
theorem checkRacesAndUpdate_snd
    (l : MemAccessList E H) (a : Access E H) :
    (l.checkRacesAndUpdate a).2 = true ↔
      ∃ i, a.Covers i ∧
        (a.compareSlot (l.writers i) = true ∨
          (a.isRead = false ∧
            (a.compareSlot (l.lreaders i) = true ∨
              a.compareSlot (l.rreaders i) = true))) := by
  have hWriter :
      ∀ slot, (a.updateWriter slot).2 =
        a.compareSlot slot := by
    intro slot
    cases slot <;> rfl
  unfold MemAccessList.checkRacesAndUpdate
  cases hRead : a.isRead with
  | true =>
      simp [checkRacesAndUpdateWithRead,
        Access.forGrains_snd, Access.checkSlot,
        Access.updateLreader, Access.updateRreader]
  | false =>
      simp only [checkRacesAndUpdateWithWrite,
        Access.forGrains_snd, Access.checkSlot, hWriter,
        Bool.or_eq_true, Bool.false_eq_true, if_false,
        true_and]
      constructor
      · rintro ((⟨i, hi, h⟩ | ⟨i, hi, h⟩) | ⟨i, hi, h⟩)
        · exact ⟨i, hi, Or.inl h⟩
        · exact ⟨i, hi, Or.inr (Or.inl h)⟩
        · exact ⟨i, hi, Or.inr (Or.inr h)⟩
      · rintro ⟨i, hi, h | h | h⟩
        · exact Or.inl (Or.inl ⟨i, hi, h⟩)
        · exact Or.inl (Or.inr ⟨i, hi, h⟩)
        · exact Or.inr ⟨i, hi, h⟩

/-
  After a race-free history, an access is reported exactly
  when it races with an earlier access.
-/
theorem Records.reports_iff
    {hist : List (Access E H)}
    {l : MemAccessList E H}
    {a : Access E H}
    (hRec : Records hist l)
    (hLegal : Legal (hist ++ [a]))
    (hFree : ¬ Racy hist) :
    (l.checkRacesAndUpdate a).2 = true ↔
      ∃ x ∈ hist, x.Conflict a ∧
        Planar.Parallel x.strand a.strand := by
  have hConflict :
      ∀ x ∈ hist, ∀ i, x.Covers i → a.Covers i →
        (x.isRead = false ∨ a.isRead = false) →
          x.Conflict a := by
    intro x hx i hxCover haCover hWrite
    exact conflict_of_covers hLegal (by simp [hx])
      (by simp) hxCover haCover hWrite
  rw [checkRacesAndUpdate_snd]
  simp only [hRec.compareWriter_iff hLegal hFree,
    hRec.compareReaders_iff hLegal]
  constructor
  · rintro ⟨i, hCover, ⟨x, hx, hPar⟩ | ⟨hWrite, x, hx, hPar⟩⟩
    · have hxHist := mem_writesTo.mp hx
      exact ⟨x, hxHist.1,
        hConflict x hxHist.1 i hxHist.2.2 hCover
          (Or.inl hxHist.2.1), hPar⟩
    · have hxHist := mem_readsOf.mp hx
      exact ⟨x, hxHist.1,
        hConflict x hxHist.1 i hxHist.2.2 hCover
          (Or.inr hWrite), hPar⟩
  · rintro ⟨x, hx, ⟨hTouch, hWrite⟩, hPar⟩
    obtain ⟨i, hxCover, haCover⟩ :=
      (Access.exists_touches_iff_exists_covers
        (hLegal.shaped x (by simp [hx]))
        (hLegal.shaped a (by simp))
        (hLegal.block x (by simp [hx]) a (by simp))).mp
        hTouch
    refine ⟨i, haCover, ?_⟩
    cases hRead : x.isRead with
    | false =>
        exact Or.inl
          ⟨x, mem_writesTo.mpr ⟨hx, hRead, hxCover⟩, hPar⟩
    | true =>
        have haWrite : a.isRead = false := by
          simpa [hRead] using hWrite
        exact Or.inr ⟨haWrite,
          x, mem_readsOf.mpr ⟨hx, hRead, hxCover⟩, hPar⟩

------------------------------------------------------------
-- Whole Histories
------------------------------------------------------------

/- Processing more accesses keeps the flag equal to `Racy`. -/
theorem recordFrom_reports_iff_racy
    (hist rest : List (Access E H))
    (l : MemAccessList E H)
    (raced : Bool)
    (hLegal : Legal (hist ++ rest))
    (hRec : Records hist l)
    (hRaced : raced = true ↔ Racy hist) :
    (recordFrom (l, raced) rest).2 = true ↔
      Racy (hist ++ rest) := by
  induction rest generalizing hist l raced with
  | nil => simpa [recordFrom] using hRaced
  | cons a rest ih =>
      have hSplit : hist ++ a :: rest =
          (hist ++ [a]) ++ rest := by
        simp
      rw [hSplit] at hLegal ⊢
      have hLegalA : Legal (hist ++ [a]) :=
        hLegal.of_append
      refine ih (hist ++ [a]) _ _ hLegal
        (hRec.checkRacesAndUpdate hLegalA) ?_
      rw [racy_append_singleton_iff, Bool.or_eq_true,
        hRaced]
      by_cases hRacy : Racy hist
      · simp [hRacy]
      · rw [hRec.reports_iff hLegalA hRacy]

/-
  The detector reports a race exactly when the history has
  one: two accesses of parallel strands to a common grain,
  at least one of them a write.
-/
theorem record_reports_iff_racy
    (first : Access E H)
    (rest : List (Access E H))
    (hLegal : Legal (first :: rest)) :
    (record first rest).2 = true ↔
      Racy (first :: rest) := by
  have hStart : ¬ Racy [first] := by
    rintro ⟨a, ha, b, hb, -, hPar⟩
    rw [List.mem_singleton.mp ha,
      List.mem_singleton.mp hb] at hPar
    exact Planar.Parallel.irrefl hPar
  exact recordFrom_reports_iff_racy [first] rest _ false
    hLegal (Records.new first) (by simp [hStart])

/- A write of two grains, and a parallel read of one. -/
def parallelWrite : Access Nat Nat where
  isRead := false
  instAddr := 0
  addr := 32
  memSize := 8
  currEstrand := 1
  currHstrand := 0

def parallelRead : Access Nat Nat where
  isRead := true
  instAddr := 0
  addr := 36
  memSize := 4
  currEstrand := 0
  currHstrand := 1

theorem record_reports_parallel_read :
    (record parallelWrite [parallelRead]).2 = true ∧
      Racy [parallelWrite, parallelRead] := by
  have hLegal : Legal [parallelWrite, parallelRead] :=
    { shaped := by decide
      block := by decide
      generic := by decide
      extension := by decide }
  have hReports :
      (record parallelWrite [parallelRead]).2 = true := by
    decide
  exact ⟨hReports,
    (record_reports_iff_racy parallelWrite [parallelRead]
      hLegal).mp hReports⟩

end MemAccessList

end PRacer
