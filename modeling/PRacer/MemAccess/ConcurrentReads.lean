import PRacer.MemAccess.Undisturbed

/-
  Reader slots under concurrent reads.

  A read decides outside the lock whether it replaces the
  reader of a slot, so the slot may have changed by the time
  of the replacement.  The slots are extremal in the end
  exactly if no replacement loses a reader for good.

  Main declarations:
    * `Kept`
    * `Extremal`
    * `extremal_iff_kept`
    * `reader_lost`
-/

namespace PRacer

open Foundations

namespace Concurrent

variable {ι E H : Type} [LinearOrder E] [LinearOrder H]

------------------------------------------------------------
-- Extremal Slots
------------------------------------------------------------

namespace GrainState

/- A grain that no read has entered since the last write. -/
def unread
    (writer : Option (MemAccess E H)) : GrainState ι E H :=
  { (initial : GrainState ι E H) with writers := writer }

end GrainState

/-
  The left slot holds a read that is last in hebrew order,
  the right slot one that is last in english order.
-/
def Extremal
    (accs : ι → Access E H)
    (s : GrainState ι E H) : Prop :=
  ∀ side : Side, Nonempty ι →
    ∃ k, s.readers side = some (accs k).entry ∧
      ∀ i, side.Le (accs i).strand (accs k).strand

/-
  The condition on a step under which no reader is lost.

  A read replaces the reader of a slot only if it is not
  behind that reader in the order of the slot, or if a read
  that is not behind the reader has yet to pass the slot.
-/
def Kept
    (accs : ι → Access E H)
    (s : GrainState ι E H) (j : ι) : Prop :=
  match s.phase j with
  | .reader side .replace =>
      ∀ m ∈ s.readers side,
        side.Le m.strand (accs j).strand ∨
          ∃ k, ¬ (s.phase k).Passed side ∧
            side.Le m.strand (accs k).strand
  | _ => True

instance (side : Side) (p q : E × H) :
    Decidable (side.Le p q) :=
  match side with
  | .left => inferInstanceAs (Decidable (_ ≤ _))
  | .right => inferInstanceAs (Decidable (_ ≤ _))

instance [Fintype ι]
    (accs : ι → Access E H)
    (s : GrainState ι E H) (j : ι) :
    Decidable (Kept accs s j) := by
  unfold Kept
  rcases s.phase j with _ | _ | ⟨_, _ | _ | _⟩ | _
  all_goals
    dsimp only
    infer_instance

------------------------------------------------------------
-- What a Step Does to a Slot
------------------------------------------------------------

section Steps

variable [DecidableEq ι]
variable {accs : ι → Access E H}
variable {s t : GrainState ι E H} {j : ι}

/-
  A step of read `j` as one reader slot sees it: the slot
  and those that have passed it stay as they are, the read
  passes a reader that it is not ahead of, or it fills the
  slot, which was empty or is replaced.
-/
inductive Effect
    (accs : ι → Access E H)
    (s : GrainState ι E H) (j : ι) (side : Side)
    (t : GrainState ι E H) : Prop
| stays :
    t.readers side = s.readers side →
    (∀ k, (t.phase k).Passed side ↔
      (s.phase k).Passed side) →
    Effect accs s j side t
| passes (m : MemAccess E H) :
    s.readers side = some m →
    t.readers side = some m →
    side.Le (accs j).strand m.strand →
    (∀ k, (t.phase k).Passed side ↔
      k = j ∨ (s.phase k).Passed side) →
    Effect accs s j side t
| fills :
    s.readers side = none ∨
      s.phase j = .reader side .replace →
    t.readers side = some (accs j).entry →
    ¬ (s.phase j).Passed side →
    (∀ k, (t.phase k).Passed side ↔
      k = j ∨ (s.phase k).Passed side) →
    Effect accs s j side t

/- A step that does not take its read past the slot. -/
private theorem effect_stays
    (hMove : Move accs s j t)
    {side : Side}
    (hReaders : t.readers side = s.readers side)
    (hPassed : (t.phase j).Passed side ↔
      (s.phase j).Passed side) :
    Effect accs s j side t := by
  apply Effect.stays hReaders
  intro k
  by_cases hk : k = j
  · subst hk
    exact hPassed
  · rw [hMove.phase_of_ne hk]

/- A step that takes its read past the slot. -/
private theorem passed_iff
    (hMove : Move accs s j t)
    {side : Side}
    (hPassed : (t.phase j).Passed side)
    (k : ι) :
    (t.phase k).Passed side ↔
      k = j ∨ (s.phase k).Passed side := by
  by_cases hk : k = j
  · subst hk
    simp [hPassed]
  · rw [hMove.phase_of_ne hk]
    simp [hk]

/- A read is at one slot at a time. -/
private theorem passed_next_iff_of_ne
    {side other : Side} {stage : Stage}
    (hNe : other ≠ side) :
    side.next.Passed other ↔
      (Phase.reader side stage).Passed other := by
  cases side <;> cases other <;> simp_all [Side.next]

/- Every step of a read has one of the three effects. -/
theorem Move.effect
    (hMove : Move accs s j t)
    (hRead : (accs j).isRead = true)
    (side : Side) :
    Effect accs s j side t := by
  have hCopy := hMove
  cases hMove with
  | start hPhase =>
      apply effect_stays hCopy rfl
      simp [GrainState.goto, hPhase]
  | readLooks hPhase _ =>
      apply effect_stays hCopy rfl
      simp [GrainState.goto, hPhase]
  | writeEmpty hPhase _ _ =>
      apply effect_stays hCopy rfl
      simp [GrainState.goto, hPhase]
  | writeLooks m hPhase _ _ =>
      apply effect_stays hCopy rfl
      simp [GrainState.goto, hPhase]
  | writeLost m hPhase _ =>
      apply effect_stays hCopy rfl
      simp [GrainState.goto, hPhase]
  | publish hPhase =>
      apply effect_stays hCopy rfl
      rcases hPhase with ⟨hPhase, -⟩ | hPhase <;>
        simp [GrainState.goto, hPhase]
  | readEmpty at_ hPhase _ _ =>
      apply effect_stays hCopy rfl
      simp [GrainState.goto, hPhase]
  | readReplaces at_ m hPhase _ _ _ =>
      apply effect_stays hCopy rfl
      simp [GrainState.goto, hPhase]
  | readLost at_ m hPhase _ =>
      apply effect_stays hCopy rfl
      simp [GrainState.goto, hPhase]
  | writeChecks at_ hPhase hWrite =>
      rw [hRead] at hWrite
      cases hWrite
  | readKeeps at_ m hPhase _ hSlot hKeep =>
      by_cases hSide : side = at_
      · subst hSide
        apply Effect.passes m hSlot
        · exact hSlot
        · exact Side.le_of_not_replaces hKeep
        · apply passed_iff hCopy
          simp only [GrainState.goto, Function.update_self]
          cases side <;> simp
      · apply effect_stays hCopy rfl
        simp only [GrainState.goto, Function.update_self]
        rw [hPhase]
        exact passed_next_iff_of_ne hSide
  | readFills at_ hPhase =>
      have hAt : ∃ stage, s.phase j = .reader at_ stage := by
        rcases hPhase with ⟨hPhase, -⟩ | hPhase
        · exact ⟨_, hPhase⟩
        · exact ⟨_, hPhase⟩
      rcases hAt with ⟨stage, hAt⟩
      by_cases hSide : side = at_
      · subst hSide
        apply Effect.fills
        · rcases hPhase with ⟨-, hSlot⟩ | hPhase
          · exact Or.inl hSlot
          · exact Or.inr hPhase
        · simp [GrainState.goto, GrainState.setReader]
        · rw [hAt]
          cases side <;> simp
        · apply passed_iff hCopy
          simp only [GrainState.goto, Function.update_self]
          cases side <;> simp
      · apply effect_stays hCopy
        · simp [GrainState.goto, GrainState.setReader, hSide]
        · simp only [GrainState.goto, Function.update_self]
          rw [hAt]
          exact passed_next_iff_of_ne hSide

------------------------------------------------------------
-- Kept Runs End in Extremal Slots
------------------------------------------------------------

/- Each slot that is not empty holds one of the reads. -/
def Held
    (accs : ι → Access E H)
    (s : GrainState ι E H) : Prop :=
  ∀ side, ∀ m ∈ s.readers side,
    ∃ k, m = (accs k).entry

omit [DecidableEq ι] [LinearOrder E] [LinearOrder H] in
theorem held_unread (writer : Option (MemAccess E H)) :
    Held accs (GrainState.unread writer) := by
  intro side m hSlot
  cases hSlot

omit [DecidableEq ι] in
/- Only reads enter the reader slots. -/
theorem Held.step
    (h : Held accs s)
    (hEffect : ∀ side, Effect accs s j side t) :
    Held accs t := by
  intro side m hSlot
  cases hEffect side with
  | stays hSame _ =>
      rw [hSame] at hSlot
      exact h side m hSlot
  | passes m' hOld hNew _ _ =>
      rw [hNew, ← hOld] at hSlot
      exact h side m hSlot
  | fills _ hNew _ _ =>
      rw [hNew] at hSlot
      cases hSlot
      exact ⟨j, rfl⟩

/-
  Nothing is lost for good: a read that has passed a slot is
  behind the reader there, or behind a read that has yet to
  pass the slot.
-/
def Safe
    (accs : ι → Access E H)
    (s : GrainState ι E H) : Prop :=
  ∀ side i, (s.phase i).Passed side →
    ∃ m, s.readers side = some m ∧
      (side.Le (accs i).strand m.strand ∨
        ∃ k, ¬ (s.phase k).Passed side ∧
          side.Le (accs i).strand (accs k).strand)

omit [DecidableEq ι] in
theorem safe_unread (writer : Option (MemAccess E H)) :
    Safe accs (GrainState.unread writer) := by
  intro side i hPassed
  cases hPassed

omit [DecidableEq ι] in
/- The condition, at the slot that a step replaces. -/
private theorem Kept.le
    (h : Kept accs s j)
    {side : Side} {m : MemAccess E H}
    (hPhase : s.phase j = .reader side .replace)
    (hSlot : s.readers side = some m) :
    side.Le m.strand (accs j).strand ∨
      ∃ k, ¬ (s.phase k).Passed side ∧
        side.Le m.strand (accs k).strand := by
  unfold Kept at h
  rw [hPhase] at h
  exact h m hSlot

/-
  A step moves the reads that a passed one may be behind
  from those to come to the slot.
-/
theorem Safe.step
    (h : Safe accs s)
    (hKept : Kept accs s j)
    (hEffect : ∀ side, Effect accs s j side t) :
    Safe accs t := by
  intro side i hPassed
  cases hEffect side with
  | stays hSame hIff =>
      rw [hIff] at hPassed
      rcases h side i hPassed with ⟨m, hSlot, hLe⟩
      refine ⟨m, hSame.trans hSlot, ?_⟩
      rcases hLe with hLe | ⟨k, hk, hLe⟩
      · exact Or.inl hLe
      · exact Or.inr ⟨k, by rw [hIff]; exact hk, hLe⟩
  | passes m hOld hNew hLe hIff =>
      refine ⟨m, hNew, ?_⟩
      rw [hIff] at hPassed
      rcases hPassed with rfl | hPassed
      · exact Or.inl hLe
      · rcases h side i hPassed with ⟨m', hSlot, hLe'⟩
        obtain rfl : m = m' := by
          simpa [hOld] using hSlot
        rcases hLe' with hLe' | ⟨k, hk, hLe'⟩
        · exact Or.inl hLe'
        · by_cases hkj : k = j
          · subst hkj
            exact Or.inl (hLe'.trans hLe)
          · exact Or.inr ⟨k, by simp [hIff, hkj, hk], hLe'⟩
  | fills hWas hNew hAhead hIff =>
      refine ⟨(accs j).entry, hNew, ?_⟩
      -- What a read was behind is the slot's new reader, or
      -- has yet to pass.
      have hMoves : ∀ k, ¬ (s.phase k).Passed side →
          side.Le (accs i).strand (accs k).strand →
          side.Le (accs i).strand (accs j).strand ∨
            ∃ k, ¬ (t.phase k).Passed side ∧
              side.Le (accs i).strand (accs k).strand := by
        intro k hk hLe
        by_cases hkj : k = j
        · subst hkj
          exact Or.inl hLe
        · exact Or.inr ⟨k, by simp [hIff, hkj, hk], hLe⟩
      rw [hIff] at hPassed
      rcases hPassed with rfl | hPassed
      · exact Or.inl (Side.Le.refl side _)
      · rcases h side i hPassed with ⟨m, hSlot, hLe⟩
        rcases hLe with hLe | ⟨k, hk, hLe⟩
        · rcases hWas with hEmpty | hReplace
          · rw [hEmpty] at hSlot
            cases hSlot
          · rcases hKept.le hReplace hSlot with
              hj | ⟨k, hk, hLe'⟩
            · exact Or.inl (hLe.trans hj)
            · exact hMoves k hk (hLe.trans hLe')
        · exact hMoves k hk hLe

omit [DecidableEq ι] in
/- When no read is left to come, the slots are extremal. -/
theorem Safe.extremal
    (h : Safe accs s)
    (hHeld : Held accs s)
    (hDone : ∀ i, s.phase i = .done) :
    Extremal accs s := by
  intro side hSome
  have hBehind : ∀ i, ∃ m, s.readers side = some m ∧
      side.Le (accs i).strand m.strand := by
    intro i
    rcases h side i (by simp [hDone]) with ⟨m, hSlot, hLe⟩
    rcases hLe with hLe | ⟨k, hk, -⟩
    · exact ⟨m, hSlot, hLe⟩
    · simp [hDone] at hk
  rcases hSome with ⟨i₀⟩
  rcases hBehind i₀ with ⟨m, hSlot, -⟩
  rcases hHeld side m hSlot with ⟨k, rfl⟩
  refine ⟨k, hSlot, ?_⟩
  intro i
  rcases hBehind i with ⟨m', hSlot', hLe⟩
  obtain rfl : (accs k).entry = m' := by
    simpa [hSlot] using hSlot'
  exact hLe

------------------------------------------------------------
-- A Lost Reader Stays Lost
------------------------------------------------------------

/-
  Some read is past the reader of a slot, and so past all
  reads that have yet to pass the slot.
-/
def Lost
    (accs : ι → Access E H)
    (s : GrainState ι E H) : Prop :=
  ∃ side i,
    (∀ m ∈ s.readers side,
      ¬ side.Le (accs i).strand m.strand) ∧
    ∀ k, ¬ (s.phase k).Passed side →
      ¬ side.Le (accs i).strand (accs k).strand

omit [DecidableEq ι] in
theorem Lost.step
    (h : Lost accs s)
    (hEffect : ∀ side, Effect accs s j side t) :
    Lost accs t := by
  rcases h with ⟨side, i, hSlot, hComing⟩
  refine ⟨side, i, ?_⟩
  cases hEffect side with
  | stays hSame hIff =>
      rw [hSame]
      simp only [hIff]
      exact ⟨hSlot, hComing⟩
  | passes m hOld hNew _ hIff =>
      rw [hNew, ← hOld]
      refine ⟨hSlot, ?_⟩
      intro k hk
      rw [hIff, not_or] at hk
      exact hComing k hk.2
  | fills _ hNew hAhead hIff =>
      rw [hNew]
      constructor
      · intro m hm
        cases hm
        exact hComing j hAhead
      · intro k hk
        rw [hIff, not_or] at hk
        exact hComing k hk.2

/- A step that does not meet the condition loses a reader. -/
theorem lost_of_not_kept
    (hHeld : Held accs s)
    (hNotKept : ¬ Kept accs s j) :
    Lost accs (s.exec accs j) := by
  unfold Kept at hNotKept
  split at hNotKept
  case h_2 => exact absurd trivial hNotKept
  case h_1 side hPhase =>
    push Not at hNotKept
    rcases hNotKept with ⟨m, hSlot, hBehind, hComing⟩
    rcases hHeld side m hSlot with ⟨i, rfl⟩
    have hExec : s.exec accs j =
        (s.setReader side (accs j)).goto j side.next := by
      unfold GrainState.exec
      rw [hPhase]
    rw [hExec]
    refine ⟨side, i, ?_, ?_⟩
    · -- The slot holds the read that replaces the lost one.
      intro m hm
      obtain rfl : (accs j).entry = m := by
        simpa [GrainState.goto, GrainState.setReader]
          using hm
      exact hBehind
    · intro k hk
      apply hComing
      intro hPassed
      have hkj : k ≠ j := by
        rintro rfl
        rw [hPhase] at hPassed
        cases side <;> simp at hPassed
      apply hk
      simpa [GrainState.goto, GrainState.setReader, hkj]
        using hPassed

omit [DecidableEq ι] in
/- A lost reader keeps its slot from being extremal. -/
theorem Lost.not_extremal
    (h : Lost accs s) :
    ¬ Extremal accs s := by
  intro hExtremal
  rcases h with ⟨side, i, hSlot, -⟩
  rcases hExtremal side ⟨i⟩ with ⟨k, hk, hAll⟩
  exact hSlot _ hk (hAll i)

------------------------------------------------------------
-- Runs of Reads
------------------------------------------------------------

/- All slots see a step of a read. -/
private theorem effect_of_step
    (hReads : ∀ i, (accs i).isRead = true)
    (hStep : (grainSystem accs).step s j t) :
    ∀ side, Effect accs s j side t := by
  intro side
  rcases hStep with ⟨hCan, rfl⟩
  apply Move.effect
  · exact move_exec accs hCan.1
  · exact hReads j

/- Reads keep the slots to reads, along a whole run. -/
theorem held_of_run
    (hReads : ∀ i, (accs i).isRead = true)
    {writer : Option (MemAccess E H)} {acts : List ι}
    (hRun : (grainSystem accs).Run
      (GrainState.unread writer) acts s) :
    Held accs s := by
  apply hRun.invariant (P := Held accs)
  · intro s j t hHeld hStep
    exact hHeld.step (effect_of_step hReads hStep)
  · exact held_unread writer

/- Kept steps lose nothing, along a whole run. -/
theorem safe_of_run
    (hReads : ∀ i, (accs i).isRead = true)
    {writer : Option (MemAccess E H)} {acts : List ι}
    (hRun : ((grainSystem accs).restrict (Kept accs)).Run
      (GrainState.unread writer) acts s) :
    Safe accs s := by
  apply hRun.invariant (P := Safe accs)
  · rintro s j t hSafe ⟨hStep, hKept⟩
    exact hSafe.step hKept (effect_of_step hReads hStep)
  · exact safe_unread writer

/- A run has lost a reader unless all its steps are kept. -/
theorem kept_or_lost
    (hReads : ∀ i, (accs i).isRead = true)
    {writer : Option (MemAccess E H)} {acts : List ι}
    (hRun : (grainSystem accs).Run
      (GrainState.unread writer) acts s) :
    ((grainSystem accs).restrict (Kept accs)).Run
        (GrainState.unread writer) acts s ∨
      Lost accs s := by
  induction hRun with
  | refl =>
      left
      exact TransitionSystem.Run.refl _
  | tail hFirst hStep ih =>
      rename_i t u acts j
      rcases ih with hKeptRun | hLost
      · by_cases hKept : Kept accs t j
        · left
          exact hKeptRun.tail ⟨hStep, hKept⟩
        · right
          have hHeld := held_of_run hReads hFirst
          rcases hStep with ⟨-, rfl⟩
          exact lost_of_not_kept hHeld hKept
      · right
        exact hLost.step (effect_of_step hReads hStep)

/-
  Once all reads of a grain are done, its reader slots are
  extremal exactly if every replacement in the run was kept.
-/
theorem extremal_iff_kept
    (accs : ι → Access E H)
    (hReads : ∀ i, (accs i).isRead = true)
    (writer : Option (MemAccess E H))
    {acts : List ι} {s : GrainState ι E H}
    (hRun : (grainSystem accs).Run
      (GrainState.unread writer) acts s)
    (hDone : ∀ i, s.phase i = .done) :
    Extremal accs s ↔
      ((grainSystem accs).restrict (Kept accs)).Run
        (GrainState.unread writer) acts s := by
  constructor
  · intro hExtremal
    rcases kept_or_lost hReads hRun with hKept | hLost
    · exact hKept
    · exact absurd hExtremal hLost.not_extremal
  · intro hKept
    have hSafe := safe_of_run hReads hKept
    have hHeld := held_of_run hReads hRun
    exact hSafe.extremal hHeld hDone

end Steps

------------------------------------------------------------
-- Three Parallel Reads
------------------------------------------------------------

/- Reads of one grain by three parallel strands. -/
def threeReads (i : Fin 3) : Access Nat Nat where
  isRead := true
  instAddr := 0
  addr := 0
  memSize := 4
  currEstrand := i
  currHstrand := 2 - i

/-
  The reads take turns.  All three find the left slot empty,
  and the second and the third both compare with the first in
  the right slot; then they replace it in their order.
-/
theorem extremal_overlapping :
    ∃ acts s,
      ((grainSystem threeReads).Run
        (GrainState.unread none) acts s ∧
        ∀ i, s.phase i = .done) ∧
      s.readers .right = some (threeReads 2).entry ∧
      Extremal threeReads s ∧
      (Extremal threeReads s ↔
        ((grainSystem threeReads).restrict
          (Kept threeReads)).Run
            (GrainState.unread none) acts s) := by
  let schedule : List (Fin 3) :=
    [0, 1, 2, 0, 1, 2, 0, 1, 2, 0, 1, 2, 0, 1, 2, 0, 1, 2,
      1, 2]
  have hRun :
      (runSchedule threeReads (Kept threeReads)
        (GrainState.unread none) schedule).map
        (fun s => (decide (∀ i, s.phase i = .done),
          s.readers .right)) =
        some (true, some (threeReads 2).entry) := by
    decide
  rcases Option.map_eq_some_iff.mp hRun with ⟨s, hs, hFields⟩
  simp only [Prod.mk.injEq, decide_eq_true_iff] at hFields
  rcases hFields with ⟨hDone, hRight⟩
  have hKept := run_of_runSchedule _ _ hs
  have hIff := extremal_iff_kept threeReads (fun _ => rfl) none
    hKept.of_restrict hDone
  exact ⟨schedule, s, ⟨hKept.of_restrict, hDone⟩, hRight,
    hIff.mpr hKept, hIff⟩

/-
  The second and the third read both compare with the first
  in the right slot; the third, which is last in english
  order, replaces it before the second one does.
-/
theorem reader_lost :
    ∃ acts s,
      (∀ i j, Planar.Generic (threeReads i).strand
        (threeReads j).strand) ∧
      (∀ i, (threeReads i).isRead = true) ∧
      (grainSystem threeReads).Run
        (GrainState.unread none) acts s ∧
      (∀ i, s.phase i = .done) ∧
      ¬ Extremal threeReads s := by
  let schedule : List (Fin 3) :=
    [0, 0, 0, 0, 0, 0, 1, 1, 1, 1, 2, 2, 2, 2, 2, 1]
  have hRun :
      (runSchedule threeReads (fun _ _ => True)
        (GrainState.unread none) schedule).map
        (fun s => (decide (∀ i, s.phase i = .done),
          s.readers .right)) =
        some (true, some (threeReads 1).entry) := by
    decide
  rcases Option.map_eq_some_iff.mp hRun with ⟨s, hs, hFields⟩
  simp only [Prod.mk.injEq, decide_eq_true_iff] at hFields
  rcases hFields with ⟨hDone, hRight⟩
  refine ⟨schedule, s, by decide, by decide,
    (run_of_runSchedule _ _ hs).of_restrict, hDone, ?_⟩
  intro hExtremal
  rcases hExtremal .right ⟨0⟩ with ⟨k, hSlot, hAll⟩
  rw [hRight, Option.some_inj] at hSlot
  have hLast : Side.right.Le (threeReads 2).strand
      (threeReads 1).strand := by
    have hStrand := congrArg MemAccess.strand hSlot
    rw [show (threeReads 1).strand = (threeReads k).strand
      from hStrand]
    exact hAll 2
  revert hLast
  decide

end Concurrent

end PRacer
