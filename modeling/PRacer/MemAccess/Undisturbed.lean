import PRacer.MemAccess.Concurrent

/-
  Runs whose steps are all undisturbed miss no race.

  `Move` lists what a step can do.  From it the invariant
  `Inv` of the states without a reported race is derived,
  one field at a time.

  Main declarations:
    * `Inv`
    * `Move`, `move_exec`
    * `race_reported_of_undisturbed`
-/

namespace PRacer

open Foundations

namespace Concurrent

variable {ι E H : Type} [LinearOrder E] [LinearOrder H]

------------------------------------------------------------
-- The Invariant
------------------------------------------------------------

/-
  What a reader slot says about the reads that have passed
  it: it holds one of them, and none is ahead of it.
-/
def ReaderSlot
    (accs : ι → Access E H)
    (s : GrainState ι E H) (side : Side) : Prop :=
  match s.readers side with
  | none =>
      ∀ k, (accs k).isRead = true →
        ¬ (s.phase k).Passed side
  | some m =>
      (∃ k, (accs k).isRead = true ∧
        s.phase k ≠ .idle ∧
        (accs k).strand = m.strand) ∧
      ∀ k, (accs k).isRead = true →
        (s.phase k).Passed side →
          side.Le (accs k).strand m.strand

/-
  The state of a grain as long as no race has been reported.
  Writes form a chain, a read is ordered with all writes it
  saw, and a write is ordered with all reads it found in the
  reader slots.
-/
structure Inv
    (accs : ι → Access E H)
    (s : GrainState ι E H) : Prop where
  started :
    ∀ i j,
      Planar.Before (accs i).strand (accs j).strand →
      s.phase j ≠ .idle → s.phase i = .done
  writerPhase :
    ∀ j, s.phase j = .writer .create ∨
      s.phase j = .writer .replace → (accs j).isRead = false
  readerPhase :
    ∀ j side, s.phase j = .reader side .create ∨
      s.phase j = .reader side .replace →
        (accs j).isRead = true
  published :
    ∀ j, j ∈ s.published ↔
      (accs j).isRead = false ∧ (s.phase j).PastWriter
  slot :
    s.writers.map MemAccess.strand =
      s.published.head?.map fun j => (accs j).strand
  chain :
    s.published.Pairwise fun i j =>
      Planar.Below (accs j).strand (accs i).strand
  window :
    ∀ j, s.phase j = .writer .replace →
      ∃ i, s.published.head? = some i ∧
        Planar.Below (accs i).strand (accs j).strand
  seen :
    ∀ r, (accs r).isRead = true → (s.phase r).PastWriter →
      ∀ w ∈ s.seen r,
        ¬ Planar.Parallel (accs w).strand (accs r).strand
  readers : ∀ side, ReaderSlot accs s side
  replace :
    ∀ k side, s.phase k = .reader side .replace →
      ∃ m, s.readers side = some m ∧
        side.Le m.strand (accs k).strand
  checked :
    ∀ w r, (accs w).isRead = false →
      (accs r).isRead = true →
      (s.phase r).PastWriter → w ∉ s.seen r →
      ∀ side, (s.phase w).Passed side →
        Planar.Parallel (accs r).strand (accs w).strand →
        ¬ side.Apart (accs r).strand (accs w).strand

theorem inv_initial (accs : ι → Access E H) :
    Inv accs (GrainState.initial : GrainState ι E H) := by
  constructor <;>
    simp [GrainState.initial, Phase.PastWriter,
      Phase.Passed, ReaderSlot]

------------------------------------------------------------
-- What a Step Can Do
------------------------------------------------------------

/- The effects of the steps of access `j`, with their guards. -/
inductive Move [DecidableEq ι]
    (accs : ι → Access E H)
    (s : GrainState ι E H) (j : ι) :
    GrainState ι E H → Prop
| start :
    s.phase j = .idle →
    Move accs s j (s.goto j (.writer .look))
| readLooks :
    s.phase j = .writer .look →
    (accs j).isRead = true →
    Move accs s j
      ({ s.report (accs j) s.writers with
        seen := Function.update s.seen j s.published }.goto
          j (.reader .left .look))
| writeEmpty :
    s.phase j = .writer .look →
    (accs j).isRead = false →
    s.writers = none →
    Move accs s j (s.goto j (.writer .create))
| writeLooks (m : MemAccess E H) :
    s.phase j = .writer .look →
    (accs j).isRead = false →
    s.writers = some m →
    Move accs s j
      ((s.report (accs j) (some m)).goto j
        (.writer .replace))
| writeLost (m : MemAccess E H) :
    s.phase j = .writer .create →
    s.writers = some m →
    Move accs s j (s.goto j (.writer .look))
| publish :
    (s.phase j = .writer .create ∧ s.writers = none) ∨
      s.phase j = .writer .replace →
    Move accs s j
      ((s.setWriter j (accs j)).goto j
        (.reader .left .look))
| readEmpty (side : Side) :
    s.phase j = .reader side .look →
    (accs j).isRead = true →
    s.readers side = none →
    Move accs s j (s.goto j (.reader side .create))
| readReplaces (side : Side) (m : MemAccess E H) :
    s.phase j = .reader side .look →
    (accs j).isRead = true →
    s.readers side = some m →
    side.replaces (accs j) m = true →
    Move accs s j (s.goto j (.reader side .replace))
| readKeeps (side : Side) (m : MemAccess E H) :
    s.phase j = .reader side .look →
    (accs j).isRead = true →
    s.readers side = some m →
    side.replaces (accs j) m = false →
    Move accs s j (s.goto j side.next)
| readLost (side : Side) (m : MemAccess E H) :
    s.phase j = .reader side .create →
    s.readers side = some m →
    Move accs s j (s.goto j (.reader side .look))
| readFills (side : Side) :
    (s.phase j = .reader side .create ∧
        s.readers side = none) ∨
      s.phase j = .reader side .replace →
    Move accs s j
      ((s.setReader side (accs j)).goto j side.next)
| writeChecks (side : Side) :
    s.phase j = .reader side .look →
    (accs j).isRead = false →
    Move accs s j
      ((s.report (accs j) (s.readers side)).goto j side.next)

section Moves

variable [DecidableEq ι]
variable {accs : ι → Access E H}
variable {s t : GrainState ι E H} {j : ι}

open GrainState

/- Every step is one of the moves. -/
theorem move_exec
    (accs : ι → Access E H)
    (hDone : s.phase j ≠ .done) :
    Move accs s j (s.exec accs j) := by
  unfold exec
  cases hPhase : s.phase j with
  | idle => exact Move.start hPhase
  | done => exact absurd hPhase hDone
  | writer stage =>
      cases stage with
      | look =>
          cases hRead : (accs j).isRead with
          | true =>
              simpa [hRead] using
                Move.readLooks hPhase hRead
          | false =>
              cases hSlot : s.writers with
              | none =>
                  simpa [hRead] using
                    Move.writeEmpty hPhase hRead hSlot
              | some m =>
                  simpa [hRead] using
                    Move.writeLooks m hPhase hRead hSlot
      | create =>
          cases hSlot : s.writers with
          | none => exact Move.publish (Or.inl ⟨hPhase, hSlot⟩)
          | some m => exact Move.writeLost m hPhase hSlot
      | replace => exact Move.publish (Or.inr hPhase)
  | reader side stage =>
      cases stage with
      | look =>
          cases hRead : (accs j).isRead with
          | true =>
              cases hSlot : s.readers side with
              | none =>
                  simpa [hRead, hSlot] using
                    Move.readEmpty side hPhase hRead hSlot
              | some m =>
                  cases hReplace :
                      side.replaces (accs j) m with
                  | true =>
                      simpa [hRead, hSlot, hReplace] using
                        Move.readReplaces side m hPhase
                          hRead hSlot hReplace
                  | false =>
                      simpa [hRead, hSlot, hReplace] using
                        Move.readKeeps side m hPhase
                          hRead hSlot hReplace
          | false =>
              simpa [hRead] using
                Move.writeChecks side hPhase hRead
      | create =>
          cases hSlot : s.readers side with
          | none =>
              simpa [hSlot] using
                Move.readFills side (Or.inl ⟨hPhase, hSlot⟩)
          | some m =>
              simpa [hSlot] using
                Move.readLost side m hPhase hSlot
      | replace => exact Move.readFills side (Or.inr hPhase)

/- A reported race stays reported. -/
theorem Move.raced
    (hMove : Move accs s j t)
    (hRaced : s.raced = true) :
    t.raced = true := by
  cases hMove <;>
    simp [goto, report, setWriter, setReader, hRaced]

/- A step moves no other access. -/
theorem Move.phase_of_ne
    (hMove : Move accs s j t)
    {k : ι} (hNe : k ≠ j) :
    t.phase k = s.phase k := by
  cases hMove <;>
    simp [goto, report, setWriter, setReader, hNe]

/- A step changes what its own access saw only. -/
theorem Move.seen_of_ne
    (hMove : Move accs s j t)
    {k : ι} (hNe : k ≠ j) :
    t.seen k = s.seen k := by
  cases hMove <;>
    simp [goto, report, setWriter, setReader, hNe]

/- Only a read at its look at the writers changes `seen`. -/
theorem Move.seen_of_pastWriter
    (hMove : Move accs s j t)
    (hPast : (s.phase j).PastWriter) :
    t.seen = s.seen := by
  cases hMove <;>
    simp_all [goto, report, setWriter, setReader]

------------------------------------------------------------
-- Preservation: the Writer Slot
------------------------------------------------------------

theorem Inv.started_move
    (h : Inv accs s)
    (hCan : CanStep accs s j)
    (hMove : Move accs s j t) :
    ∀ i k,
      Planar.Before (accs i).strand (accs k).strand →
      t.phase k ≠ .idle → t.phase i = .done := by
  intro i k hBefore hk
  have hEarlier : s.phase i = .done := by
    by_cases hIdle : s.phase k = .idle
    · -- The access `k` starts in this step.
      rcases eq_or_ne k j with rfl | hkj
      · exact (hCan.2 hIdle i).1 hBefore
      · rw [hMove.phase_of_ne hkj] at hk
        exact absurd hIdle hk
    · exact h.started i k hBefore hIdle
  have hij : i ≠ j := by
    rintro rfl
    exact hCan.1 hEarlier
  rw [hMove.phase_of_ne hij]
  exact hEarlier

theorem Inv.writerPhase_move
    (h : Inv accs s)
    (hMove : Move accs s j t) :
    ∀ k, t.phase k = .writer .create ∨
      t.phase k = .writer .replace →
        (accs k).isRead = false := by
  intro k hPhase
  rcases eq_or_ne k j with rfl | hkj
  · cases hMove <;>
      simp_all [goto, report, setWriter, setReader]
  · rw [hMove.phase_of_ne hkj] at hPhase
    exact h.writerPhase k hPhase

theorem Inv.readerPhase_move
    (h : Inv accs s)
    (hMove : Move accs s j t) :
    ∀ k side, t.phase k = .reader side .create ∨
      t.phase k = .reader side .replace →
        (accs k).isRead = true := by
  intro k side hPhase
  rcases eq_or_ne k j with rfl | hkj
  · cases hMove <;>
      simp_all [goto, report, setWriter, setReader]
  · rw [hMove.phase_of_ne hkj] at hPhase
    exact h.readerPhase k side hPhase

omit [DecidableEq ι] in
/- An access that takes the writer slot is a write. -/
theorem Inv.isRead_of_publish
    (h : Inv accs s)
    (hPhase :
      (s.phase j = .writer .create ∧ s.writers = none) ∨
        s.phase j = .writer .replace) :
    (accs j).isRead = false := by
  rcases hPhase with ⟨hCreate, -⟩ | hReplace
  · exact h.writerPhase j (Or.inl hCreate)
  · exact h.writerPhase j (Or.inr hReplace)

theorem Inv.published_move
    (h : Inv accs s)
    (hMove : Move accs s j t) :
    ∀ k, k ∈ t.published ↔
      (accs k).isRead = false ∧
        (t.phase k).PastWriter := by
  intro k
  have hPub := h.published k
  rcases eq_or_ne k j with rfl | hkj
  · cases hMove with
    | publish hPhase =>
        have hWrite := h.isRead_of_publish hPhase
        simp [goto, setWriter, hWrite]
    | readFills side hPhase =>
        rcases hPhase with ⟨hPhase, -⟩ | hPhase <;>
          simp_all [goto, setReader]
    | _ => simp_all [goto, report]
  · rw [hMove.phase_of_ne hkj, ← hPub]
    cases hMove <;>
      simp [goto, report, setWriter, setReader, hkj]

theorem Inv.slot_move
    (h : Inv accs s)
    (hMove : Move accs s j t) :
    t.writers.map MemAccess.strand =
      t.published.head?.map fun i => (accs i).strand := by
  have hSlot := h.slot
  cases hMove with
  | publish => rfl
  | _ => simpa [goto, report, setReader] using hSlot

omit [DecidableEq ι] in
/- An empty writer slot means that no write has taken it. -/
theorem Inv.published_eq_nil
    (h : Inv accs s)
    (hSlot : s.writers = none) :
    s.published = [] := by
  have := h.slot
  simpa [hSlot] using this

omit [DecidableEq ι] in
/- The writer slot holds the latest write. -/
theorem Inv.exists_latest
    (h : Inv accs s)
    {m : MemAccess E H}
    (hSlot : s.writers = some m) :
    ∃ i, s.published.head? = some i ∧
      (accs i).strand = m.strand := by
  have := h.slot
  rw [hSlot, Option.map_some, eq_comm,
    Option.map_eq_some_iff] at this
  exact this

omit [DecidableEq ι] in
/-
  A started access that is not parallel to a running one is
  at or below it.
-/
theorem Inv.below_of_not_parallel
    (h : Inv accs s)
    (hGen : ∀ i j,
      Planar.Generic (accs i).strand (accs j).strand)
    {i : ι}
    (hStarted : s.phase i ≠ .idle)
    (hRunning : s.phase j ≠ .done)
    (hPar : ¬ Planar.Parallel (accs i).strand
      (accs j).strand) :
    Planar.Below (accs i).strand (accs j).strand := by
  refine (hGen i j).below (fun hBefore => ?_) hPar
  exact hRunning (h.started j i hBefore hStarted)

omit [DecidableEq ι] in
/- A silent comparison with the writer slot. -/
theorem Inv.below_of_compareSlot
    (h : Inv accs s)
    (hGen : ∀ i j,
      Planar.Generic (accs i).strand (accs j).strand)
    (hRunning : s.phase j ≠ .done)
    {m : MemAccess E H}
    (hSlot : s.writers = some m)
    (hQuiet : (accs j).compareSlot (some m) = false) :
    ∃ i, s.published.head? = some i ∧
      Planar.Below (accs i).strand (accs j).strand := by
  rcases h.exists_latest hSlot with ⟨i, hHead, hStrand⟩
  refine ⟨i, hHead, ?_⟩
  have hPast : (s.phase i).PastWriter :=
    ((h.published i).mp (List.mem_of_mem_head? hHead)).2
  refine h.below_of_not_parallel hGen
    (Phase.ne_idle_of_pastWriter hPast) hRunning fun hPar => ?_
  have hGenSlot := hGen i j
  rw [hStrand] at hGenSlot hPar
  have hRaces :=
    (MemAccess.racesWith_iff_parallel hGenSlot).mpr hPar
  exact Bool.false_ne_true (hQuiet.symm.trans hRaces)

omit [DecidableEq ι] in
/- All writes are at or below one that the latest is below. -/
theorem Inv.below_of_latest
    (h : Inv accs s)
    {i w : ι} {p : E × H}
    (hHead : s.published.head? = some i)
    (hBelow : Planar.Below (accs i).strand p)
    (hMem : w ∈ s.published) :
    Planar.Below (accs w).strand p := by
  have hChain := h.chain
  cases hList : s.published with
  | nil => simp [hList] at hHead
  | cons latest rest =>
      rw [hList] at hHead hMem hChain
      obtain rfl : latest = i := by simpa using hHead
      rcases List.mem_cons.mp hMem with rfl | hRest
      · exact hBelow
      · exact ((List.pairwise_cons.mp hChain).1 w
          hRest).trans hBelow

theorem Inv.chain_move
    (h : Inv accs s)
    (hMove : Move accs s j t) :
    t.published.Pairwise fun i j =>
      Planar.Below (accs j).strand (accs i).strand := by
  have hChain := h.chain
  cases hMove with
  | publish hPhase =>
      refine List.pairwise_cons.mpr ⟨fun w hMem => ?_, hChain⟩
      rcases hPhase with ⟨-, hSlot⟩ | hReplace
      · have hMem' : w ∈ s.published := hMem
        simp [h.published_eq_nil hSlot] at hMem'
      · rcases h.window j hReplace with ⟨i, hHead, hBelow⟩
        exact h.below_of_latest hHead hBelow hMem
  | _ => exact hChain

theorem Inv.window_move
    (h : Inv accs s)
    (hGen : ∀ i j,
      Planar.Generic (accs i).strand (accs j).strand)
    (hRunning : s.phase j ≠ .done)
    (hUndisturbed : Undisturbed accs s j)
    (hMove : Move accs s j t)
    (hRaced : t.raced = false) :
    ∀ k, t.phase k = .writer .replace →
      ∃ i, t.published.head? = some i ∧
        Planar.Below (accs i).strand (accs k).strand := by
  intro k hPhase
  rcases eq_or_ne k j with rfl | hkj
  · cases hMove with
    | writeLooks m hLook hWrite hSlot =>
        have hQuiet :
            (accs k).compareSlot (some m) = false := by
          simp only [goto, report, Bool.or_eq_false_iff]
            at hRaced
          exact hRaced.2
        exact h.below_of_compareSlot hGen hRunning hSlot
          hQuiet
    | _ => simp [goto, report, setWriter, setReader]
            at hPhase
  · rw [hMove.phase_of_ne hkj] at hPhase
    have hWindow := h.window k hPhase
    cases hMove with
    | publish hTakes =>
        exfalso
        rcases hTakes with ⟨-, hSlot⟩ | hReplace
        · rcases hWindow with ⟨i, hHead, -⟩
          simp [h.published_eq_nil hSlot] at hHead
        · simp only [Undisturbed, hReplace] at hUndisturbed
          exact hUndisturbed k hkj hPhase
    | _ => exact hWindow

theorem Inv.seen_move
    (h : Inv accs s)
    (hGen : ∀ i j,
      Planar.Generic (accs i).strand (accs j).strand)
    (hRunning : s.phase j ≠ .done)
    (hMove : Move accs s j t)
    (hRaced : t.raced = false) :
    ∀ r, (accs r).isRead = true →
      (t.phase r).PastWriter →
      ∀ w ∈ t.seen r,
        ¬ Planar.Parallel (accs w).strand
          (accs r).strand := by
  intro r hRead hPast w hMem
  rcases eq_or_ne r j with rfl | hrj
  · by_cases hPast' : (s.phase r).PastWriter
    · rw [hMove.seen_of_pastWriter hPast'] at hMem
      exact h.seen r hRead hPast' w hMem
    · cases hMove with
      | readLooks hLook _ =>
          have hMem' : w ∈ s.published := by
            simpa [goto, report] using hMem
          have hQuiet :
              (accs r).compareSlot s.writers = false := by
            simp only [goto, report, Bool.or_eq_false_iff]
              at hRaced
            exact hRaced.2
          cases hSlot : s.writers with
          | none =>
              simp [h.published_eq_nil hSlot] at hMem'
          | some m =>
              rw [hSlot] at hQuiet
              rcases h.below_of_compareSlot hGen hRunning
                hSlot hQuiet with ⟨i, hHead, hBelow⟩
              exact (h.below_of_latest hHead hBelow
                hMem').not_parallel
      | publish hPhase =>
          have hWrite := h.isRead_of_publish hPhase
          exact absurd (hRead.symm.trans hWrite) (by simp)
      | readFills side hPhase =>
          rcases hPhase with ⟨hPhase, -⟩ | hPhase <;>
            simp [hPhase] at hPast'
      | _ => simp_all [goto]
  · rw [hMove.seen_of_ne hrj] at hMem
    rw [hMove.phase_of_ne hrj] at hPast
    exact h.seen r hRead hPast w hMem

------------------------------------------------------------
-- Preservation: the Reader Slots
------------------------------------------------------------

omit [DecidableEq ι] in
/- A filled slot goes to a read that none is ahead of. -/
theorem Inv.le_of_fills
    (h : Inv accs s)
    {side : Side}
    (hPhase :
      (s.phase j = .reader side .create ∧
          s.readers side = none) ∨
        s.phase j = .reader side .replace)
    {k : ι}
    (hRead : (accs k).isRead = true)
    (hPassed : (s.phase k).Passed side) :
    side.Le (accs k).strand (accs j).strand := by
  have hReader := h.readers side
  rcases hPhase with ⟨-, hSlot⟩ | hReplace
  · rw [ReaderSlot, hSlot] at hReader
    exact absurd hPassed (hReader k hRead)
  · rcases h.replace j side hReplace with ⟨m, hSlot, hLe⟩
    rw [ReaderSlot, hSlot] at hReader
    exact (hReader.2 k hRead hPassed).trans hLe

theorem Side.Le.refl (side : Side) (p : E × H) :
    side.Le p p := by
  cases side
  · exact le_refl p.2
  · exact le_refl p.1

omit [DecidableEq ι] in
/- An access that fills a reader slot is a read. -/
theorem Inv.isRead_of_fills
    (h : Inv accs s)
    {side : Side}
    (hPhase :
      (s.phase j = .reader side .create ∧
          s.readers side = none) ∨
        s.phase j = .reader side .replace) :
    (accs j).isRead = true := by
  rcases hPhase with ⟨hCreate, -⟩ | hReplace
  · exact h.readerPhase j side (Or.inl hCreate)
  · exact h.readerPhase j side (Or.inr hReplace)

omit [DecidableEq ι] in
/-
  A slot that a step leaves alone keeps what it says, if the
  reads that pass it in the step are not ahead of it.
-/
theorem ReaderSlot.keep
    {side : Side}
    (hReader : ReaderSlot accs s side)
    (hOthers : ∀ k, k ≠ j → t.phase k = s.phase k)
    (hNotIdle : t.phase j ≠ .idle)
    (hSlot : t.readers side = s.readers side)
    (hPassed : (accs j).isRead = true →
      (t.phase j).Passed side →
        (s.phase j).Passed side ∨
        ∃ m, s.readers side = some m ∧
          side.Le (accs j).strand m.strand) :
    ReaderSlot accs t side := by
  unfold ReaderSlot at hReader ⊢
  rw [hSlot]
  cases hHeld : s.readers side with
  | none =>
      rw [hHeld] at hReader
      intro k hRead hPass
      rcases eq_or_ne k j with rfl | hkj
      · rcases hPassed hRead hPass with hOld | ⟨m, hm, -⟩
        · exact hReader k hRead hOld
        · rw [hHeld] at hm
          cases hm
      · rw [hOthers k hkj] at hPass
        exact hReader k hRead hPass
  | some m =>
      rw [hHeld] at hReader
      rcases hReader with
        ⟨⟨k₀, hRead₀, hIdle₀, hStrand₀⟩, hAll⟩
      refine ⟨⟨k₀, hRead₀, ?_, hStrand₀⟩,
        fun k hRead hPass => ?_⟩
      · rcases eq_or_ne k₀ j with rfl | hkj
        · exact hNotIdle
        · rw [hOthers k₀ hkj]
          exact hIdle₀
      · rcases eq_or_ne k j with rfl | hkj
        · rcases hPassed hRead hPass with
            hOld | ⟨m', hm', hLe⟩
          · exact hAll k hRead hOld
          · rw [hHeld] at hm'
            cases hm'
            exact hLe
        · rw [hOthers k hkj] at hPass
          exact hAll k hRead hPass

/- Steps never go back to the idle phase. -/
theorem Move.ne_idle
    (hMove : Move accs s j t) :
    t.phase j ≠ .idle := by
  cases hMove <;>
    simp [goto, report, setWriter, setReader]

theorem Inv.readers_move
    (h : Inv accs s)
    (hMove : Move accs s j t) :
    ∀ side, ReaderSlot accs t side := by
  intro side
  have hReader := h.readers side
  have hNotIdle := hMove.ne_idle
  have hOthers : ∀ k, k ≠ j → t.phase k = s.phase k :=
    fun k hNe => hMove.phase_of_ne hNe
  cases hMove with
  | readFills filled hPhase =>
      rcases eq_or_ne side filled with rfl | hSide
      · -- The slot now holds the entry of `j` itself.
        simp only [ReaderSlot, goto, setReader,
          Function.update_self]
        refine ⟨⟨j, h.isRead_of_fills hPhase,
          hNotIdle, rfl⟩, fun k hRead hPass => ?_⟩
        rcases eq_or_ne k j with rfl | hkj
        · exact Side.Le.refl side _
        · rw [Function.update_of_ne hkj] at hPass
          exact h.le_of_fills hPhase hRead hPass
      · refine hReader.keep hOthers hNotIdle
          (Function.update_of_ne hSide _ _)
          fun _ hPass => Or.inl ?_
        rcases hPhase with ⟨hPhase, -⟩ | hPhase <;>
          cases side <;> cases filled <;>
            simp_all [goto, setReader]
  | readKeeps kept m hPhase hRead hSlot hKeep =>
      refine hReader.keep hOthers hNotIdle rfl
        fun _ hPass => ?_
      rcases eq_or_ne side kept with rfl | hSide
      · exact Or.inr
          ⟨m, hSlot, Side.le_of_not_replaces hKeep⟩
      · left
        cases side <;> cases kept <;> simp_all [goto]
  | writeChecks checked hPhase hWrite =>
      refine hReader.keep hOthers hNotIdle rfl fun hRead => ?_
      exact absurd (hRead.symm.trans hWrite) (by simp)
  | _ =>
      refine hReader.keep hOthers hNotIdle rfl
        fun _ hPass => Or.inl ?_
      simp_all [goto, report, setWriter]

omit [DecidableEq ι] in
/- The reader in a slot is not after a running access. -/
theorem Inv.not_before_reader
    (h : Inv accs s)
    (hRunning : s.phase j ≠ .done)
    {side : Side} {m : MemAccess E H}
    (hSlot : s.readers side = some m) :
    ¬ Planar.Before (accs j).strand m.strand := by
  intro hBefore
  have hReader := h.readers side
  rw [ReaderSlot, hSlot] at hReader
  rcases hReader.1 with ⟨k, -, hIdle, hStrand⟩
  rw [← hStrand] at hBefore
  exact hRunning (h.started j k hBefore hIdle)

theorem Inv.replace_move
    (h : Inv accs s)
    (hRunning : s.phase j ≠ .done)
    (hUndisturbed : Undisturbed accs s j)
    (hMove : Move accs s j t) :
    ∀ k side, t.phase k = .reader side .replace →
      ∃ m, t.readers side = some m ∧
        side.Le m.strand (accs k).strand := by
  intro k side hPhase
  rcases eq_or_ne k j with rfl | hkj
  · cases hMove with
    | readReplaces old m hLook hRead hSlot hReplace =>
        obtain rfl : old = side := by
          simpa [goto] using hPhase
        exact ⟨m, hSlot, Side.le_of_replaces hReplace
          (h.not_before_reader hRunning hSlot)⟩
    | _ => simp [goto, report, setWriter, setReader]
            at hPhase
  · rw [hMove.phase_of_ne hkj] at hPhase
    have hWindow := h.replace k side hPhase
    cases hMove with
    | readFills filled hFills =>
        rcases eq_or_ne side filled with rfl | hSide
        · exfalso
          rcases hFills with ⟨-, hSlot⟩ | hReplace
          · rcases hWindow with ⟨m, hHeld, -⟩
            rw [hSlot] at hHeld
            cases hHeld
          · simp only [Undisturbed, hReplace]
              at hUndisturbed
            exact hUndisturbed k hkj hPhase
        · simpa [goto, setReader, hSide] using hWindow
    | _ => exact hWindow

omit [DecidableEq ι] in
/-
  A write that finds a reader slot silent is not apart from
  any read that has passed the slot.
-/
theorem Inv.not_apart_of_compareSlot
    (h : Inv accs s)
    (hGen : ∀ i j,
      Planar.Generic (accs i).strand (accs j).strand)
    (hRunning : s.phase j ≠ .done)
    {side : Side} {r : ι}
    (hRead : (accs r).isRead = true)
    (hPassed : (s.phase r).Passed side)
    (hQuiet :
      (accs j).compareSlot (s.readers side) = false) :
    ¬ side.Apart (accs r).strand (accs j).strand := by
  intro hApart
  have hReader := h.readers side
  cases hSlot : s.readers side with
  | none =>
      rw [ReaderSlot, hSlot] at hReader
      exact hReader r hRead hPassed
  | some m =>
      have hNot := h.not_before_reader hRunning hSlot
      rw [ReaderSlot, hSlot] at hReader
      rcases hReader with ⟨⟨k, -, -, hStrand⟩, hAll⟩
      have hGenSlot := hGen k j
      rw [hStrand] at hGenSlot
      have hPar := hApart.parallel (hAll r hRead hPassed)
        hGenSlot hNot
      have hRaces :=
        (MemAccess.racesWith_iff_parallel hGenSlot).mpr hPar
      rw [hSlot] at hQuiet
      exact Bool.false_ne_true (hQuiet.symm.trans hRaces)

theorem Inv.checked_move
    (h : Inv accs s)
    (hGen : ∀ i j,
      Planar.Generic (accs i).strand (accs j).strand)
    (hRunning : s.phase j ≠ .done)
    (hUndisturbed : Undisturbed accs s j)
    (hMove : Move accs s j t)
    (hRaced : t.raced = false) :
    ∀ w r, (accs w).isRead = false →
      (accs r).isRead = true →
      (t.phase r).PastWriter → w ∉ t.seen r →
      ∀ side, (t.phase w).Passed side →
        Planar.Parallel (accs r).strand (accs w).strand →
        ¬ side.Apart (accs r).strand (accs w).strand := by
  intro w r hWrite hRead hPast hSeen side hPassed hPar
  have hwr : w ≠ r := by
    rintro rfl
    simp [hRead] at hWrite
  rcases eq_or_ne w j with rfl | hwj
  · -- The write itself moves, so the read stays.
    rw [hMove.phase_of_ne hwr.symm] at hPast
    rw [hMove.seen_of_ne hwr.symm] at hSeen
    by_cases hOld : (s.phase w).Passed side
    · exact h.checked w r hWrite hRead hPast hSeen side
        hOld hPar
    · cases hMove with
      | writeChecks checked hLook _ =>
          obtain rfl : checked = side := by
            cases side <;> cases checked <;>
              simp_all [goto]
          have hQuiet :
              (accs w).compareSlot (s.readers checked) =
                false := by
            simp only [goto, report, Bool.or_eq_false_iff]
              at hRaced
            exact hRaced.2
          intro hApart
          simp only [Undisturbed, hLook] at hUndisturbed
          have hPassedRead : (s.phase r).Passed checked := by
            by_contra hNot
            exact hSeen (hUndisturbed hWrite r hRead hPar
              hApart hPast hNot)
          exact h.not_apart_of_compareSlot hGen hRunning
            hRead hPassedRead hQuiet hApart
      | readFills filled hPhase =>
          have hIsRead := h.isRead_of_fills hPhase
          exact absurd (hIsRead.symm.trans hWrite) (by simp)
      | _ => simp_all [goto, report, setWriter]
  · rw [hMove.phase_of_ne hwj] at hPassed
    rcases eq_or_ne r j with rfl | hrj
    · by_cases hOld : (s.phase r).PastWriter
      · rw [hMove.seen_of_pastWriter hOld] at hSeen
        exact h.checked w r hWrite hRead hOld hSeen side
          hPassed hPar
      · exfalso
        cases hMove with
        | readLooks hLook _ =>
            refine hSeen ?_
            have hMem : w ∈ s.published :=
              (h.published w).mpr
                ⟨hWrite, Phase.pastWriter_of_passed hPassed⟩
            simpa [goto, report] using hMem
        | publish hPhase =>
            have hIsWrite := h.isRead_of_publish hPhase
            exact absurd (hRead.symm.trans hIsWrite)
              (by simp)
        | readFills filled hPhase =>
            rcases hPhase with ⟨hPhase, -⟩ | hPhase <;>
              simp [hPhase] at hOld
        | _ => simp_all [goto]
    · rw [hMove.phase_of_ne hrj] at hPast
      rw [hMove.seen_of_ne hrj] at hSeen
      exact h.checked w r hWrite hRead hPast hSeen side
        hPassed hPar

------------------------------------------------------------
-- Undisturbed Runs
------------------------------------------------------------

/- One undisturbed step that reports no race. -/
theorem Inv.exec
    (h : Inv accs s)
    (hGen : ∀ i j,
      Planar.Generic (accs i).strand (accs j).strand)
    (hCan : CanStep accs s j)
    (hUndisturbed : Undisturbed accs s j)
    (hRaced : (s.exec accs j).raced = false) :
    Inv accs (s.exec accs j) := by
  have hMove := move_exec accs hCan.1
  exact
    { started := h.started_move hCan hMove
      writerPhase := h.writerPhase_move hMove
      readerPhase := h.readerPhase_move hMove
      published := h.published_move hMove
      slot := h.slot_move hMove
      chain := h.chain_move hMove
      window := h.window_move hGen hCan.1 hUndisturbed
        hMove hRaced
      seen := h.seen_move hGen hCan.1 hMove hRaced
      readers := h.readers_move hMove
      replace := h.replace_move hCan.1 hUndisturbed hMove
      checked := h.checked_move hGen hCan.1 hUndisturbed
        hMove hRaced }

omit [DecidableEq ι] in
/- Without a report, no two parallel accesses conflict. -/
theorem Inv.not_parallel_of_done
    (h : Inv accs s)
    {i j : ι}
    (hi : s.phase i = .done)
    (hj : s.phase j = .done)
    (hWrite : (accs i).isRead = false) :
    ¬ Planar.Parallel (accs i).strand (accs j).strand := by
  intro hPar
  have hiMem : i ∈ s.published :=
    (h.published i).mpr ⟨hWrite, by simp [hi]⟩
  cases hRead : (accs j).isRead with
  | false =>
      have hjMem : j ∈ s.published :=
        (h.published j).mpr ⟨hRead, by simp [hj]⟩
      have hForward : s.published.Pairwise fun i j =>
          ¬ Planar.Parallel (accs i).strand
            (accs j).strand :=
        h.chain.imp fun hBelow hPar' =>
          hBelow.not_parallel hPar'.symm
      have hBackward : s.published.Pairwise (flip fun i j =>
          ¬ Planar.Parallel (accs i).strand
            (accs j).strand) :=
        h.chain.imp fun hBelow => hBelow.not_parallel
      exact List.Pairwise.forall_of_forall_of_flip
        (fun _ _ => Planar.Parallel.irrefl)
        hForward hBackward hiMem hjMem hPar
  | true =>
      by_cases hSeen : i ∈ s.seen j
      · exact h.seen j hRead (by simp [hj]) i hSeen hPar
      · rcases Side.exists_apart hPar.symm with
          ⟨side, hApart⟩
        exact h.checked i j hWrite hRead (by simp [hj]) hSeen
          side (by simp [hi]) hPar.symm hApart

/-
  If every step of a run is undisturbed, the run misses no
  race between accesses of generic strands.
-/
theorem race_reported_of_undisturbed
    (accs : ι → Access E H)
    (hGen : ∀ i j,
      Planar.Generic (accs i).strand (accs j).strand)
    {s : GrainState ι E H}
    (hReach :
      ((grainSystem accs).restrict
        (Undisturbed accs)).Reachable s) :
    NoMissedRace accs s := by
  have hInv : s.raced = false → Inv accs s := by
    refine TransitionSystem.Reachable.invariant
      (P := fun s => s.raced = false → Inv accs s)
      ?_ ?_ hReach
    · rintro s rfl _
      exact inv_initial accs
    · rintro s j t hInv ⟨⟨hCan, rfl⟩, hUndisturbed⟩ hRaced
      have hBefore : s.raced = false := by
        by_contra hNot
        have hRaced' := (move_exec accs
          hCan.1).raced (Bool.eq_true_of_not_eq_false hNot)
        exact Bool.false_ne_true
          (hRaced.symm.trans hRaced')
      exact (hInv hBefore).exec hGen hCan hUndisturbed hRaced
  intro i j hi hj hPar hConflict
  by_contra hQuiet
  have h := hInv (Bool.eq_false_of_not_eq_true hQuiet)
  rcases hConflict with hWrite | hWrite
  · exact h.not_parallel_of_done hi hj hWrite hPar
  · exact h.not_parallel_of_done hj hi hWrite hPar.symm

/-
  The two take turns.  The read looks at the writer slot
  before the write takes it, but it is in the left slot by the
  time the write looks there.
-/
theorem race_reported_overlapping :
    ∃ s : GrainState Bool Nat Nat,
      ((grainSystem readAndWrite).restrict
        (Undisturbed readAndWrite)).Reachable s ∧
        (s.phase true = .done ∧ s.phase false = .done) ∧
        s.seen true = [] ∧ s.raced = true ∧
        NoMissedRace readAndWrite s := by
  let schedule : List Bool :=
    [true, false, true, false, true, false, true, false,
      true, false, true]
  have hRun :
      (runSchedule readAndWrite (Undisturbed readAndWrite)
        .initial schedule).map
        (fun s => (s.phase true, s.phase false, s.seen true,
          s.raced)) =
        some (.done, .done, [], true) := by
    decide
  obtain ⟨s, hs, hFields⟩ := Option.map_eq_some_iff.mp hRun
  simp only [Prod.mk.injEq] at hFields
  rcases hFields with ⟨hRead, hWrite, hSeen, hRaced⟩
  have hReach :
      ((grainSystem readAndWrite).restrict
        (Undisturbed readAndWrite)).Reachable s :=
    ⟨_, schedule, rfl, run_of_runSchedule _ _ hs⟩
  exact ⟨s, hReach, ⟨hRead, hWrite⟩, hSeen, hRaced,
    race_reported_of_undisturbed readAndWrite (by decide)
      hReach⟩

end Moves

end Concurrent

end PRacer
