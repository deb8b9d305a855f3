import Mathlib.Data.Fintype.Pi
import Mathlib.Tactic.Common
import PRacer.Foundations.TransitionSystem
import PRacer.MemAccess.Model

/-
  Accesses to one grain processed concurrently.

  Every comparison with a slot and every locked update of a
  slot is one atomic step.  A comparison and the update that
  follows it are separate steps, so other accesses may act
  between them.

  Main declarations:
    * `GrainState.exec`, `grainSystem`
    * `missed_race`
    * `Undisturbed`
-/

------------------------------------------------------------
-- Phases of an Access
------------------------------------------------------------

namespace PRacer

open Foundations

namespace Concurrent

/- The two reader slots of a grain. -/
inductive Side where
| left
| right
deriving DecidableEq, Repr

/-
  Where an access stands at one slot: about to look at it,
  about to create it, or about to replace its contents.
-/
inductive Stage where
| look
| create
| replace
deriving DecidableEq, Repr

/- Where an access stands in its routine. -/
inductive Phase where
| idle
| writer (stage : Stage)
| reader (side : Side) (stage : Stage)
| done
deriving DecidableEq, Repr

/- Where an access goes after a reader slot. -/
def Side.next : Side → Phase
| .left => .reader .right .look
| .right => .done

/- The access has left the writer slot. -/
def Phase.PastWriter : Phase → Prop
| .reader _ _ => True
| .done => True
| _ => False

/- The access has left a reader slot. -/
def Phase.Passed : Phase → Side → Prop
| .reader .right _, .left => True
| .done, _ => True
| _, _ => False

instance (p : Phase) : Decidable p.PastWriter :=
  match p with
  | .idle => inferInstanceAs (Decidable False)
  | .writer _ => inferInstanceAs (Decidable False)
  | .reader _ _ => inferInstanceAs (Decidable True)
  | .done => inferInstanceAs (Decidable True)

instance (p : Phase) (side : Side) :
    Decidable (p.Passed side) :=
  match p, side with
  | .idle, _ => inferInstanceAs (Decidable False)
  | .writer _, _ => inferInstanceAs (Decidable False)
  | .reader .left _, _ => inferInstanceAs (Decidable False)
  | .reader .right _, .left =>
      inferInstanceAs (Decidable True)
  | .reader .right _, .right =>
      inferInstanceAs (Decidable False)
  | .done, _ => inferInstanceAs (Decidable True)

------------------------------------------------------------
-- Simplifying Phases
------------------------------------------------------------

namespace Phase

@[simp] theorem not_pastWriter_idle :
    ¬ Phase.idle.PastWriter := id

@[simp] theorem not_pastWriter_writer (stage : Stage) :
    ¬ (Phase.writer stage).PastWriter := id

@[simp] theorem pastWriter_reader
    (side : Side) (stage : Stage) :
    (Phase.reader side stage).PastWriter := trivial

@[simp] theorem pastWriter_done :
    Phase.done.PastWriter := trivial

@[simp] theorem pastWriter_next (side : Side) :
    side.next.PastWriter := by
  cases side <;> trivial

@[simp] theorem not_passed_idle (side : Side) :
    ¬ Phase.idle.Passed side := id

@[simp] theorem not_passed_writer
    (stage : Stage) (side : Side) :
    ¬ (Phase.writer stage).Passed side := id

@[simp] theorem passed_reader
    (side side' : Side) (stage : Stage) :
    (Phase.reader side stage).Passed side' ↔
      side = .right ∧ side' = .left := by
  cases side <;> cases side' <;> simp [Passed]

@[simp] theorem passed_done (side : Side) :
    Phase.done.Passed side := trivial

@[simp] theorem passed_next (side side' : Side) :
    side.next.Passed side' ↔
      side = .right ∨ side' = .left := by
  cases side <;> cases side' <;> simp [Side.next]

theorem pastWriter_of_passed
    {p : Phase} {side : Side}
    (hPassed : p.Passed side) : p.PastWriter := by
  cases p <;> simp_all

theorem ne_idle_of_pastWriter
    {p : Phase} (hPast : p.PastWriter) : p ≠ .idle := by
  rintro rfl
  exact hPast

end Phase

namespace Side

@[simp] theorem next_ne_idle (side : Side) :
    side.next ≠ .idle := by
  cases side <;> simp [next]

@[simp] theorem next_ne_writer
    (side : Side) (stage : Stage) :
    side.next ≠ .writer stage := by
  cases side <;> simp [next]

@[simp] theorem next_ne_create (side side' : Side) :
    side.next ≠ .reader side' .create := by
  cases side <;> simp [next]

@[simp] theorem next_ne_replace (side side' : Side) :
    side.next ≠ .reader side' .replace := by
  cases side <;> simp [next]

end Side

------------------------------------------------------------
-- States and Steps
------------------------------------------------------------

variable {ι E H : Type} [LinearOrder E] [LinearOrder H]

/- When a reader replaces the reader of a slot. -/
def Side.replaces
    (side : Side) (a : Access E H)
    (reader : MemAccess E H) : Bool :=
  match side with
  | .left => a.isLeftmost reader
  | .right => a.isRightmost reader

/-
  The slots of a grain and the phases of its accesses.

  `published` lists the writes that took the writer slot,
  the latest first, and `seen r` is this list at the time
  when the read `r` looked at the writer slot; no step of
  the code depends on them.
-/
structure GrainState (ι E H : Type) where
  writers : Option (MemAccess E H)
  readers : Side → Option (MemAccess E H)
  phase : ι → Phase
  raced : Bool
  published : List ι
  seen : ι → List ι

namespace GrainState

variable [DecidableEq ι]

omit [LinearOrder E] [LinearOrder H] [DecidableEq ι] in
/- An untouched grain. -/
def initial : GrainState ι E H where
  writers := none
  readers := fun _ => none
  phase := fun _ => .idle
  raced := false
  published := []
  seen := fun _ => []

omit [LinearOrder E] [LinearOrder H] in
/- Move an access to another phase. -/
def goto
    (s : GrainState ι E H) (j : ι) (p : Phase) :
    GrainState ι E H :=
  { s with phase := Function.update s.phase j p }

/- Note the answer of a `races_with` call. -/
def report
    (s : GrainState ι E H) (a : Access E H)
    (slot : Option (MemAccess E H)) : GrainState ι E H :=
  { s with raced := s.raced || a.compareSlot slot }

omit [LinearOrder E] [LinearOrder H] [DecidableEq ι] in
/- The locked update of the writer slot. -/
def setWriter
    (s : GrainState ι E H) (j : ι) (a : Access E H) :
    GrainState ι E H :=
  { s with
    writers := some a.entry
    published := j :: s.published }

omit [LinearOrder E] [LinearOrder H] [DecidableEq ι] in
/- The locked update of a reader slot. -/
def setReader
    (s : GrainState ι E H) (side : Side) (a : Access E H) :
    GrainState ι E H :=
  { s with
    readers := Function.update s.readers side
      (some a.entry) }

/-
  The next step of access `j`.  A slot seen empty is created
  under its lock if it is still empty; otherwise the access
  compares with what the slot now holds.
-/
def exec
    (accs : ι → Access E H)
    (s : GrainState ι E H) (j : ι) : GrainState ι E H :=
  let a := accs j
  match s.phase j with
  | .idle => s.goto j (.writer .look)
  | .writer .look =>
      if a.isRead then
        { s.report a s.writers with
          seen := Function.update s.seen j s.published }.goto
            j (.reader .left .look)
      else
        match s.writers with
        | none => s.goto j (.writer .create)
        | some _ =>
            (s.report a s.writers).goto j (.writer .replace)
  | .writer .create =>
      match s.writers with
      | none => (s.setWriter j a).goto j (.reader .left .look)
      | some _ => s.goto j (.writer .look)
  | .writer .replace =>
      (s.setWriter j a).goto j (.reader .left .look)
  | .reader side .look =>
      if a.isRead then
        match s.readers side with
        | none => s.goto j (.reader side .create)
        | some reader =>
            if side.replaces a reader then
              s.goto j (.reader side .replace)
            else s.goto j side.next
      else (s.report a (s.readers side)).goto j side.next
  | .reader side .create =>
      match s.readers side with
      | none => (s.setReader side a).goto j side.next
      | some _ => s.goto j (.reader side .look)
  | .reader side .replace =>
      (s.setReader side a).goto j side.next
  | .done => s

end GrainState

/-
  An access starts after the accesses of all earlier strands
  have finished, and the accesses of one strand do not
  overlap.
-/
def CanStep
    (accs : ι → Access E H)
    (s : GrainState ι E H) (j : ι) : Prop :=
  s.phase j ≠ .done ∧
    (s.phase j = .idle →
      ∀ i,
        (Planar.Before (accs i).strand (accs j).strand →
          s.phase i = .done) ∧
        ((accs i).strand = (accs j).strand →
          s.phase i = .idle ∨ s.phase i = .done))

/- Every interleaving that respects the order of strands. -/
def grainSystem [DecidableEq ι]
    (accs : ι → Access E H) :
    TransitionSystem (GrainState ι E H) ι where
  init s := s = .initial
  step s j t := CanStep accs s j ∧ t = s.exec accs j

instance [Fintype ι]
    (accs : ι → Access E H)
    (s : GrainState ι E H) (j : ι) :
    Decidable (CanStep accs s j) :=
  inferInstanceAs (Decidable (_ ∧ (_ → _)))

/-
  Run a schedule, if each of its steps is allowed and meets
  a condition.
-/
def runSchedule [DecidableEq ι] [Fintype ι]
    (accs : ι → Access E H)
    (cond : GrainState ι E H → ι → Prop)
    [∀ s j, Decidable (cond s j)] :
    GrainState ι E H → List ι → Option (GrainState ι E H)
| s, [] => some s
| s, j :: rest =>
    if CanStep accs s j ∧ cond s j then
      runSchedule accs cond (s.exec accs j) rest
    else none

theorem run_of_runSchedule [DecidableEq ι] [Fintype ι]
    (accs : ι → Access E H)
    (cond : GrainState ι E H → ι → Prop)
    [∀ s j, Decidable (cond s j)]
    {s t : GrainState ι E H}
    {schedule : List ι}
    (hRun : runSchedule accs cond s schedule = some t) :
    ((grainSystem accs).restrict cond).Run s schedule t := by
  induction schedule generalizing s with
  | nil =>
      obtain rfl : s = t := by simpa [runSchedule] using hRun
      exact TransitionSystem.Run.refl _
  | cons j rest ih =>
      by_cases hStep : CanStep accs s j ∧ cond s j
      · rw [runSchedule, if_pos hStep] at hRun
        exact TransitionSystem.Run.head
          ⟨⟨hStep.1, rfl⟩, hStep.2⟩ (ih hRun)
      · rw [runSchedule, if_neg hStep] at hRun
        cases hRun

/-
  Once two conflicting accesses of parallel strands are
  done, some `races_with` call has answered true.
-/
def NoMissedRace [DecidableEq ι]
    (accs : ι → Access E H)
    (s : GrainState ι E H) : Prop :=
  ∀ i j,
    s.phase i = .done → s.phase j = .done →
    Planar.Parallel (accs i).strand (accs j).strand →
    ((accs i).isRead = false ∨ (accs j).isRead = false) →
    s.raced = true

/- A read and a write of one grain by parallel strands. -/
def readAndWrite : Bool → Access Nat Nat
| true =>
    { isRead := true, instAddr := 0, addr := 0, memSize := 4
      currEstrand := 0, currHstrand := 1 }
| false =>
    { isRead := false, instAddr := 0, addr := 0, memSize := 4
      currEstrand := 1, currHstrand := 0 }

/-
  The read looks at the empty writer slot, the write runs to
  its end, and only then the read enters the reader slots:
  neither of the two sees the other.
-/
theorem missed_race :
    ∃ s : GrainState Bool Nat Nat,
      (grainSystem readAndWrite).Reachable s ∧
        ¬ NoMissedRace readAndWrite s := by
  let schedule : List Bool :=
    [true, true, false, false, false, false, false,
      true, true, true, true]
  have hRun :
      (runSchedule readAndWrite (fun _ _ => True)
        .initial schedule).map
        (fun s => (s.raced, s.phase true, s.phase false)) =
        some (false, .done, .done) := by
    decide
  obtain ⟨s, hs, hFields⟩ := Option.map_eq_some_iff.mp hRun
  simp only [Prod.mk.injEq] at hFields
  refine ⟨s, ⟨_, schedule, rfl,
    (run_of_runSchedule _ _ hs).of_restrict⟩, ?_⟩
  intro hNoMissed
  have hRaced := hNoMissed true false hFields.2.1
    hFields.2.2 (by decide) (by decide)
  simp [hFields.1] at hRaced

------------------------------------------------------------
-- The Two Sides
------------------------------------------------------------

/- The order in which a reader slot is extremal. -/
def Side.Le (side : Side) (p q : E × H) : Prop :=
  match side with
  | .left => p.2 ≤ q.2
  | .right => p.1 ≤ q.1

/- A read and a write that the side has to tell apart. -/
def Side.Apart (side : Side) (read write : E × H) : Prop :=
  match side with
  | .left => write.2 < read.2
  | .right => write.1 < read.1

instance (side : Side) (read write : E × H) :
    Decidable (side.Apart read write) :=
  match side with
  | .left => inferInstanceAs (Decidable (_ < _))
  | .right => inferInstanceAs (Decidable (_ < _))

theorem Side.Le.trans
    {side : Side} {p q r : E × H}
    (hpq : side.Le p q) (hqr : side.Le q r) :
    side.Le p r := by
  cases side
  · exact le_trans (show p.2 ≤ q.2 from hpq) hqr
  · exact le_trans (show p.1 ≤ q.1 from hpq) hqr

/- Parallel strands are told apart by one of the sides. -/
theorem Side.exists_apart
    {p q : E × H}
    (hPar : Planar.Parallel p q) :
    ∃ side : Side, side.Apart p q := by
  rcases hPar with h | h
  · exact ⟨.left, h.2⟩
  · exact ⟨.right, h.1⟩

/-
  A reader at or past one that is apart from a write is
  parallel to the write.
-/
theorem Side.Apart.parallel
    {side : Side} {p q r : E × H}
    (hApart : side.Apart p r)
    (hLe : side.Le p q)
    (hGen : Planar.Generic q r)
    (hNot : ¬ Planar.Before r q) :
    Planar.Parallel q r := by
  cases side
  · exact Planar.Parallel.of_snd_le hGen hNot hApart hLe
  · exact Planar.Parallel.of_fst_le hGen hNot hApart hLe

/- A reader replaces those at or before it only. -/
theorem Side.le_of_replaces
    {side : Side} {a : Access E H} {m : MemAccess E H}
    (hReplace : side.replaces a m = true)
    (hNot : ¬ Planar.Before a.strand m.strand) :
    side.Le m.strand a.strand := by
  cases side with
  | left =>
      simp only [Side.replaces, Access.isLeftmost,
        Bool.or_eq_true, decide_eq_true_eq] at hReplace
      rcases hReplace with hE | hH
      · exact not_lt.mp fun hH => hNot ⟨hE, hH⟩
      · exact le_of_lt hH
  | right =>
      exact le_of_lt (of_decide_eq_true hReplace)

/- A reader that does not replace another is behind it. -/
theorem Side.le_of_not_replaces
    {side : Side} {a : Access E H} {m : MemAccess E H}
    (hKeep : side.replaces a m = false) :
    side.Le a.strand m.strand := by
  cases side with
  | left =>
      simp only [Side.replaces, Access.isLeftmost,
        Bool.or_eq_false_iff,
        decide_eq_false_iff_not] at hKeep
      exact not_lt.mp hKeep.2
  | right =>
      exact not_lt.mp (of_decide_eq_false hKeep)

------------------------------------------------------------
-- Undisturbed Steps
------------------------------------------------------------

/-
  The condition on a step under which no race is missed.

  No slot is replaced while another access stands between
  its comparison with the slot and its own replacement.  And
  a write looks at a reader slot only if every parallel read
  that the slot has to tell apart from it has passed the
  slot, has yet to look at the writer slot, or saw this
  write there.
-/
def Undisturbed
    (accs : ι → Access E H)
    (s : GrainState ι E H) (j : ι) : Prop :=
  match s.phase j with
  | .writer .replace =>
      ∀ k, k ≠ j → s.phase k ≠ .writer .replace
  | .reader side .replace =>
      ∀ k, k ≠ j → s.phase k ≠ .reader side .replace
  | .reader side .look =>
      (accs j).isRead = false →
        ∀ k, (accs k).isRead = true →
          Planar.Parallel (accs k).strand (accs j).strand →
          side.Apart (accs k).strand (accs j).strand →
          (s.phase k).PastWriter →
          ¬ (s.phase k).Passed side → j ∈ s.seen k
  | _ => True

instance [DecidableEq ι] [Fintype ι]
    (accs : ι → Access E H)
    (s : GrainState ι E H) (j : ι) :
    Decidable (Undisturbed accs s j) := by
  unfold Undisturbed
  split <;> infer_instance

end Concurrent

end PRacer
