import Mathlib.Tactic.Common
import PRacer.Piper.Invariant

/-
  What a change of one iteration and its block does to the
  invariant.

  Main declarations:
    * `PipeState.blk_setBlock_of_inRing`
    * `Change`, `Core.change`, `Core.live`
-/

------------------------------------------------------------
-- Indices of the Ring
------------------------------------------------------------

namespace PRacer

namespace Piper

variable {W P R : Type} {K : ℕ}

namespace PipeState

theorem leftOf_cast (i : ℤ) :
    leftOf (i : ZMod K) = ((i - 1 : ℤ) : ZMod K) := by
  simp [leftOf]

theorem rightOf_cast (i : ℤ) :
    rightOf (i : ZMod K) = ((i + 1 : ℤ) : ZMod K) := by
  simp [rightOf]

/- The block after the current one, by its old number. -/
theorem nextBlock_eq (s : PipeState W P R K) :
    s.nextBlock = ((s.cur + 1 - K : ℤ) : ZMod K) := by
  simp [nextBlock, rightOf]

theorem block_cast (s : PipeState W P R K) (i : ℤ) :
    s.block i = s.blk i := rfl

/- Iterations of the ring have different blocks. -/
theorem cast_eq_iff
    {s : PipeState W P R K} {i j : ℤ}
    (hI : s.InRing i)
    (hJ : s.InRing j) :
    (j : ZMod K) = i ↔ j = i := by
  constructor
  · intro hEq
    rw [ZMod.intCast_eq_intCast_iff_dvd_sub] at hEq
    unfold InRing at hI hJ
    have hZero :=
      Int.eq_zero_of_abs_lt_dvd hEq (by rw [abs_lt]; omega)
    omega
  · intro hEq
    rw [hEq]

theorem blk_setBlock_of_inRing
    {s : PipeState W P R K} {i j : ℤ}
    (hI : s.InRing i)
    (hJ : s.InRing j)
    (b : Block) :
    (s.setBlock i b).blk j =
      if j = i then b else s.blk j := by
  unfold blk setBlock
  simp only [Function.update_apply, cast_eq_iff hI hJ]

@[simp] theorem blk_setBlock_self
    (s : PipeState W P R K) (i : ℤ) (b : Block) :
    (s.setBlock i b).blk i = b := by
  simp [blk]

@[simp] theorem blk_setPc
    (s : PipeState W P R K) (i j : ℤ) (p : IterPc) :
    (s.setPc i p).blk j = s.blk j := rfl

@[simp] theorem blk_setControl
    (s : PipeState W P R K) (c : ControlFrame W P R)
    (j : ℤ) :
    (s.setControl c).blk j = s.blk j := rfl

@[simp] theorem blk_setWorker [DecidableEq W]
    (s : PipeState W P R K) (w : W) (v : Worker P R)
    (j : ℤ) :
    (s.setWorker w v).blk j = s.blk j := rfl

/- A ring of two blocks or more separates neighbours. -/
theorem cast_ne_succ
    (hK : 1 < K) (i : ℤ) :
    ((i + 1 : ℤ) : ZMod K) ≠ i := by
  intro hEq
  rw [ZMod.intCast_eq_intCast_iff_dvd_sub] at hEq
  have hDvd : (K : ℤ) ∣ 1 := by
    have hNeg := (dvd_neg (a := (K : ℤ))).mpr hEq
    simpa using hNeg
  have hOne := Int.le_of_dvd one_pos hDvd
  omega

theorem check_eq
    {s : PipeState W P R K} {cond : Prop} [Decidable cond]
    (hCond : cond) :
    s.check cond = s := by
  unfold check
  exact if_pos hCond

end PipeState

open PipeState

------------------------------------------------------------
-- Classes of Positions
------------------------------------------------------------

/-
  What the positions share at which an iteration counts as a
  child, is not suspended and has not begun to clean up.
-/
structure IterPc.IsLive (p : IterPc) : Prop where
  freedLeft : p.freedLeft = false
  freedOwn : p.freedOwn = false
  joined : p.joined = true
  isMarked : p.isMarked = false
  moved : p.moved = false
  wakes : p.wakes = true
  ne_notStarted : p ≠ .notStarted
  ne_finished : p ≠ .finished

theorem IterPc.isLive
    {p : IterPc} (hPlace : p.place = .executing) :
    p.IsLive := by
  cases p with
  | body => constructor <;> simp [joined, wakes, freedLeft,
      freedOwn, isMarked, moved]
  | wait f p =>
      cases p <;>
        simp [place, WaitPc.place] at hPlace <;>
        constructor <;> simp [joined, wakes, freedLeft,
          freedOwn, isMarked, WaitPc.isMarked, moved]
  | final => constructor <;> simp [joined, wakes, freedLeft,
      freedOwn, isMarked, moved]
  | leaving => constructor <;> simp [joined, wakes,
      freedLeft, freedOwn, isMarked, moved]
  | _ => simp [place] at hPlace

@[simp] theorem IterPc.isLive_switching (f : Bool) :
    (IterPc.wait f .switching).IsLive := by
  constructor <;> simp [joined, wakes, freedLeft, freedOwn,
    isMarked, WaitPc.isMarked, moved]

@[simp] theorem IterPc.isLive_queued (f : Bool) :
    (IterPc.wait f .queued).IsLive := by
  constructor <;> simp [joined, wakes, freedLeft, freedOwn,
    isMarked, WaitPc.isMarked, moved]

@[simp] theorem IterPc.isLive_enter :
    (IterPc.finishing .enter).IsLive := by
  constructor <;> simp [joined, wakes, freedLeft, freedOwn,
    isMarked, moved]

/-
  The invariant treats the two positions alike, but for the
  decrements, for who has the iteration and for what it is
  still to do.
-/
structure IterPc.Alike (p p' : IterPc) : Prop where
  isMarked : p'.isMarked = p.isMarked
  posted : p'.posted = p.posted
  moved : p'.moved = p.moved
  joined : p'.joined = true → p.joined = true
  started : p ≠ .notStarted
  started' : p' ≠ .notStarted
  queued : p'.place ≠ .queued
  locked : ∀ f, p' ≠ .wait f .marked

/- The own block is the last one an iteration decrements. -/
theorem IterPc.freedLeft_of_freedOwn
    {p : IterPc} (hFreed : p.freedOwn = true) :
    p.freedLeft = true ∧ p.moved = true ∧
      p ≠ .notStarted := by
  cases p with
  | exiting p =>
      cases p <;> simp [IterPc.freedOwn] at hFreed
  | finishing p =>
      cases p <;>
        simp [IterPc.freedOwn, IterPc.freedLeft,
          IterPc.moved] at hFreed ⊢
  | finished => simp [IterPc.freedLeft, IterPc.moved]
  | _ => simp [IterPc.freedOwn] at hFreed

------------------------------------------------------------
-- Where Iterations Stand
------------------------------------------------------------

namespace Positions

variable {s : PipeState W P R K}

/- An iteration that still needs its left block is in use. -/
theorem one_le
    (h : Positions s) {i : ℤ}
    (hPc : s.pc i ≠ .finished) : 1 ≤ i := by
  by_contra hLe
  exact hPc (h.before i (by omega))

theorem le_cur
    (h : Positions s) {i : ℤ}
    (hPc : s.pc i ≠ .notStarted) : i ≤ s.cur := by
  by_contra hLe
  exact hPc (h.after i (by omega))

theorem inRing
    (h : Positions s) {i : ℤ}
    (hStarted : s.pc i ≠ .notStarted)
    (hOwn : (s.pc i).freedOwn = false) : s.InRing i := by
  refine ⟨?_, h.le_cur hStarted⟩
  by_contra hLe
  have hFreed := (h.window i (by omega)).1
  rw [hOwn] at hFreed
  exact Bool.false_ne_true hFreed

theorem inRing_left
    (h : Positions s) {i : ℤ}
    (hStarted : s.pc i ≠ .notStarted)
    (hLeft : (s.pc i).freedLeft = false) :
    s.InRing (i - 1) := by
  have hLe := h.le_cur hStarted
  refine ⟨?_, by omega⟩
  by_contra hLt
  have hFreed := (h.window (i - 1) (by omega)).2
  unfold rightFreed at hFreed
  rw [show i - 1 + 1 = i by omega, hLeft] at hFreed
  exact Bool.false_ne_true hFreed

/- The left neighbour of a started iteration is promoted. -/
theorem not_attached_left
    (h : Positions s) {i : ℤ}
    (hStarted : s.pc i ≠ .notStarted) :
    s.attachedAt (i - 1) = false := by
  have hLe := h.le_cur hStarted
  simp only [attachedAt, Bool.and_eq_false_iff,
    decide_eq_false_iff_not]
  right
  omega

/-
  The iteration moves on inside the loop: it stays started,
  keeps its decrements, and is in an attached exit or a child
  as before.
-/
theorem move
    (h : Positions s) {t : PipeState W P R K} {i : ℤ}
    {p : IterPc}
    (hPc : t.pc = Function.update s.pc i p)
    (hCur : t.cur = s.cur)
    (hCpc : t.control.pc = s.control.pc ∨
      s.control.pc = .child false ∧
        t.control.pc = .child true)
    (hFull :
      t.control.hasFullFrame = s.control.hasFullFrame)
    (hStarted : s.pc i ≠ .notStarted)
    (hFinished : s.pc i ≠ .finished)
    (hStarted' : p ≠ .notStarted)
    (hOwn : (s.pc i).freedOwn = true → p.freedOwn = true)
    (hLeft : (s.pc i).freedLeft = true → p.freedLeft = true)
    (hPlace :
      p.place = (s.pc i).place ∨
        p.place ≠ .exiting ∧ s.attachedAt i = false ∧
          (s.control.hasFullFrame = true ∨ p = .finished)) :
    Positions t := by
  have hOne := h.one_le hFinished
  have hLe := h.le_cur hStarted
  have hApply : ∀ j,
      t.pc j = if j = i then p else s.pc j := by
    intro j
    rw [hPc, Function.update_apply]
  have hFreed : ∀ j, s.Freed j → t.Freed j := by
    intro j hFreed
    unfold Freed rightFreed at hFreed ⊢
    rw [hApply, hApply]
    constructor
    · split
      · rename_i hEq
        exact hOwn (hEq ▸ hFreed.1)
      · exact hFreed.1
    · split
      · rename_i hEq
        exact hLeft (hEq ▸ hFreed.2)
      · exact hFreed.2
  have hAtt : ∀ j, t.attachedAt j = s.attachedAt j := by
    intro j
    unfold attachedAt
    rw [hCur]
    rcases hCpc with hSame | ⟨hOld, hNew⟩
    · rw [hSame]
    · rw [hOld, hNew]
      rfl
  have hAhead :
      t.control.pc.ahead = s.control.pc.ahead := by
    rcases hCpc with hSame | ⟨hOld, hNew⟩
    · rw [hSame]
    · rw [hOld, hNew]
      rfl
  have hExit : p.place = .exiting →
      (s.pc i).place = .exiting := by
    intro hEq
    rcases hPlace with hSame | ⟨hNot, -⟩
    · rw [← hSame, hEq]
    · exact absurd hEq hNot
  constructor
  · exact h.ring
  · rw [hCur]
    exact h.curPos
  · intro j hJ
    rw [hApply, if_neg (by omega)]
    exact h.before j hJ
  · intro j hJ
    rw [hCur] at hJ
    rw [hApply, if_neg (by omega)]
    exact h.after j hJ
  · intro j hJ
    rw [hCur] at hJ
    rw [hApply]
    split
    · exact hStarted'
    · exact h.started j hJ
  · rw [hAhead, hCur, hApply, ← h.current]
    split
    · rename_i hEq
      rw [hEq]
      simp only [hStarted', hStarted]
    · rfl
  · intro b hB
    have hOld : ∃ b', s.control.pc = .child b' := by
      rcases hCpc with hSame | ⟨hOld, -⟩
      · exact ⟨b, hSame ▸ hB⟩
      · exact ⟨_, hOld⟩
    rcases hOld with ⟨b', hOld⟩
    rw [hCur, hApply]
    split
    · rename_i hEq
      rcases hPlace with hSame | ⟨-, hNot, -⟩
      · rw [hSame, ← hEq]
        exact h.child b' hOld
      · simp [attachedAt, hOld, hEq, ControlPc.attached]
          at hNot
    · exact h.child b' hOld
  · intro hPopped
    have hOld : s.control.pc = .popped := by
      rcases hCpc with hSame | ⟨-, hNew⟩
      · exact hSame ▸ hPopped
      · rw [hNew] at hPopped
        simp at hPopped
    rw [hCur, hApply]
    split
    · rename_i hEq
      rcases hPlace with hSame | ⟨-, hNot, -⟩
      · rw [hSame, ← hEq]
        exact h.popped hOld
      · simp [attachedAt, hOld, hEq, ControlPc.attached]
          at hNot
    · exact h.popped hOld
  · intro j hJ
    rw [hApply] at hJ
    have hOld : (s.pc j).place = .exiting := by
      split at hJ
      · rename_i hEq
        rw [hEq]
        exact hExit hJ
      · exact hJ
    rcases h.exiting j hOld with ⟨hEq, hPopped⟩
    refine ⟨by rw [hCur]; exact hEq, ?_⟩
    rcases hCpc with hSame | ⟨hChild, -⟩
    · rw [hSame]
      exact hPopped
    · rw [hChild] at hPopped
      simp at hPopped
  · intro hNone j hJ hStart hNot
    rw [hFull] at hNone
    rw [hCur] at hJ
    rw [hAtt] at hNot
    rw [hApply] at hStart ⊢
    split
    · rename_i hEq
      subst hEq
      rcases hPlace with hSame | ⟨-, -, hSome | hEnd⟩
      · exact absurd
          (h.unstolen hNone j hJ hStarted hNot) hFinished
      · rw [hSome] at hNone
        exact absurd hNone (by simp)
      · exact hEnd
    · rename_i hNe
      rw [if_neg hNe] at hStart
      exact h.unstolen hNone j hJ hStart hNot
  · intro j hJ
    rw [hCur] at hJ
    exact hFreed j (h.window j hJ)
  · intro hPassing
    rw [hCur]
    apply hFreed
    apply h.passing
    rcases hCpc with hSame | ⟨-, hNew⟩
    · exact hSame ▸ hPassing
    · rw [hNew] at hPassing
      simp at hPassing

end Positions

------------------------------------------------------------
-- One Iteration and Its Block
------------------------------------------------------------

theorem IterPc.freedOwn_of_freedLeft
    {p : IterPc} (hLeft : p.freedLeft = false) :
    p.freedOwn = false := by
  by_contra hOwn
  rw [Bool.not_eq_false] at hOwn
  have hFreed := (IterPc.freedLeft_of_freedOwn hOwn).1
  rw [hLeft] at hFreed
  exact Bool.false_ne_true hFreed

/-
  Iteration `i` goes to `p`, its block becomes `b`, and the
  other iterations see no difference.
-/
structure Change
    (s t : PipeState W P R K) (i : ℤ) (p : IterPc)
    (b : Block) : Prop where
  pc : t.pc = Function.update s.pc i p
  blk :
    ∀ j, s.InRing j →
      t.blk j = if j = i then b else s.blk j
  cur : t.cur = s.cur
  attached :
    ∀ j, j ≠ i → t.attachedAt j = s.attachedAt j
  throttled :
    ∀ j, j ≠ i → t.throttledAt j = s.throttledAt j

namespace Change

variable {s t : PipeState W P R K} {i : ℤ} {p : IterPc}
variable {b : Block}

theorem pc_apply
    (h : Change s t i p b) (j : ℤ) :
    t.pc j = if j = i then p else s.pc j := by
  rw [h.pc, Function.update_apply]

theorem inRing_iff
    (h : Change s t i p b) (j : ℤ) :
    t.InRing j ↔ s.InRing j := by
  unfold InRing
  rw [h.cur]

/- The children when the iteration stays one or none. -/
theorem children
    (h : Change s t i p b)
    (hCore : Core s)
    (hSame : t.control.children = s.control.children)
    (hJoined : p.joined = (s.pc i).joined)
    (hAtt : t.attachedAt i = s.attachedAt i) (j : ℤ) :
    j ∈ t.control.children ↔
      (t.pc j).joined = true ∧ t.attachedAt j = false := by
  rw [hSame, h.pc_apply, hCore.children j]
  split
  · rename_i hEq
    rw [hEq, hJoined, hAtt]
  · rename_i hNe
    rw [h.attached j hNe]

end Change

/-
  The core is kept if the new position and block fit each
  other and the two neighbours, and the left block is not
  decremented.
-/
theorem Core.change
    {s t : PipeState W P R K} {i : ℤ} {p : IterPc}
    {b : Block}
    (h : Core s)
    (hPos : Positions t)
    (hChange : Change s t i p b)
    (hLeft : p.freedLeft = (s.pc i).freedLeft)
    (hBlock :
      s.InRing i →
        BlockOk i p (s.rightFreed i) (t.attachedAt i)
          (t.throttledAt i) b)
    (hOwn :
      1 ≤ i → p.freedLeft = false →
        LinkOk p b (s.pc (i - 1)) (s.blk (i - 1)))
    (hRight :
      s.pc (i + 1) ≠ .notStarted →
        LinkOk (s.pc (i + 1)) (s.blk (i + 1)) (s.pc i)
          (s.blk i) →
        LinkOk (s.pc (i + 1)) (s.blk (i + 1)) p b)
    (hChildren :
      ∀ j, j ∈ t.control.children ↔
        (t.pc j).joined = true ∧ t.attachedAt j = false) :
    Core t := by
  have hRightFreed : ∀ j, t.rightFreed j = s.rightFreed j := by
    intro j
    unfold rightFreed
    rw [hChange.pc_apply]
    split
    · rename_i hEq
      rw [hEq, hLeft]
    · rfl
  refine ⟨hPos, ?_, ?_, hChildren⟩
  · intro j hJ
    rw [hChange.inRing_iff] at hJ
    rw [hChange.pc_apply, hChange.blk j hJ, hRightFreed]
    split
    · rename_i hEq
      rw [hEq] at hJ ⊢
      exact hBlock hJ
    · rename_i hNe
      rw [hChange.attached j hNe, hChange.throttled j hNe]
      exact h.blocks j hJ
  · intro j hOne hStarted hFree
    have hRingJ := hPos.inRing hStarted
      (IterPc.freedOwn_of_freedLeft hFree)
    have hRingL := hPos.inRing_left hStarted hFree
    rw [hChange.inRing_iff] at hRingJ hRingL
    rw [hChange.pc_apply] at hStarted hFree
    rw [hChange.pc_apply, hChange.pc_apply,
      hChange.blk j hRingJ, hChange.blk _ hRingL]
    by_cases hEq : j = i
    · subst hEq
      rw [if_pos rfl] at hFree
      rw [if_pos rfl, if_pos rfl, if_neg (by omega),
        if_neg (by omega)]
      exact hOwn hOne hFree
    · rw [if_neg hEq] at hStarted hFree
      have hOld := h.links j hOne hStarted hFree
      rw [if_neg hEq, if_neg hEq]
      by_cases hNext : j - 1 = i
      · have hJ : j = i + 1 := by omega
        subst hJ
        rw [if_pos hNext, if_pos hNext]
        rw [hNext] at hOld
        exact hRight hStarted hOld
      · rw [if_neg hNext, if_neg hNext]
        exact hOld

/- The block of an iteration that goes to a like position. -/
theorem BlockOk.alike
    {i : ℤ} {p p' : IterPc} {right attached throttled : Bool}
    {b b' : Block}
    (h : BlockOk i p right attached throttled b)
    (hAlike : p.Alike p')
    (hOwn : p'.freedOwn = p.freedOwn)
    (hB : b' = { b with dataLock := b'.dataLock }) :
    BlockOk i p' right attached throttled b' := by
  rw [hB]
  constructor
  · rw [hOwn]
    exact h.counter
  · rw [hOwn]
    exact h.available
  · rw [hOwn]
    exact h.marks
  · rw [hOwn]
    exact h.unzeroed
  · rw [hOwn]
    exact h.zeroed
  · rw [hOwn]
    intro hDone
    apply h.done
    exact hDone.imp_left
      (fun hEq => absurd hEq hAlike.started')
  · rw [hAlike.isMarked]
    exact h.marked
  · rw [hOwn, hAlike.isMarked]
    intro _
    exact h.active hAlike.started
  · intro hAtt _
    exact h.standard hAtt hAlike.started
  · rw [hAlike.isMarked]
    intro hAtt hJoined
    exact h.promoted hAtt (hAlike.joined hJoined)
  · intro hQueued
    exact absurd hQueued hAlike.queued
  · intro f hEq
    exact absurd hEq (hAlike.locked f)
  · intro hZero _
    exact h.iterNum hZero hAlike.started
  · intro hZero _
    exact h.started hZero hAlike.started
  · rw [hAlike.posted, hAlike.moved]
    intro hZero _
    exact h.early hZero hAlike.started
  · rw [hAlike.posted]
    exact h.posted
  · rw [hAlike.moved]
    exact h.moved

/-
  An iteration goes to a like position.  If it gives up its
  duty to wake its neighbour, the neighbour must not wait.
-/
theorem Core.alike
    {s t : PipeState W P R K} {i : ℤ} {p : IterPc}
    {b : Block}
    (h : Core s)
    (hChange : Change s t i p b)
    (hPos : Positions t)
    (hAlike : (s.pc i).Alike p)
    (hLeft : p.freedLeft = (s.pc i).freedLeft)
    (hOwn : p.freedOwn = (s.pc i).freedOwn)
    (hAtt : t.attachedAt i = s.attachedAt i)
    (hThr : t.throttledAt i = s.throttledAt i)
    (hB : b = { s.blk i with dataLock := b.dataLock })
    (hWakes :
      p.wakes = true ∨
        ((s.pc (i + 1)).isMarked = true →
          (s.blk i).stage ≤ (s.blk (i + 1)).stage))
    (hChildren :
      ∀ j, j ∈ t.control.children ↔
        (t.pc j).joined = true ∧ t.attachedAt j = false) :
    Core t := by
  apply h.change hPos hChange hLeft
  · intro hRing
    rw [hAtt, hThr]
    exact (h.blocks i hRing).alike hAlike hOwn hB
  · intro hOne hFree
    rw [hLeft] at hFree
    have hLink := h.links i hOne hAlike.started hFree
    rw [hB]
    refine ⟨hLink.cached, ?_⟩
    rw [hAlike.isMarked]
    exact hLink.wakes
  · intro _ hLink
    rw [hB]
    refine ⟨hLink.cached, ?_⟩
    intro hMark hLt
    rcases hWakes with hWakes | hStall
    · exact hWakes
    · exact absurd (hStall hMark) (not_le.mpr hLt)
  · exact hChildren

/-
  An iteration stays live: only its stage counter, its cached
  counter, its frame's flags and its position change.
-/
theorem Core.live
    {s t : PipeState W P R K} {i : ℤ} {p : IterPc}
    {b : Block}
    (h : Core s)
    (hChange : Change s t i p b)
    (hPos : Positions t)
    (hSame : t.control.children = s.control.children)
    (hAtt : t.attachedAt i = s.attachedAt i)
    (hThr : t.throttledAt i = s.throttledAt i)
    (hO : (s.pc i).IsLive)
    (hN : p.IsLive)
    (hB : b = { s.blk i with
      stage := b.stage
      cachedLeftStage := b.cachedLeftStage
      resumeFlags := b.resumeFlags })
    (hQueued :
      p.place = .queued → b.resumeFlags = .resumingIter)
    (hStage : (s.blk i).stage ≤ b.stage)
    (hEarly :
      p.posted = false →
        b.stage ≤ stageUserToSys finalUserStage)
    (hPosted :
      p.posted = true →
        b.stage = stageUserToSys postIterCleanupStage)
    (hCached :
      b.cachedLeftStage = (s.blk i).cachedLeftStage ∨
        b.cachedLeftStage = (s.blk (i - 1)).stage) :
    Core t := by
  have hOk := h.blocks i
    (h.positions.inRing hO.ne_notStarted hO.freedOwn)
  apply h.change hPos hChange
  · rw [hN.freedLeft, hO.freedLeft]
  · intro _
    rw [hB, hAtt, hThr]
    constructor
    · simpa [hO.freedOwn, hN.freedOwn] using hOk.counter
    · simpa [hO.freedOwn, hN.freedOwn] using hOk.available
    · simpa [hO.freedOwn, hN.freedOwn] using hOk.marks
    · simpa [hO.freedOwn, hN.freedOwn] using hOk.unzeroed
    · simp [hN.freedOwn]
    · simp [hN.freedOwn, hN.ne_notStarted]
    · simp [hN.isMarked]
    · intro _ _ _
      exact hOk.active hO.ne_notStarted
        (by simp [hO.freedOwn]) hO.isMarked
    · intro hAtt _
      exact hOk.standard hAtt hO.ne_notStarted
    · intro hAtt _ _
      exact hOk.promoted hAtt hO.joined hO.isMarked
    · exact hQueued
    · intro f hEq
      have hMarked := hN.isMarked
      rw [hEq] at hMarked
      simp [IterPc.isMarked, WaitPc.isMarked] at hMarked
    · intro hZero _
      exact hOk.iterNum hZero hO.ne_notStarted
    · intro hZero _
      exact (hOk.started hZero hO.ne_notStarted).trans hStage
    · intro _ _ hPost _
      exact hEarly hPost
    · exact hPosted
    · simp [hN.moved]
  · intro hOne _
    have hLink := h.links i hOne hO.ne_notStarted
      hO.freedLeft
    constructor
    · rcases hCached with hEq | hEq
      · rw [hEq]
        exact hLink.cached
      · exact hEq.le
    · simp [hN.isMarked]
  · intro _ hLink
    exact ⟨hLink.cached.trans hStage, fun _ _ => hN.wakes⟩
  · exact hChange.children h hSame
      (by rw [hN.joined, hO.joined]) hAtt

end Piper

end PRacer
