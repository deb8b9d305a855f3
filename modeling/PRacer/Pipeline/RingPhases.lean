import PRacer.Foundations.SlotRing
import PRacer.Pipeline.Ring

/-
  Where the cursors of the ring are, and how far the
  iterations have got.

  Main declarations:
    * `Iterations.Cursor`, `Iterations.Cursor.advance`
    * `Phases`, `Phases.move`, `Phases.start`,
      `Phases.insert`
-/

------------------------------------------------------------
-- Cursors
------------------------------------------------------------

namespace PRacer

open Foundations

namespace Iterations

variable {it : Iterations} {n : Nat}

/- The slots of the lists as a ring. -/
def slotRing (it : Iterations) : SlotRing Nat where
  size := it.throttleLimit + 1
  slots := it.p

/- The list of iteration `i + 1` is item `i` of the ring. -/
theorem getIndex_succ (it : Iterations) (i : Nat) :
    it.getIndex (i + 1) = i % (it.throttleLimit + 1) := by
  unfold getIndex
  rw [SlotRing.succ_mod (Nat.succ_pos _)]
  dsimp only
  split
  · rename_i hLast
    exact (if_pos rfl).trans (Nat.succ.inj hLast).symm
  · exact (if_neg (Nat.succ_ne_zero _)).trans rfl

theorem getStageFrameList_succ (it : Iterations) (i : Nat) :
    it.getStageFrameList (i + 1) = it.slotRing.get i := by
  unfold getStageFrameList
  rw [getIndex_succ]
  rfl

/-
  The cursors after `n` insertions.  The tail does not move
  before the ring is full.
-/
def moved (it : Iterations) (n : Nat) : Iterations :=
  { it with
    head :=
      if n = 0 then -1
      else (((n - 1) % (it.throttleLimit + 1) : Nat) : Int)
    tail :=
      if n ≤ it.throttleLimit + 1 then -1
      else ((n % (it.throttleLimit + 1) : Nat) : Int) }

structure Cursor (it : Iterations) (n : Nat) : Prop where
  head : it.head = (it.moved n).head
  tail : it.tail = (it.moved n).tail

theorem cursor_init (limit : Nat) :
    (Iterations.init limit).Cursor 0 :=
  ⟨rfl, rfl⟩

/- The next list goes into the slot of its iteration. -/
theorem Cursor.advance
    (hLimit : 1 ≤ it.throttleLimit)
    (hCursor : it.Cursor n) :
    it.advance =
      some (((n % (it.throttleLimit + 1) : Nat) : Int),
        it.moved (n + 1)) := by
  have hPos : 0 < it.throttleLimit + 1 := Nat.succ_pos _
  unfold Iterations.advance
  rw [hCursor.head, hCursor.tail]
  unfold moved
  dsimp only
  generalize it.throttleLimit = K at *
  rw [if_neg (Nat.succ_ne_zero n), Nat.add_sub_cancel]
  cases n with
  | zero =>
      rw [if_pos rfl, if_pos (Nat.zero_le _),
        if_pos ⟨le_rfl, by omega⟩, if_pos (by omega)]
      simp
  | succ k =>
      have hSlot := SlotRing.succ_mod hPos k
      have hNext := SlotRing.succ_mod hPos (k + 1)
      have hBound : k % (K + 1) < K + 1 := Nat.mod_lt k hPos
      have hSmall : k + 1 ≤ K + 1 → k % (K + 1) = k :=
        Nat.mod_eq_of_lt
      rw [if_neg (Nat.succ_ne_zero k), Nat.add_sub_cancel]
      generalize k % (K + 1) = h at *
      rcases Nat.lt_trichotomy k K with hEarly | rfl | hLate
      · -- The ring is not full yet.
        have hSame : h = k := hSmall (by omega)
        rw [if_neg (by omega)] at hSlot
        rw [if_pos (by omega), if_pos (by omega),
          if_pos (by omega), hSlot]
        rfl
      · -- The ring has just become full.
        have hSame : h = k := hSmall le_rfl
        rw [if_pos (by omega)] at hSlot
        rw [hSlot, if_neg (by omega)] at hNext
        rw [if_pos le_rfl, if_neg (by omega),
          if_pos (by omega), if_neg (by omega), hNext, hSlot]
        rfl
      · have hFar : ¬ k + 1 ≤ K + 1 := by omega
        have hFarther : ¬ k + 1 + 1 ≤ K + 1 := by omega
        rw [if_neg hFar, if_neg hFarther]
        by_cases hLast : h + 1 = K + 1
        · -- The head goes back to the first slot.
          rw [if_pos hLast] at hSlot
          rw [hSlot, if_neg (by omega)] at hNext
          rw [hSlot, if_neg (by omega), if_pos (by omega),
            hNext]
          rfl
        · -- The tail is one slot ahead of the head.
          rw [if_neg hLast] at hSlot
          have hWrap :
              (((k + 1 + 1) % (K + 1) : Nat) : Int) =
                (((h + 1 : Nat) : Int) + 1) % (K + 1) := by
            rw [← hSlot, ← Nat.mod_add_mod]
            rfl
          rw [hWrap, hSlot, if_neg (by omega),
            if_neg (by omega), if_pos (by omega)]
          rfl

end Iterations

------------------------------------------------------------
-- Phases of the Iterations
------------------------------------------------------------

namespace IterationPhase

/- The iteration has had a list. -/
def isListed : IterationPhase → Bool
| .listed | .entered | .finished => true
| _ => false

/- The iteration has started and has no list yet. -/
def isStarting : IterationPhase → Bool
| .starting | .storing => true
| _ => false

/- The iteration takes part in the execution. -/
def isLive : IterationPhase → Bool
| .notStarted | .finished => false
| _ => true

theorem isListed_of_isEntered
    {p : IterationPhase}
    (h : p.isEntered = true) :
    p.isListed = true := by
  cases p with
  | entered | finished => rfl
  | _ => cases h

theorem isListed_of_isLive
    {p : IterationPhase}
    (hLive : p.isLive = true)
    (hStarting : ¬ p.isStarting = true) :
    p.isListed = true := by
  cases p with
  | listed | entered => rfl
  | notStarted | finished => cases hLive
  | starting | storing => exact absurd rfl hStarting

theorem not_isStarting
    {p : IterationPhase}
    (h : p.isListed = true) :
    p.isStarting = false := by
  cases p with
  | listed | entered | finished => rfl
  | _ => cases h

end IterationPhase

/-
  Iterations `1` to `n` have had a list, at most the next one
  is starting, and all those that the throttling window has
  passed are finished.
-/
structure Phases (ph : Nat → IterationPhase) (K n : Nat) : Prop where
  zero : ph 0 = .notStarted
  listed : ∀ i, 1 ≤ i → ((ph i).isListed = true ↔ i ≤ n)
  starting : ∀ i, (ph i).isStarting = true →
    i = n + 1 ∧ (1 ≤ n → (ph n).isEntered = true)
  before : ∀ i, 1 ≤ i → i < n → (ph i).isEntered = true
  done : ∀ i k, ph i ≠ .notStarted → 1 ≤ k →
    k + K ≤ i + 1 → ph k = .finished

namespace Phases

variable {ph : Nat → IterationPhase} {K n i : Nat}

theorem init : Phases (fun _ => .notStarted) K 0 where
  zero := rfl
  listed := by
    intro i hi
    constructor
    · intro h
      cases h
    · intro h
      omega
  starting := by
    intro i h
    cases h
  before := by
    intro i _ h
    exact absurd h (Nat.not_lt_zero i)
  done := by
    intro i k h
    exact absurd rfl h

theorem one_le
    (h : Phases ph K n)
    (hLive : (ph i).isLive = true) :
    1 ≤ i := by
  rcases Nat.eq_zero_or_pos i with rfl | hPos
  · rw [h.zero] at hLive
    cases hLive
  · exact hPos

theorem started
    (h : Phases ph K n)
    (hPos : 1 ≤ i) (hi : i ≤ n) :
    ph i ≠ .notStarted := by
  intro hPh
  have hListed := (h.listed i hPos).mpr hi
  rw [hPh] at hListed
  cases hListed

/- The throttling window has not passed a live iteration. -/
theorem recent
    (h : Phases ph K n)
    (hK : 2 ≤ K)
    (hLive : (ph i).isLive = true) :
    n + 1 < i + K := by
  have hPos := h.one_le hLive
  rcases Nat.eq_zero_or_pos n with rfl | hn
  · omega
  · by_contra hFar
    have hDone := h.done n i (h.started hn le_rfl) hPos
      (by omega)
    rw [hDone] at hLive
    cases hLive

/- A live iteration is among the listed ones or is the next. -/
theorem le_succ
    (h : Phases ph K n)
    (hLive : (ph i).isLive = true) :
    i ≤ n + 1 := by
  by_cases hStarting : (ph i).isStarting = true
  · exact (h.starting i hStarting).1.le
  · have hListed :=
      IterationPhase.isListed_of_isLive hLive hStarting
    have hi := (h.listed i (h.one_le hLive)).mp hListed
    omega

/- Stage 0 of the left iteration is over. -/
theorem entered_left
    (h : Phases ph K n)
    (hLive : (ph i).isLive = true)
    (hLater : 1 < i) :
    (ph (i - 1)).isEntered = true := by
  by_cases hStarting : (ph i).isStarting = true
  · rcases h.starting i hStarting with ⟨hi, hBefore⟩
    obtain rfl : n = i - 1 := by omega
    exact hBefore (by omega)
  · have hListed :=
      IterationPhase.isListed_of_isLive hLive hStarting
    have hi := (h.listed i hLater.le).mp hListed
    exact h.before (i - 1) (by omega) (by omega)

/- An iteration goes on and keeps what it has. -/
theorem move
    {q : IterationPhase}
    (h : Phases ph K n)
    (hLive : (ph i).isLive = true)
    (hListed : q.isListed = (ph i).isListed)
    (hStarting : q.isStarting = (ph i).isStarting)
    (hEntered :
      (ph i).isEntered = true → q.isEntered = true) :
    Phases (Function.update ph i q) K n := by
  have hPos := h.one_le hLive
  have hSelf : Function.update ph i q i = q :=
    Function.update_self ..
  have hOther : ∀ k, k ≠ i → Function.update ph i q k = ph k :=
    fun k hk => Function.update_of_ne hk ..
  generalize Function.update ph i q = ph' at hSelf hOther ⊢
  have hKeeps : ∀ k, (ph k).isEntered = true →
      (ph' k).isEntered = true := by
    intro k hk
    by_cases hki : k = i
    · rw [hki] at hk ⊢
      rw [hSelf]
      exact hEntered hk
    · rw [hOther k hki]
      exact hk
  constructor
  · rw [hOther 0 (by omega)]
    exact h.zero
  · intro k hk
    rw [← h.listed k hk]
    by_cases hki : k = i
    · rw [hki, hSelf, hListed]
    · rw [hOther k hki]
  · intro k hk
    have hOld : (ph k).isStarting = true := by
      by_cases hki : k = i
      · rw [hki] at hk ⊢
        rw [← hStarting, ← hSelf]
        exact hk
      · rw [← hOther k hki]
        exact hk
    rcases h.starting k hOld with ⟨hNext, hBefore⟩
    exact ⟨hNext, fun hn => hKeeps n (hBefore hn)⟩
  · intro k hk hkn
    exact hKeeps k (h.before k hk hkn)
  · intro k l hk hl hFar
    have hOld : ph k ≠ .notStarted := by
      by_cases hki : k = i
      · intro hPh
        rw [← hki, hPh] at hLive
        cases hLive
      · rw [← hOther k hki]
        exact hk
    have hDone := h.done k l hOld hl hFar
    have hli : l ≠ i := by
      intro hli
      rw [← hli, hDone] at hLive
      cases hLive
    rw [hOther l hli]
    exact hDone

/- The next iteration starts. -/
theorem start
    (h : Phases ph K n)
    (hPos : 1 ≤ i)
    (hPh : ph i = .notStarted)
    (hBefore : 1 < i → (ph (i - 1)).isEntered = true)
    (hOwn : K < i → ph (i - K) = .finished)
    (hRight : K < i + 1 → ph (i + 1 - K) = .finished) :
    Phases (Function.update ph i .starting) K n := by
  have hFirst : ¬ i ≤ n := by
    intro hi
    exact h.started hPos hi hPh
  have hNext : i = n + 1 := by
    by_contra hne
    have hListed := IterationPhase.isListed_of_isEntered
      (hBefore (by omega))
    have := (h.listed (i - 1) (by omega)).mp hListed
    omega
  have hSelf : Function.update ph i .starting i = .starting :=
    Function.update_self ..
  have hOther : ∀ k, k ≠ i →
      Function.update ph i .starting k = ph k :=
    fun k hk => Function.update_of_ne hk ..
  generalize Function.update ph i .starting = ph' at hSelf hOther ⊢
  constructor
  · rw [hOther 0 (by omega)]
    exact h.zero
  · intro k hk
    by_cases hki : k = i
    · rw [hki, hSelf]
      constructor
      · intro hListed
        cases hListed
      · intro hi
        exact absurd hi hFirst
    · rw [hOther k hki]
      exact h.listed k hk
  · intro k hk
    by_cases hki : k = i
    · refine ⟨hki.trans hNext, fun hn => ?_⟩
      have hEntered := hBefore (by omega)
      rw [hNext] at hEntered
      rw [hOther n (by omega)]
      exact hEntered
    · rw [hOther k hki] at hk
      exact absurd ((h.starting k hk).1.trans hNext.symm) hki
  · intro k hk hkn
    rw [hOther k (by omega)]
    exact h.before k hk hkn
  · intro k l hk hl hFar
    have hDone : ph l = .finished := by
      by_cases hki : k = i
      · rw [hki] at hFar
        rcases Nat.lt_trichotomy (l + K) i with hLt | hEq | hGt
        · exact h.done n l (h.started (by omega) le_rfl) hl
            (by omega)
        · obtain rfl : l = i - K := by omega
          exact hOwn (by omega)
        · obtain rfl : l = i + 1 - K := by omega
          exact hRight (by omega)
      · rw [hOther k hki] at hk
        exact h.done k l hk hl hFar
    have hli : l ≠ i := by
      intro hli
      rw [hli, hPh] at hDone
      cases hDone
    rw [hOther l hli]
    exact hDone

/- The list of the starting iteration goes into the ring. -/
theorem insert
    (h : Phases ph K n)
    (hStarting : (ph i).isStarting = true) :
    Phases (Function.update ph i .listed) K (n + 1) := by
  have hNext := (h.starting i hStarting).1
  have hSelf : Function.update ph i .listed i = .listed :=
    Function.update_self ..
  have hOther : ∀ k, k ≠ i →
      Function.update ph i .listed k = ph k :=
    fun k hk => Function.update_of_ne hk ..
  generalize Function.update ph i .listed = ph' at hSelf hOther ⊢
  constructor
  · rw [hOther 0 (by omega)]
    exact h.zero
  · intro k hk
    by_cases hki : k = i
    · rw [hki, hSelf]
      exact ⟨fun _ => hNext.le, fun _ => rfl⟩
    · rw [hOther k hki, h.listed k hk]
      omega
  · intro k hk
    by_cases hki : k = i
    · rw [hki, hSelf] at hk
      cases hk
    · rw [hOther k hki] at hk
      exact absurd ((h.starting k hk).1.trans hNext.symm) hki
  · intro k hk hkn
    rw [hOther k (by omega)]
    rcases Nat.lt_succ_iff_lt_or_eq.mp hkn with hLt | rfl
    · exact h.before k hk hLt
    · exact (h.starting i hStarting).2 hk
  · intro k l hk hl hFar
    have hOld : ph k ≠ .notStarted := by
      by_cases hki : k = i
      · intro hPh
        rw [← hki, hPh] at hStarting
        cases hStarting
      · rw [← hOther k hki]
        exact hk
    have hDone := h.done k l hOld hl hFar
    have hli : l ≠ i := by
      intro hli
      rw [← hli, hDone] at hStarting
      cases hStarting
    rw [hOther l hli]
    exact hDone

end Phases

end PRacer
