import Mathlib.Data.List.Basic
import PRacer.FrameStack.Model

/-
  When the arrays of the shadow stacks hold what unbounded
  stacks would hold.

  Main declarations:
    * `Holds`, `Careful`
    * `Inv.push`, `Inv.pop`, `Inv.steal`
    * `kept_iff_careful`
-/

------------------------------------------------------------
-- What an Array Holds
------------------------------------------------------------

namespace PRacer

open Foundations

namespace FrameStack

variable {D : Type}

/-
  All accesses were in bounds, and the elements from the
  bottom to the head are the frames of the other stack.
-/
structure Holds (s : Stack D) (r : RefStack D) : Prop where
  inBounds : s.inBounds = true
  size : r.frames.length = s.size.toNat
  capacity : r.frames.length ≤ s.capacity.toNat
  frames : ∀ k f, r.frames[k]? = some f → s.stack k = f
  tail : s.tail.toNat = r.tail

/- The capacity is doubled and halved from 128 on. -/
structure Fits (s : Stack D) (r : RefStack D) : Prop
    extends Holds s r where
  power : ∃ k, k ≤ 24 ∧ s.capacity.toNat = 2 ^ (7 + k)

/- The tail stands at the head or below it. -/
structure Inv (s : Stack D) (r : RefStack D) : Prop
    extends Fits s r where
  below : r.tail ≤ r.frames.length - 1

theorem Fits.capacity_bounds
    {s : Stack D} {r : RefStack D}
    (h : Fits s r) :
    128 ≤ s.capacity.toNat ∧ s.capacity.toNat ≤ 2 ^ 31 := by
  rcases h.power with ⟨k, hk, hCap⟩
  rw [hCap]
  constructor
  · exact Nat.pow_le_pow_right Nat.two_pos
      (Nat.le_add_right 7 k)
  · exact Nat.pow_le_pow_right Nat.two_pos
      (Nat.add_le_add_left hk 7)

theorem Holds.head
    {s : Stack D} {r : RefStack D}
    (h : Holds s r)
    (hNonempty : r.frames ≠ []) :
    s.head.toNat + 1 = r.frames.length := by
  have hPos := List.length_pos_iff.mpr hNonempty
  have hSize := h.size
  unfold Stack.size at hSize
  bv_omega

theorem Holds.empty_iff
    {s : Stack D} {r : RefStack D}
    (h : Holds s r) :
    r.frames = [] ↔ s.head = -1 := by
  have hSize := h.size
  unfold Stack.size at hSize
  rw [← List.length_eq_zero_iff, hSize]
  bv_omega

theorem inv_new (junk : Junk D) :
    Inv (Stack.new junk) RefStack.empty := by
  have hSize : 0 = ((-1 : BitVec 32) + 1).toNat := by decide
  refine ⟨⟨⟨rfl, hSize, Nat.zero_le _, ?_, rfl⟩,
    ⟨0, by omega, rfl⟩⟩, Nat.le_refl 0⟩
  intro k f hGet
  cases hGet

------------------------------------------------------------
-- Resizing
------------------------------------------------------------

namespace Stack

theorem touch_of_lt
    {s : Stack D} {i : Nat}
    (hLt : i < s.capacity.toNat) :
    s.touch i = s := by
  unfold touch
  simp [hLt]

theorem copyFrom_eq
    {old s : Stack D} {n : Nat}
    (hOld : n ≤ old.capacity.toNat)
    (hNew : n ≤ s.capacity.toNat) :
    copyFrom old n s =
      { s with
        stack := fun k =>
          if k < n then old.stack k else s.stack k } := by
  induction n with
  | zero => simp [copyFrom]
  | succ n ih =>
      unfold copyFrom
      rw [ih (by omega) (by omega)]
      have hOldLt : n < old.capacity.toNat := by omega
      have hNewLt : n < s.capacity.toNat := by omega
      simp only [hOldLt, hNewLt, decide_true, Bool.and_true]
      congr 1
      funext k
      by_cases hk : k = n
      · subst hk
        simp
      · rw [Function.update_of_ne hk]
        have hIff : k < n ↔ k < n + 1 := by omega
        simp [hIff]

/- Resizing keeps the elements that fit. -/
theorem resize_eq
    (s : Stack D) (newCapacity : BitVec 32) (junk : Junk D) :
    s.resize newCapacity junk =
      { s with
        stack := fun k =>
          if k < min newCapacity.toNat s.capacity.toNat then
            s.stack k
          else junk k
        capacity := newCapacity } := by
  unfold resize
  dsimp only
  have hEnd : (if newCapacity < s.capacity then newCapacity
      else s.capacity).toNat =
      min newCapacity.toNat s.capacity.toNat := by
    split <;> bv_omega
  rw [hEnd]
  exact copyFrom_eq (Nat.min_le_right _ _)
    (Nat.min_le_left _ _)

end Stack

/- A resize that leaves room for all frames. -/
theorem Holds.resize
    {s : Stack D} {r : RefStack D}
    {newCapacity : BitVec 32} (junk : Junk D)
    (h : Holds s r)
    (hRoom : r.frames.length ≤ newCapacity.toNat) :
    Holds (s.resize newCapacity junk) r := by
  rw [Stack.resize_eq]
  refine ⟨h.inBounds, h.size, hRoom, ?_, h.tail⟩
  intro k f hGet
  have hLt := (List.getElem?_eq_some_iff.mp hGet).1
  have hOld := h.capacity
  have hKept : k < min newCapacity.toNat s.capacity.toNat := by
    omega
  exact (if_pos hKept).trans (h.frames k f hGet)

------------------------------------------------------------
-- Push
------------------------------------------------------------

namespace Stack

theorem push_head (s : Stack D) (junk : Junk D) :
    (s.push junk).head = s.head + 1 := by
  unfold push doubleCap
  dsimp only
  split
  · rw [resize_eq]
  · rfl

theorem push_tail (s : Stack D) (junk : Junk D) :
    (s.push junk).tail = s.tail := by
  unfold push doubleCap
  dsimp only
  split
  · rw [resize_eq]
  · rfl

end Stack

/- A push below the largest capacity. -/
theorem Fits.push
    {s : Stack D} {r : RefStack D}
    (h : Fits s r) (junk : Junk D)
    (hRoom : r.frames.length < 2 ^ 31) :
    Fits (s.push junk) (r.push (s.push junk).headFrame) := by
  have hSize := h.size
  have hCap := h.capacity
  have hBounds := h.capacity_bounds
  have hHead : (s.head + 1).toNat = r.frames.length := hSize.symm
  have hFrame : (s.push junk).headFrame =
      (s.push junk).stack r.frames.length := by
    unfold Stack.headFrame
    rw [Stack.push_head, hHead]
  have hNewSize : (s.push junk).size.toNat =
      r.frames.length + 1 := by
    unfold Stack.size at hSize ⊢
    rw [Stack.push_head]
    bv_omega
  -- The elements below the new head, and the new capacity.
  have hGrown :
      (s.push junk).inBounds = true ∧
      (∀ k, k < r.frames.length →
        (s.push junk).stack k = s.stack k) ∧
      r.frames.length + 1 ≤ (s.push junk).capacity.toNat ∧
      ∃ k, k ≤ 24 ∧
        (s.push junk).capacity.toNat = 2 ^ (7 + k) := by
    unfold Stack.push Stack.doubleCap
    dsimp only
    split
    · rename_i hFull
      have hFullNat : r.frames.length = s.capacity.toNat := by
        rw [← hHead, hFull]
      have hDouble : (s.capacity * 2).toNat =
          s.capacity.toNat * 2 := by bv_omega
      rw [Stack.resize_eq]
      refine ⟨h.inBounds, ?_, ?_, ?_⟩
      · intro k hk
        have hKept : k < min (s.capacity * 2).toNat
            s.capacity.toNat := by omega
        exact if_pos hKept
      · show _ ≤ (s.capacity * 2).toNat
        omega
      · rcases h.power with ⟨k, hk, hPower⟩
        refine ⟨k + 1, ?_, ?_⟩
        · by_contra hNot
          obtain rfl : k = 24 := by omega
          omega
        · show (s.capacity * 2).toNat = _
          rw [hDouble, hPower, ← Nat.pow_succ]
          rfl
    · rename_i hNot
      refine ⟨h.inBounds, fun _ _ => rfl, ?_, h.power⟩
      show _ ≤ s.capacity.toNat
      have : (s.head + 1).toNat ≠ s.capacity.toNat := by
        intro hEq
        exact hNot (BitVec.eq_of_toNat_eq hEq)
      omega
  rcases hGrown with ⟨hIn, hKept, hCapacity, hPower⟩
  refine ⟨⟨hIn, ?_, ?_, ?_, ?_⟩, hPower⟩
  · rw [hNewSize]
    simp [RefStack.push]
  · simpa [RefStack.push] using hCapacity
  · intro k f hGet
    unfold RefStack.push at hGet
    dsimp only at hGet
    by_cases hk : k < r.frames.length
    · rw [List.getElem?_append_left hk] at hGet
      rw [hKept k hk]
      exact h.frames k f hGet
    · have hLt := (List.getElem?_eq_some_iff.mp hGet).1
      rw [List.length_append, List.length_singleton] at hLt
      obtain rfl : k = r.frames.length := by omega
      rw [List.getElem?_concat_length] at hGet
      rw [← hFrame]
      exact Option.some.inj hGet
  · rw [Stack.push_tail]
    exact h.tail

------------------------------------------------------------
-- The Frame at the Head
------------------------------------------------------------

theorem Holds.ancestor_eq
    {s : Stack D} {r : RefStack D}
    (h : Holds s r)
    (hNonempty : r.frames ≠ []) :
    s.ancestor 0 = Except.ok s.head := by
  have hHead := h.head hNonempty
  have hCap := h.capacity
  have hZero : (0 : BitVec 32) ≤ s.head := by bv_omega
  have hLt : s.head < s.capacity := by bv_omega
  unfold Stack.ancestor
  have hSub : s.head - 0 = s.head := BitVec.sub_zero s.head
  rw [check_of hZero, ok_bind, check_of hLt, ok_bind, hSub]
  rfl

theorem Holds.getHead_eq
    {s : Stack D} {r : RefStack D}
    (h : Holds s r)
    (hNonempty : r.frames ≠ []) :
    s.getHead = Except.ok (s, s.headFrame) := by
  have hHead := h.head hNonempty
  have hCap := h.capacity
  unfold Stack.getHead Stack.load
  rw [h.ancestor_eq hNonempty, ok_bind,
    Stack.touch_of_lt (by omega)]
  rfl

/- The head is the last frame. -/
theorem Holds.headFrame_eq
    {s : Stack D} {r : RefStack D} {rest : List (Frame D)}
    {f : Frame D}
    (h : Holds s r)
    (hFrames : r.frames = rest ++ [f]) :
    s.headFrame = f := by
  have hHead := h.head (by simp [hFrames])
  unfold Stack.headFrame
  apply h.frames
  rw [hFrames, List.length_append, List.length_singleton]
    at hHead
  obtain hIndex : s.head.toNat = rest.length := by omega
  rw [hFrames, hIndex, List.getElem?_concat_length]

theorem Holds.store
    {s : Stack D} {r : RefStack D}
    (h : Holds s r)
    (hNonempty : r.frames ≠ []) (f : Frame D) :
    Holds (s.store s.head f) (r.setHead f) := by
  have hHead := h.head hNonempty
  have hCap := h.capacity
  have hLength : (r.setHead f).frames.length =
      r.frames.length := by
    unfold RefStack.setHead
    rw [List.length_append, List.length_dropLast,
      List.length_singleton]
    omega
  unfold Stack.store
  rw [Stack.touch_of_lt (by omega)]
  refine ⟨h.inBounds, hLength.trans h.size,
    hLength ▸ hCap, ?_, h.tail⟩
  intro k g hGet
  have hLt := (List.getElem?_eq_some_iff.mp hGet).1
  rw [hLength] at hLt
  unfold RefStack.setHead at hGet
  dsimp only at hGet ⊢
  by_cases hk : k < r.frames.dropLast.length
  · rw [List.getElem?_append_left hk, List.getElem?_dropLast]
      at hGet
    rw [List.length_dropLast] at hk
    rw [Function.update_of_ne (by omega)]
    rw [if_pos hk] at hGet
    exact h.frames k g hGet
  · rw [List.getElem?_append_right (by omega)] at hGet
    rw [List.length_dropLast] at hk hGet
    obtain rfl : k = s.head.toNat := by omega
    have hIndex : s.head.toNat - (r.frames.length - 1) = 0 := by
      omega
    rw [hIndex] at hGet
    rw [Function.update_self]
    exact Option.some.inj hGet

theorem Fits.setHead
    {s : Stack D} {r : RefStack D}
    (h : Fits s r)
    (hNonempty : r.frames ≠ []) (f : Frame D) :
    ∃ s', s.setHead f = Except.ok s' ∧
      Fits s' (r.setHead f) := by
  refine ⟨s.store s.head f, ?_,
    ⟨h.toHolds.store hNonempty f, h.power⟩⟩
  unfold Stack.setHead
  rw [h.ancestor_eq hNonempty]
  rfl

/- A frame that is pushed and then overwritten. -/
theorem RefStack.setHead_push
    (r : RefStack D) (f g : Frame D) :
    (r.push f).setHead g = r.push g := by
  unfold RefStack.setHead RefStack.push
  simp

theorem RefStack.push_ne_nil
    (r : RefStack D) (f : Frame D) :
    (r.push f).frames ≠ [] := by
  simp [RefStack.push]

/- `AtomicStack_t::add`, and the same steps elsewhere. -/
theorem Fits.add
    {s : Stack D} {r : RefStack D}
    (h : Fits s r) (junk : Junk D) (f : Frame D)
    (hRoom : r.frames.length < 2 ^ 31) :
    ∃ s', (s.push junk).setHead f = Except.ok s' ∧
      Fits s' (r.push f) := by
  rcases (h.push junk hRoom).setHead
    (RefStack.push_ne_nil r _) f with ⟨s', hRun, hFits⟩
  rw [RefStack.setHead_push] at hFits
  exact ⟨s', hRun, hFits⟩

------------------------------------------------------------
-- Pop
------------------------------------------------------------

/- The array when the head is moved down. -/
theorem Fits.pop
    {s : Stack D} {r : RefStack D}
    (h : Fits s r) (junk : Junk D)
    (hNonempty : r.frames ≠ []) :
    Fits (s.pop junk)
        { r with frames := r.frames.dropLast } ∧
      (s.pop junk).head = s.head - 1 ∧
      (s.pop junk).tail = s.tail ∧
      (s.pop junk).capacity =
        if DEFAULT_CAPACITY < s.capacity ∧
          s.head - 1 < s.capacity / 2 then s.capacity / 2
        else s.capacity := by
  have hHead := h.head hNonempty
  have hCap := h.capacity
  have hBounds := h.capacity_bounds
  have hDown : Holds { s with head := s.head - 1 }
      { r with frames := r.frames.dropLast } := by
    refine ⟨h.inBounds, ?_, ?_, ?_, h.tail⟩
    · unfold Stack.size
      rw [List.length_dropLast]
      bv_omega
    · rw [List.length_dropLast]
      show _ ≤ s.capacity.toNat
      omega
    · intro k f hGet
      rw [List.getElem?_dropLast] at hGet
      split at hGet
      · exact h.frames k f hGet
      · cases hGet
  unfold Stack.pop Stack.halveCap
  dsimp only
  split
  · rename_i hSmall
    have hDefault : (128 : BitVec 32) < s.capacity := hSmall.1
    have hLt := hSmall.2
    have hHalf : (s.capacity / 2).toNat =
        s.capacity.toNat / 2 := by
      rw [BitVec.toNat_udiv]
      rfl
    have hRoom : r.frames.dropLast.length ≤
        (s.capacity / 2).toNat := by
      rw [List.length_dropLast]
      have : (s.head - 1).toNat < (s.capacity / 2).toNat := hLt
      bv_omega
    refine ⟨⟨hDown.resize junk hRoom, ?_⟩, ?_⟩
    · rcases h.power with ⟨k, hk, hPower⟩
      obtain ⟨j, rfl⟩ : ∃ j, k = j + 1 := by
        refine ⟨k - 1, ?_⟩
        by_contra hNot
        obtain rfl : k = 0 := by omega
        bv_omega
      refine ⟨j, by omega, ?_⟩
      rw [Stack.resize_eq]
      show (s.capacity / 2).toNat = _
      rw [hHalf, hPower, ← Nat.add_assoc, Nat.pow_succ]
      omega
    · rw [Stack.resize_eq]
      exact ⟨rfl, rfl, rfl⟩
  · exact ⟨⟨hDown, h.power⟩, rfl, rfl, rfl⟩

/- Clearing elements above the head. -/
theorem Holds.wipe
    {s : Stack D} {r : RefStack D} {first size : BitVec 32}
    (h : Holds s r) (ones : Frame D)
    (hAbove : r.frames.length ≤ first.toNat)
    (hRoom : first.toNat + size.toNat ≤ s.capacity.toNat) :
    Holds (Stack.wipe ones s first size) r := by
  refine ⟨?_, h.size, h.capacity, ?_, h.tail⟩
  · unfold Stack.wipe
    simp [h.inBounds, hRoom]
  · intro k f hGet
    have hLt := (List.getElem?_eq_some_iff.mp hGet).1
    have hKept : ¬ (first.toNat ≤ k ∧
        k < first.toNat + size.toNat) := by omega
    exact (if_neg hKept).trans (h.frames k f hGet)

/- The head stands at the tail and where the array is halved. -/
def AtEdge (s : Stack D) : Prop :=
  DEFAULT_CAPACITY < s.capacity ∧ s.head = s.tail ∧
    s.head = s.capacity / 2

instance (s : Stack D) : Decidable (AtEdge s) :=
  inferInstanceAs (Decidable (_ ∧ _))

theorem Inv.tail_le_head
    {s : Stack D} {r : RefStack D}
    (h : Inv s r)
    (hNonempty : r.frames ≠ []) :
    s.tail ≤ s.head := by
  have hHead := h.head hNonempty
  have hTail := h.tail
  have hBelow := h.below
  bv_omega

/- The tail is moved down with the head. -/
theorem Inv.atomicPop_at_tail
    {s : Stack D} {r : RefStack D}
    (h : Inv s r) (ones : Frame D) (junk : Junk D)
    (hNonempty : r.frames ≠ [])
    (hMeet : s.head - 1 < s.tail) :
    s.atomicPop ones junk = Except.ok
      (Stack.wipe ones
        { s.pop junk with tail := s.head - 1 } s.head 1) := by
  have hHead := h.head hNonempty
  have hTail := h.tail
  have hBelow := h.below
  rcases h.toFits.pop junk hNonempty with
    ⟨-, hNewHead, hNewTail, -⟩
  have hSame : s.tail - 1 = s.head - 1 := by bv_omega
  have hBack : s.head - 1 + 1 = s.head := by bv_omega
  unfold Stack.atomicPop
  rw [check_of (h.tail_le_head hNonempty), ok_bind]
  dsimp only
  rw [hNewHead, hNewTail, if_pos hMeet, hSame,
    check_of rfl, ok_bind, hBack]
  rfl

theorem Inv.atomicPop_above_tail
    {s : Stack D} {r : RefStack D}
    (h : Inv s r) (ones : Frame D) (junk : Junk D)
    (hNonempty : r.frames ≠ [])
    (hAbove : ¬ s.head - 1 < s.tail) :
    s.atomicPop ones junk = Except.ok (s.pop junk) := by
  rcases h.toFits.pop junk hNonempty with
    ⟨-, hNewHead, hNewTail, -⟩
  unfold Stack.atomicPop
  rw [check_of (h.tail_le_head hNonempty), ok_bind]
  dsimp only
  rw [hNewHead, hNewTail, if_neg hAbove]
  rfl

/- A pop away from the edge. -/
theorem Inv.pop
    {s : Stack D} {r : RefStack D}
    (h : Inv s r) (ones : Frame D) (junk : Junk D)
    (hNonempty : r.frames ≠ [])
    (hEdge : ¬ AtEdge s) :
    ∃ s', s.atomicPop ones junk = Except.ok s' ∧
      Inv s' r.pop := by
  have hHead := h.head hNonempty
  have hCap := h.capacity
  have hTail := h.tail
  have hBelow := h.below
  rcases h.toFits.pop junk hNonempty with
    ⟨hFits, hNewHead, hNewTail, hNewCap⟩
  have hLength : r.frames.dropLast.length =
      r.frames.length - 1 := List.length_dropLast
  by_cases hMeet : s.head - 1 < s.tail
  · have hRoom : s.head.toNat + 1 ≤
        (s.pop junk).capacity.toNat := by
      rw [hNewCap]
      split
      · rename_i hHalved
        have hNot : s.head ≠ s.capacity / 2 := by
          intro hEq
          refine hEdge ⟨hHalved.1, ?_, hEq⟩
          bv_omega
        have hBelowHalf := hHalved.2
        generalize s.capacity / 2 = half at *
        bv_omega
      · omega
    refine ⟨_, h.atomicPop_at_tail ones junk hNonempty hMeet,
      ⟨⟨?_, ?_⟩, ?_⟩⟩
    · have hMoved : Holds
          { s.pop junk with tail := s.head - 1 } r.pop := by
        refine ⟨hFits.inBounds, hFits.size, hFits.capacity,
          hFits.frames, ?_⟩
        show (s.head - 1).toNat =
          min r.tail (r.frames.length - 2)
        bv_omega
      apply hMoved.wipe
      · show r.frames.dropLast.length ≤ _
        omega
      · exact hRoom
    · exact hFits.power
    · show min _ _ ≤ r.frames.dropLast.length - 1
      omega
  · refine ⟨_, h.atomicPop_above_tail ones junk hNonempty hMeet,
      ⟨⟨⟨hFits.inBounds, hFits.size, hFits.capacity,
        hFits.frames, ?_⟩, hFits.power⟩, ?_⟩⟩
    · rw [hNewTail]
      show s.tail.toNat = min r.tail (r.frames.length - 2)
      bv_omega
    · show min _ _ ≤ r.frames.dropLast.length - 1
      omega

/- A pop at the edge clears an element that is gone. -/
theorem Inv.not_holds_pop
    {s s' : Stack D} {r : RefStack D} {ones : Frame D}
    {junk : Junk D}
    (h : Inv s r)
    (hNonempty : r.frames ≠ [])
    (hEdge : AtEdge s)
    (hRun : s.atomicPop ones junk = Except.ok s') :
    ¬ Holds s' r.pop := by
  have hHead := h.head hNonempty
  have hBounds := h.capacity_bounds
  rcases h.toFits.pop junk hNonempty with
    ⟨-, hNewHead, hNewTail, hNewCap⟩
  rcases hEdge with ⟨hLarge, hMeet, hHalf⟩
  have hLargeNat : (128 : BitVec 32) < s.capacity := hLarge
  have hHalfNat : (s.capacity / 2).toNat =
      s.capacity.toNat / 2 := by
    rw [BitVec.toNat_udiv]
    rfl
  have hHeadNat : s.head.toNat = s.capacity.toNat / 2 := by
    rw [hHalf, hHalfNat]
  have hDown : s.head - 1 < s.tail := by
    rw [← hMeet]
    bv_omega
  have hHalved : s.head - 1 < s.capacity / 2 := by
    rw [← hHalf]
    bv_omega
  rw [if_pos ⟨hLarge, hHalved⟩] at hNewCap
  rw [h.atomicPop_at_tail ones junk hNonempty hDown] at hRun
  cases hRun
  intro hHolds
  have hIn := hHolds.inBounds
  unfold Stack.wipe at hIn
  dsimp only at hIn
  rw [hNewCap, hHalfNat] at hIn
  simp at hIn
  omega

/- A pop of nothing moves the head below the bottom. -/
theorem Inv.not_holds_pop_empty
    {s s' : Stack D} {r : RefStack D} {ones : Frame D}
    {junk : Junk D}
    (h : Inv s r)
    (hEmpty : r.frames = [])
    (hRun : s.atomicPop ones junk = Except.ok s') :
    ¬ Holds s' r.pop := by
  have hHead := h.empty_iff.mp hEmpty
  have hTail := h.tail
  have hBelow := h.below
  have hBounds := h.capacity_bounds
  rw [hEmpty] at hBelow
  have hBelowNat : r.tail ≤ 0 := hBelow
  have hHalfNat : (s.capacity / 2).toNat =
      s.capacity.toNat / 2 := by
    rw [BitVec.toNat_udiv]
    rfl
  have hHigh : (s.head - 1).toNat = 2 ^ 32 - 2 := by
    rw [hHead]
    decide
  have hPop : s.pop junk = { s with head := s.head - 1 } := by
    unfold Stack.pop
    dsimp only
    apply if_neg
    intro hSmall
    have : (s.head - 1).toNat < (s.capacity / 2).toNat :=
      hSmall.2
    omega
  rcases bind_eq_ok hRun with ⟨u, -, hRun⟩
  dsimp only at hRun
  rw [hPop] at hRun
  have hNot : ¬ s.head - 1 < s.tail := by
    intro hLt
    have : (s.head - 1).toNat < s.tail.toNat := hLt
    omega
  rw [if_neg hNot] at hRun
  cases hRun
  intro hHolds
  have hSize := hHolds.size
  unfold RefStack.pop Stack.size at hSize
  dsimp only at hSize
  rw [hEmpty, hHead] at hSize
  have hNat : 0 = (-1 - 1 + 1 : BitVec 32).toNat := hSize
  exact absurd hNat (by decide)

------------------------------------------------------------
-- The Other Operations of One Stack
------------------------------------------------------------

theorem Inv.push
    {s : Stack D} {r : RefStack D}
    (h : Inv s r) (junk : Junk D)
    (hRoom : r.frames.length < 2 ^ 31) :
    Inv (s.push junk) (r.push (s.push junk).headFrame) := by
  have hBelow := h.below
  refine ⟨h.toFits.push junk hRoom, ?_⟩
  unfold RefStack.push
  rw [List.length_append, List.length_singleton]
  show r.tail ≤ _
  omega

/- The largest capacity cannot be doubled. -/
theorem Inv.capacity_push_full
    {s : Stack D} {r : RefStack D}
    (h : Inv s r) (junk : Junk D)
    (hFull : ¬ r.frames.length < 2 ^ 31) :
    (s.push junk).capacity = 0 := by
  have hSize := h.size
  have hCap := h.capacity
  have hBounds := h.capacity_bounds
  have hNew : s.head + 1 = s.capacity := by
    apply BitVec.eq_of_toNat_eq
    show s.size.toNat = _
    omega
  unfold Stack.push Stack.doubleCap
  dsimp only
  rw [if_pos hNew, Stack.resize_eq]
  show s.capacity * 2 = 0
  apply BitVec.eq_of_toNat_eq
  bv_omega

theorem Inv.not_holds_push
    {s : Stack D} {r : RefStack D} {f : Frame D}
    (h : Inv s r) (junk : Junk D)
    (hFull : ¬ r.frames.length < 2 ^ 31) :
    ¬ Holds (s.push junk) (r.push f) := by
  intro hHolds
  have hCap := hHolds.capacity
  rw [h.capacity_push_full junk hFull] at hCap
  unfold RefStack.push at hCap
  rw [List.length_append, List.length_singleton] at hCap
  have hZero : (0 : BitVec 32).toNat = 0 := rfl
  omega

/- What the assertions of `head` tell. -/
theorem head_lt_of_ancestor
    {s : Stack D} {i : BitVec 32}
    (hRun : s.ancestor 0 = Except.ok i) :
    s.head < s.capacity := by
  rcases bind_eq_ok hRun with ⟨u, -, hRun⟩
  rcases bind_eq_ok hRun with ⟨v, hLt, -⟩
  exact of_check hLt

theorem head_lt_of_setHead
    {s s' : Stack D} {f : Frame D}
    (hRun : s.setHead f = Except.ok s') :
    s.head < s.capacity := by
  rcases bind_eq_ok hRun with ⟨i, hIndex, -⟩
  exact head_lt_of_ancestor hIndex

theorem head_lt_of_getHead
    {s : Stack D} {r : Stack D × Frame D}
    (hRun : s.getHead = Except.ok r) :
    s.head < s.capacity := by
  rcases bind_eq_ok hRun with ⟨i, hIndex, -⟩
  exact head_lt_of_ancestor hIndex

/- After a push that does not fit they fail. -/
theorem Inv.not_head_lt_push
    {s : Stack D} {r : RefStack D}
    (h : Inv s r) (junk : Junk D)
    (hFull : ¬ r.frames.length < 2 ^ 31) :
    ¬ (s.push junk).head < (s.push junk).capacity := by
  rw [h.capacity_push_full junk hFull]
  bv_omega

theorem Inv.add
    {s : Stack D} {r : RefStack D}
    (h : Inv s r) (junk : Junk D) (f : Frame D)
    (hRoom : r.frames.length < 2 ^ 31) :
    ∃ s', s.add junk f = Except.ok s' ∧ Inv s' (r.push f) := by
  have hBelow := h.below
  rcases h.toFits.add junk f hRoom with ⟨s', hRun, hFits⟩
  refine ⟨s', hRun, hFits, ?_⟩
  unfold RefStack.push
  rw [List.length_append, List.length_singleton]
  show r.tail ≤ _
  omega

theorem Inv.setHead
    {s : Stack D} {r : RefStack D}
    (h : Inv s r)
    (hNonempty : r.frames ≠ []) (f : Frame D) :
    ∃ s', s.setHead f = Except.ok s' ∧
      Inv s' (r.setHead f) := by
  have hBelow := h.below
  rcases h.toFits.setHead hNonempty f with ⟨s', hRun, hFits⟩
  refine ⟨s', hRun, hFits, ?_⟩
  unfold RefStack.setHead
  rw [List.length_append, List.length_dropLast,
    List.length_singleton]
  show r.tail ≤ _
  omega

/- A write through `head` needs a frame. -/
theorem Holds.setHead_empty
    {s s' : Stack D} {r : RefStack D} {f : Frame D}
    (h : Holds s r)
    (hEmpty : r.frames = []) :
    s.setHead f ≠ Except.ok s' := by
  have hHead := h.empty_iff.mp hEmpty
  intro hRun
  have hLt := head_lt_of_setHead hRun
  bv_omega

/- The parts of a push of a helper frame that returns. -/
theorem pushHelper_eq_ok
    {s s' : Stack D} {r : RefStack D} {junk : Junk D}
    (h : Holds s r)
    (hRun : s.pushHelper junk = Except.ok s') :
    r.frames ≠ [] ∧ ∃ f,
      (s.push junk).getHead = Except.ok f ∧
      f.1.setHead { f.2 with flags := FRAME_HELPER_MASK } =
        Except.ok s' := by
  rcases bind_eq_ok hRun with ⟨u, hStarted, hRun⟩
  have hNonempty : r.frames ≠ [] := by
    intro hEmpty
    exact of_check hStarted (h.empty_iff.mp hEmpty)
  rw [h.getHead_eq hNonempty, ok_bind] at hRun
  rcases bind_eq_ok hRun with ⟨v, -, hRun⟩
  rcases bind_eq_ok hRun with ⟨f, hGet, hRun⟩
  exact ⟨hNonempty, f, hGet, hRun⟩

theorem Inv.pushHelper
    {s s' : Stack D} {r : RefStack D} {junk : Junk D}
    (h : Inv s r)
    (hRoom : r.frames.length < 2 ^ 31)
    (hRun : s.pushHelper junk = Except.ok s') :
    Inv s' (r.push
      { s'.headFrame with flags := FRAME_HELPER_MASK }) := by
  rcases pushHelper_eq_ok h.toHolds hRun with
    ⟨-, f, hGet, hSet⟩
  have hPush := h.push junk hRoom
  have hNonempty := RefStack.push_ne_nil r
    (s.push junk).headFrame
  rw [hPush.getHead_eq hNonempty] at hGet
  cases hGet
  rcases hPush.setHead hNonempty
    { (s.push junk).headFrame with
      flags := FRAME_HELPER_MASK } with ⟨s₁, hRun₁, hInv⟩
  have hSame : s₁ = s' := by
    rw [hSet] at hRun₁
    exact (Except.ok.inj hRun₁).symm
  subst hSame
  rw [RefStack.setHead_push] at hInv
  have hHead := hInv.headFrame_eq rfl
  rw [hHead]
  exact hInv

/- A helper frame that does not fit is not pushed. -/
theorem Inv.pushHelper_full
    {s s' : Stack D} {r : RefStack D} {junk : Junk D}
    (h : Inv s r)
    (hFull : ¬ r.frames.length < 2 ^ 31) :
    s.pushHelper junk ≠ Except.ok s' := by
  intro hRun
  rcases pushHelper_eq_ok h.toHolds hRun with
    ⟨-, f, hGet, -⟩
  exact h.not_head_lt_push junk hFull (head_lt_of_getHead hGet)

theorem Inv.reset
    {s : Stack D} {r : RefStack D}
    (h : Inv s r) (ones : Frame D) :
    Inv (s.reset ones) RefStack.empty := by
  have hSize := h.size
  have hCap := h.capacity
  have hEmpty : (-1 + 1 : BitVec 32).toNat = 0 := by decide
  refine ⟨⟨⟨?_, hEmpty.symm, Nat.zero_le _, ?_, rfl⟩,
    h.power⟩, Nat.le_refl 0⟩
  · show (Stack.wipe ones s 0 s.size).inBounds = true
    unfold Stack.wipe
    have hZero : (0 : BitVec 32).toNat = 0 := rfl
    have hRoom : (0 : BitVec 32).toNat + s.size.toNat ≤
        s.capacity.toNat := by omega
    simp only [h.inBounds, hRoom, decide_true, Bool.or_true,
      Bool.and_true]
  · intro k f hGet
    cases hGet

------------------------------------------------------------
-- Thefts
------------------------------------------------------------

/- A frame of the victim is read in bounds. -/
theorem Holds.load_eq
    {s : Stack D} {r : RefStack D} {i : BitVec 32}
    (h : Holds s r)
    (hLt : i.toNat < r.frames.length) :
    s.load i = (s, r.frames[i.toNat]) := by
  have hCap := h.capacity
  unfold Stack.load
  rw [Stack.touch_of_lt (by omega),
    h.frames i.toNat _ (List.getElem?_eq_getElem hLt)]

/- The frames below the tail are copied and marked. -/
theorem copyAncestors_spec
    {victim thief : Stack D} {r : RefStack D} {tail : Nat}
    (h : Holds victim r) (junk : Nat → Junk D)
    (hThief : Fits thief { frames := [], tail := tail })
    (hSmall : r.frames.length ≤ 2 ^ 31)
    (n : Nat) (hn : n ≤ r.frames.length) :
    ∃ thief', Stack.copyAncestors junk n victim thief =
        Except.ok (victim, thief') ∧
      Fits thief'
        { frames := (r.frames.take n).map Frame.markFull
          tail := tail } := by
  induction n with
  | zero => exact ⟨thief, rfl, hThief⟩
  | succ n ih =>
      rcases ih (by omega) with ⟨thief₁, hRun, hFits⟩
      have hLength : ((r.frames.take n).map
          Frame.markFull).length = n := by
        rw [List.length_map, List.length_take]
        omega
      have hIndex : (BitVec.ofNat 32 n).toNat = n := by
        rw [BitVec.toNat_ofNat]
        omega
      have hLoad := h.load_eq (i := BitVec.ofNat 32 n)
        (by omega)
      rcases hFits.add (junk n)
        r.frames[(BitVec.ofNat 32 n).toNat]
        (by rw [hLength]; omega) with ⟨thief₂, hAdd, hFits₂⟩
      have hNonempty := RefStack.push_ne_nil
        { frames := (r.frames.take n).map Frame.markFull
          tail := tail } r.frames[(BitVec.ofNat 32 n).toNat]
      rcases hFits₂.setHead hNonempty
        r.frames[(BitVec.ofNat 32 n).toNat].markFull with
        ⟨thief₃, hMark, hFits₃⟩
      refine ⟨thief₃, ?_, ?_⟩
      · unfold Stack.copyAncestors
        rw [hRun, ok_bind]
        dsimp only
        rw [hLoad]
        dsimp only
        rw [hAdd, ok_bind, hFits₂.getHead_eq hNonempty, ok_bind]
        dsimp only
        rw [hFits₂.headFrame_eq rfl, hMark]
        rfl
      · rw [RefStack.setHead_push] at hFits₃
        have hTake : (r.frames.take (n + 1)).map
            Frame.markFull =
            (r.frames.take n).map Frame.markFull ++
              [r.frames[(BitVec.ofNat 32 n).toNat].markFull] := by
          rw [List.take_succ_eq_append_getElem (by omega),
            List.map_append, List.map_singleton]
          simp only [hIndex]
        rw [hTake]
        exact hFits₃

/- The frame at the tail is copied. -/
theorem copyTail_spec
    {victim thief : Stack D} {r rt : RefStack D}
    (h : Holds victim r) (junk : Junk D)
    (hThief : Fits thief rt)
    (hRoom : rt.frames.length < 2 ^ 31)
    (hSmall : r.frames.length ≤ 2 ^ 31)
    (hTail : r.tail < r.frames.length) :
    ∃ thief', Stack.copyTail junk victim thief =
        Except.ok
          ({ victim with tail := victim.tail + 1 }, thief') ∧
      Holds { victim with tail := victim.tail + 1 }
        { r with tail := r.tail + 1 } ∧
      Fits thief' (rt.push r.frames[r.tail]) := by
  have hEq := h.tail
  have hLoad := h.load_eq (i := victim.tail) (by omega)
  rcases hThief.add junk r.frames[r.tail] hRoom with
    ⟨thief', hAdd, hFits⟩
  refine ⟨thief', ?_, ?_, hFits⟩
  · unfold Stack.copyTail
    dsimp only
    rw [hLoad]
    simp only [hEq]
    rw [hAdd]
    rfl
  · refine ⟨h.inBounds, h.size, h.capacity, h.frames, ?_⟩
    show (victim.tail + 1).toNat = r.tail + 1
    bv_omega

/- A tail above the head does not pass the assertions. -/
theorem tail_lt_of_copyToHelper
    {victim thief : Stack D} {r : RefStack D} {fuel : Nat}
    {result : Stack D × Stack D} {junk : Nat → Junk D}
    (h : Holds victim r)
    (hNonempty : r.frames ≠ [])
    (hRun : Stack.copyToHelper junk fuel victim thief =
      Except.ok result) :
    r.tail < r.frames.length := by
  have hHead := h.head hNonempty
  have hEq := h.tail
  unfold Stack.copyToHelper at hRun
  dsimp only at hRun
  split at hRun
  · rcases bind_eq_ok hRun with ⟨u, hCheck, -⟩
    have hLe : victim.tail ≤ victim.head := of_check hCheck
    bv_omega
  · rcases bind_eq_ok hRun with ⟨u, hCheck, -⟩
    have hLt : victim.tail < victim.head := of_check hCheck
    bv_omega

/- The place of the next helper frame from the tail on. -/
def RefStack.helperFrom (r : RefStack D) : Nat :=
  r.tail + (r.frames.drop r.tail).findIdx fun f => f.IsHelper

theorem RefStack.helperFrom_of_helper
    {r : RefStack D}
    (hLt : r.tail < r.frames.length)
    (hHelper : r.frames[r.tail].IsHelper) :
    r.helperFrom = r.tail := by
  unfold RefStack.helperFrom
  rw [List.drop_eq_getElem_cons hLt, List.findIdx_cons]
  simp [hHelper]

theorem RefStack.helperFrom_of_not_helper
    {r : RefStack D}
    (hLt : r.tail < r.frames.length)
    (hHelper : ¬ r.frames[r.tail].IsHelper) :
    r.helperFrom =
      RefStack.helperFrom { r with tail := r.tail + 1 } := by
  unfold RefStack.helperFrom
  rw [List.drop_eq_getElem_cons hLt, List.findIdx_cons]
  simp only [hHelper, decide_false, cond_false]
  omega

/- What the loop up to the next helper frame leads to. -/
structure Moved
    (victim victim' thief' : Stack D)
    (r rt : RefStack D) : Prop where
  lt : r.helperFrom < r.frames.length
  le : r.tail ≤ r.helperFrom
  sameCapacity : victim'.capacity = victim.capacity
  ofVictim : Holds victim' { r with tail := r.helperFrom }
  ofThief : Fits thief'
    { rt with
      frames := rt.frames ++
        (r.frames.take r.helperFrom).drop r.tail }

/- The loop stops at a helper frame. -/
theorem moved_of_helper
    {victim thief victim' thief' : Stack D}
    {r rt : RefStack D} {fuel : Nat} {junk : Nat → Junk D}
    (h : Holds victim r)
    (hThief : Fits thief rt)
    (hLt : r.tail < r.frames.length)
    (hHelper : r.frames[r.tail].IsHelper)
    (hRun : Stack.copyToHelper junk fuel victim thief =
      Except.ok (victim', thief')) :
    Moved victim victim' thief' r rt := by
  have hEq := h.tail
  have hHere := RefStack.helperFrom_of_helper hLt hHelper
  unfold Stack.copyToHelper at hRun
  rw [h.load_eq (i := victim.tail) (by omega)] at hRun
  simp only [hEq, if_pos hHelper] at hRun
  rcases bind_eq_ok hRun with ⟨u, -, hRun⟩
  cases hRun
  have hNone : (r.frames.take r.tail).drop r.tail = [] :=
    List.drop_eq_nil_of_le (List.length_take_le _ _)
  constructor
  · rw [hHere]
    exact hLt
  · exact Nat.le_of_eq (by rw [hHere])
  · rfl
  · rw [hHere]
    exact h
  · rw [hHere, hNone, List.append_nil]
    exact hThief

/- The frames up to the next helper frame are copied. -/
theorem moved_of_copyToHelper
    {victim thief victim' thief' : Stack D}
    {r rt : RefStack D} {fuel : Nat} {junk : Nat → Junk D}
    (h : Holds victim r)
    (hThief : Fits thief rt)
    (hNonempty : r.frames ≠ [])
    (hSmall : r.frames.length ≤ 2 ^ 31)
    (hCount : rt.frames.length = r.tail)
    (hRun : Stack.copyToHelper junk fuel victim thief =
      Except.ok (victim', thief')) :
    Moved victim victim' thief' r rt := by
  induction fuel generalizing victim thief r rt with
  | zero =>
      have hLt := tail_lt_of_copyToHelper h hNonempty hRun
      have hEq := h.tail
      by_cases hHelper : r.frames[r.tail].IsHelper
      · exact moved_of_helper h hThief hLt hHelper hRun
      · unfold Stack.copyToHelper at hRun
        rw [h.load_eq (i := victim.tail) (by omega)] at hRun
        simp only [hEq, if_neg hHelper] at hRun
        rcases bind_eq_ok hRun with ⟨u, -, hRun⟩
        cases hRun
  | succ fuel ih =>
      have hLt := tail_lt_of_copyToHelper h hNonempty hRun
      have hEq := h.tail
      by_cases hHelper : r.frames[r.tail].IsHelper
      · exact moved_of_helper h hThief hLt hHelper hRun
      · have hNext :=
          RefStack.helperFrom_of_not_helper hLt hHelper
        rcases copyTail_spec h (junk victim.tail.toNat) hThief
          (by omega) hSmall hLt with
          ⟨thief₁, hCopy, hVictim₁, hThief₁⟩
        unfold Stack.copyToHelper at hRun
        rw [h.load_eq (i := victim.tail) (by omega)] at hRun
        simp only [hEq, if_neg hHelper] at hRun
        rcases bind_eq_ok hRun with ⟨u, -, hRun⟩
        rw [hEq] at hCopy
        rw [hCopy, ok_bind] at hRun
        have hMoved := ih hVictim₁ hThief₁ hNonempty hSmall
          (by
            unfold RefStack.push
            rw [List.length_append, List.length_singleton,
              hCount]) hRun
        have hPast := hMoved.le
        rw [← hNext] at hPast
        have hPastNat : r.tail + 1 ≤ r.helperFrom := hPast
        have hLoot :
            (r.frames.take r.helperFrom).drop r.tail =
              r.frames[r.tail] ::
                (r.frames.take r.helperFrom).drop
                  (r.tail + 1) := by
          rw [List.drop_eq_getElem_cons (by
            rw [List.length_take]
            omega), List.getElem_take]
        constructor
        · have := hMoved.lt
          rw [← hNext] at this
          exact this
        · omega
        · exact hMoved.sameCapacity
        · have := hMoved.ofVictim
          rw [← hNext] at this
          exact this
        · have := hMoved.ofThief
          rw [← hNext] at this
          rw [hLoot, List.append_cons]
          exact this

/- A theft from a stack that is not empty. -/
theorem Inv.steal
    {victim thief victim' thief' : Stack D}
    {r rt : RefStack D} {junk : Nat → Junk D}
    (h : Inv victim r)
    (hThief : Inv thief rt)
    (hNonempty : r.frames ≠ [])
    (hRun : victim.stealTop thief junk =
      Except.ok (victim', thief')) :
    Inv victim' r.stolen ∧ Inv thief' r.loot := by
  have hEq := h.tail
  have hBelow := h.below
  have hCap := h.capacity
  have hBounds := h.capacity_bounds
  have hPos := List.length_pos_iff.mpr hNonempty
  rcases bind_eq_ok hRun with ⟨u, -, hRun⟩
  rcases bind_eq_ok hRun with ⟨v, -, hRun⟩
  rcases bind_eq_ok hRun with ⟨w, hEmpty, hRun⟩
  have hSize : thief.size = 0 := of_check hEmpty
  -- The thief starts with no frame and the tail of the victim.
  have hStart : Fits { thief with tail := victim.tail }
      { frames := [], tail := r.tail } := by
    refine ⟨⟨hThief.inBounds, ?_, Nat.zero_le _, ?_, hEq⟩,
      hThief.power⟩
    · show 0 = thief.size.toNat
      rw [hSize]
      rfl
    · intro k f hGet
      cases hGet
  rcases copyAncestors_spec h.toHolds junk hStart (by omega)
    r.tail (by omega) with ⟨thief₁, hCopy, hThief₁⟩
  have hLength : ((r.frames.take r.tail).map
      Frame.markFull).length = r.tail := by
    rw [List.length_map, List.length_take]
    omega
  have hLt : r.tail < r.frames.length := by omega
  rcases copyTail_spec h.toHolds (junk r.tail) hThief₁
    (by rw [hLength]; omega) (by omega) hLt with
    ⟨thief₂, hTail, hVictim₂, hThief₂⟩
  dsimp only at hRun
  rw [hEq, hCopy, ok_bind] at hRun
  dsimp only at hRun
  rw [hEq, hTail, ok_bind] at hRun
  rcases bind_eq_ok hRun with ⟨⟨victim₃, thief₃⟩, hLoop, hRun⟩
  have hMoved := moved_of_copyToHelper hVictim₂ hThief₂
    hNonempty (show r.frames.length ≤ 2 ^ 31 by omega)
    (by
      unfold RefStack.push
      rw [List.length_append, hLength]
      rfl) hLoop
  have hNext : RefStack.helperFrom { r with tail := r.tail + 1 } =
      r.nextHelper := rfl
  have hPast := hMoved.le
  have hNextLt := hMoved.lt
  have hOfVictim := hMoved.ofVictim
  have hOfThief := hMoved.ofThief
  rw [hNext] at hPast hNextLt hOfVictim hOfThief
  have hPastNat : r.tail + 1 ≤ r.nextHelper := hPast
  have hNextNat : r.nextHelper < r.frames.length := hNextLt
  -- All in all, the thief gets the loot.
  have hLoot : r.loot = RefStack.mk
      (((r.frames.take r.tail).map Frame.markFull ++
          [r.frames[r.tail]]) ++
        (r.frames.take r.nextHelper).drop (r.tail + 1))
      r.tail := by
    unfold RefStack.loot
    rw [List.drop_eq_getElem_cons (by
      rw [List.length_take]
      omega), List.getElem_take, List.append_cons]
  have hFits : Fits thief₃ r.loot := by
    rw [hLoot]
    exact hOfThief
  have hLootLength : r.loot.frames.length = r.nextHelper := by
    rw [hLoot, List.length_append, List.length_append, hLength,
      List.length_drop, List.length_take,
      List.length_singleton]
    omega
  have hLootNonempty : r.loot.frames ≠ [] := by
    intro hNil
    rw [hNil] at hLootLength
    have : 0 = r.nextHelper := hLootLength
    omega
  dsimp only at hRun
  rw [hFits.getHead_eq hLootNonempty] at hRun
  cases hRun
  refine ⟨⟨⟨hOfVictim, ?_⟩, ?_⟩, ⟨hFits, ?_⟩⟩
  · rw [hMoved.sameCapacity]
    exact h.power
  · show r.nextHelper ≤ r.frames.length - 1
    omega
  · rw [hLootLength]
    show r.tail ≤ _
    omega

/- The heads and tails alone, also without any frame. -/
theorem heads_of_copyTail
    {victim thief : Stack D} {junk : Junk D}
    {result : Stack D × Stack D}
    (hRun : Stack.copyTail junk victim thief =
      Except.ok result) :
    result.1.tail = victim.tail + 1 ∧
      result.2.head = thief.head + 1 := by
  rcases bind_eq_ok hRun with ⟨thief', hSet, hRun⟩
  cases hRun
  rcases bind_eq_ok hSet with ⟨i, -, hSet⟩
  cases hSet
  exact ⟨rfl, Stack.push_head thief junk⟩

theorem heads_of_copyToHelper
    {victim thief : Stack D} {junk : Nat → Junk D} {fuel : Nat}
    {result : Stack D × Stack D}
    (hTail : victim.tail ≠ 0)
    (hHead : thief.head + 1 = victim.tail)
    (hRun : Stack.copyToHelper junk fuel victim thief =
      Except.ok result) :
    result.2.head + 1 ≠ 0 := by
  induction fuel generalizing victim thief with
  | zero =>
      unfold Stack.copyToHelper at hRun
      dsimp only at hRun
      split at hRun
      · rcases bind_eq_ok hRun with ⟨u, -, hRun⟩
        cases hRun
        rw [hHead]
        exact hTail
      · rcases bind_eq_ok hRun with ⟨u, -, hRun⟩
        cases hRun
  | succ fuel ih =>
      unfold Stack.copyToHelper at hRun
      dsimp only at hRun
      split at hRun
      · rcases bind_eq_ok hRun with ⟨u, -, hRun⟩
        cases hRun
        rw [hHead]
        exact hTail
      · rcases bind_eq_ok hRun with ⟨u, hCheck, hRun⟩
        have hLt : victim.tail < victim.head := of_check hCheck
        rcases bind_eq_ok hRun with ⟨next, hCopy, hRun⟩
        rcases heads_of_copyTail hCopy with ⟨hNewTail, hNewHead⟩
        have hSame : next.1.tail = victim.tail + 1 := hNewTail
        apply ih _ _ hRun
        · rw [hSame]
          bv_omega
        · rw [hSame, hNewHead, hHead]

/- A theft from an empty stack gives the thief a frame. -/
theorem Inv.not_holds_steal_empty
    {victim thief victim' thief' : Stack D}
    {r : RefStack D} {junk : Nat → Junk D}
    (h : Inv victim r)
    (hEmpty : r.frames = [])
    (hRun : victim.stealTop thief junk =
      Except.ok (victim', thief')) :
    ¬ Holds thief' r.loot := by
  have hEq := h.tail
  have hBelow := h.below
  rw [hEmpty] at hBelow
  have hBelowNat : r.tail ≤ 0 := hBelow
  have hZero : victim.tail = 0 := by
    apply BitVec.eq_of_toNat_eq
    rw [hEq]
    exact Nat.le_zero.mp hBelowNat
  rcases bind_eq_ok hRun with ⟨u, -, hRun⟩
  rcases bind_eq_ok hRun with ⟨v, -, hRun⟩
  rcases bind_eq_ok hRun with ⟨w, hNone, hRun⟩
  have hSize : thief.head + 1 = 0 := of_check hNone
  dsimp only at hRun
  rw [hZero] at hRun
  rcases bind_eq_ok hRun with ⟨⟨victim₁, thief₁⟩, hCopy, hRun⟩
  cases hCopy
  rcases bind_eq_ok hRun with ⟨⟨victim₂, thief₂⟩, hTail, hRun⟩
  rcases heads_of_copyTail hTail with ⟨hTail₂, hHead₂⟩
  rcases bind_eq_ok hRun with ⟨⟨victim₃, thief₃⟩, hLoop, hRun⟩
  have hTailEq : victim₂.tail = victim.tail + 1 := hTail₂
  have hHeadEq : thief₂.head = thief.head + 1 := hHead₂
  have hNonzero := heads_of_copyToHelper
    (by rw [hTailEq, hZero]; decide)
    (by rw [hHeadEq, hTailEq, hSize, hZero]) hLoop
  rcases bind_eq_ok hRun with ⟨⟨thief₄, f⟩, hGet, hRun⟩
  cases hRun
  have hSame : thief₄.head = thief₃.head := by
    rcases bind_eq_ok hGet with ⟨i, -, hGet⟩
    cases hGet
    rfl
  intro hHolds
  have hLootSize := hHolds.size
  unfold RefStack.loot Stack.size at hLootSize
  rw [hEmpty, hSame] at hLootSize
  apply hNonzero
  apply BitVec.eq_of_toNat_eq
  rw [← hLootSize]
  simp

------------------------------------------------------------
-- All Stacks
------------------------------------------------------------

variable {ι : Type} [DecidableEq ι]

/- Every stack holds what it should. -/
def Kept (s : StackState ι D) : Prop :=
  ∀ i, Holds (s.stackOf i) (s.refs i)

/-
  The condition on a step: a push does not need more than
  `2 ^ 31` elements, a pop or a theft finds a frame, and a
  pop is not at the edge.
-/
def Careful (s : StackState ι D) : StackAction ι D → Prop
| .push i _ | .pushHelper i _ | .add i _ _ =>
    (s.stackOf i).size.toNat < 2 ^ 31
| .pop i _ =>
    (s.stackOf i).head ≠ -1 ∧ ¬ AtEdge (s.stackOf i)
| .steal i _ _ => (s.stackOf i).head ≠ -1
| .setHead _ _ | .reset _ => True

/- The invariant of all stacks. -/
def AllInv (s : StackState ι D) : Prop :=
  ∀ i, Inv (s.stackOf i) (s.refs i)

omit [DecidableEq ι] in
theorem AllInv.kept
    {s : StackState ι D}
    (h : AllInv s) :
    Kept s :=
  fun i => (h i).toHolds

theorem AllInv.set
    {s : StackState ι D} {i : ι} {stack : Stack D}
    {ref : RefStack D}
    (h : AllInv s)
    (hNew : Inv stack ref) :
    AllInv (s.set i stack ref) := by
  intro j
  unfold StackState.set
  dsimp only
  by_cases hj : j = i
  · subst hj
    rw [Function.update_self, Function.update_self]
    exact hNew
  · rw [Function.update_of_ne hj, Function.update_of_ne hj]
    exact h j

/- What is kept of the stack that was changed last. -/
theorem Kept.of_set
    {s : StackState ι D} {i : ι} {stack : Stack D}
    {ref : RefStack D}
    (h : Kept (s.set i stack ref)) :
    Holds stack ref := by
  have hHolds := h i
  unfold StackState.set at hHolds
  dsimp only at hHolds
  rw [Function.update_self, Function.update_self] at hHolds
  exact hHolds

/- A careful step keeps the invariant. -/
theorem AllInv.step
    {ones : Frame D} {s t : StackState ι D}
    {a : StackAction ι D}
    (h : AllInv s)
    (hRun : stackApply ones s a = Except.ok t)
    (hCareful : Careful s a) :
    AllInv t := by
  cases a with
  | push i junk =>
      cases hRun
      apply h.set ((h i).push junk _)
      rw [(h i).size]
      exact hCareful
  | pushHelper i junk =>
      rcases bind_eq_ok hRun with ⟨new, hNew, hRun⟩
      cases hRun
      apply h.set ((h i).pushHelper _ hNew)
      rw [(h i).size]
      exact hCareful
  | add i junk item =>
      rcases bind_eq_ok hRun with ⟨new, hNew, hRun⟩
      cases hRun
      have hRoom : (s.refs i).frames.length < 2 ^ 31 := by
        rw [(h i).size]
        exact hCareful
      rcases (h i).add junk item hRoom with
        ⟨new', hAdd, hInv⟩
      rw [hNew] at hAdd
      cases hAdd
      exact h.set hInv
  | setHead i f =>
      rcases bind_eq_ok hRun with ⟨new, hNew, hRun⟩
      cases hRun
      have hNonempty : (s.refs i).frames ≠ [] := by
        intro hEmpty
        exact (h i).setHead_empty hEmpty hNew
      rcases (h i).setHead hNonempty f with ⟨new', hSet, hInv⟩
      rw [hNew] at hSet
      cases hSet
      exact h.set hInv
  | pop i junk =>
      rcases bind_eq_ok hRun with ⟨new, hNew, hRun⟩
      cases hRun
      have hNonempty : (s.refs i).frames ≠ [] := by
        intro hEmpty
        exact hCareful.1 ((h i).empty_iff.mp hEmpty)
      rcases (h i).pop ones junk hNonempty hCareful.2 with
        ⟨new', hPop, hInv⟩
      rw [hNew] at hPop
      cases hPop
      exact h.set hInv
  | reset i =>
      cases hRun
      exact h.set ((h i).reset ones)
  | steal i j junk =>
      unfold stackApply at hRun
      dsimp only at hRun
      split at hRun
      · cases hRun
      · rcases bind_eq_ok hRun with
          ⟨⟨victim, thief⟩, hSteal, hRun⟩
        cases hRun
        have hNonempty : (s.refs i).frames ≠ [] := by
          intro hEmpty
          exact hCareful ((h i).empty_iff.mp hEmpty)
        rcases (h i).steal (h j) hNonempty hSteal with
          ⟨hVictim, hThief⟩
        exact (h.set hVictim).set hThief

/- A step that is not careful loses a stack. -/
theorem AllInv.careful_of_kept
    {ones : Frame D} {s t : StackState ι D}
    {a : StackAction ι D}
    (h : AllInv s)
    (hRun : stackApply ones s a = Except.ok t)
    (hKept : Kept t) :
    Careful s a := by
  cases a with
  | push i junk =>
      cases hRun
      by_contra hFull
      apply (h i).not_holds_push junk _ hKept.of_set
      rw [(h i).size]
      exact hFull
  | pushHelper i junk =>
      rcases bind_eq_ok hRun with ⟨new, hNew, hRun⟩
      by_contra hFull
      apply (h i).pushHelper_full _ hNew
      rw [(h i).size]
      exact hFull
  | add i junk item =>
      rcases bind_eq_ok hRun with ⟨new, hNew, hRun⟩
      by_contra hFull
      apply (h i).not_head_lt_push junk _
        (head_lt_of_setHead hNew)
      rw [(h i).size]
      exact hFull
  | setHead i f => trivial
  | pop i junk =>
      rcases bind_eq_ok hRun with ⟨new, hNew, hRun⟩
      cases hRun
      have hNonempty : (s.refs i).frames ≠ [] := by
        intro hEmpty
        exact (h i).not_holds_pop_empty hEmpty hNew
          hKept.of_set
      refine ⟨?_, ?_⟩
      · intro hHead
        exact hNonempty ((h i).empty_iff.mpr hHead)
      · intro hEdge
        exact (h i).not_holds_pop hNonempty hEdge hNew
          hKept.of_set
  | reset i => trivial
  | steal i j junk =>
      unfold stackApply at hRun
      dsimp only at hRun
      split at hRun
      · cases hRun
      · rcases bind_eq_ok hRun with
          ⟨⟨victim, thief⟩, hSteal, hRun⟩
        cases hRun
        intro hHead
        exact (h i).not_holds_steal_empty
          ((h i).empty_iff.mpr hHead) hSteal hKept.of_set

/-
  In every run of careful steps all accesses are in bounds
  and the stacks hold what unbounded stacks hold, and the
  next step leaves it so if and only if it is careful, too.
-/
theorem kept_iff_careful
    (ones : Frame D) (s : StackState ι D)
    (hReach :
      ((stackSystem ι ones).restrict Careful).Reachable s) :
    Kept s ∧ ∀ a t, (stackSystem ι ones).step s a t →
      (Kept t ↔ Careful s a) := by
  have hInv : AllInv s := by
    apply hReach.invariant
    · intro s hInit i
      rcases hInit i with ⟨hRef, junk, hStack⟩
      rw [hRef, hStack]
      exact inv_new junk
    · intro s a t h hStep
      exact h.step hStep.1 hStep.2
  refine ⟨hInv.kept, ?_⟩
  intro a t hStep
  constructor
  · intro hKept
    exact hInv.careful_of_kept hStep hKept
  · intro hCareful
    exact (hInv.step hStep hCareful).kept

/- Memory full of zeros. -/
def zeros : Junk Unit := fun _ => { data := (), flags := 0 }

/- The stacks of two workers. -/
def twoStacks : StackState Bool Unit where
  stackOf := fun _ => Stack.new zeros
  refs := fun _ => .empty

/- Several operations in order. -/
def stackRun (ones : Frame D) :
    StackState ι D → List (StackAction ι D) →
      Run (StackState ι D)
| s, [] => return s
| s, a :: acts => do
    let s ← stackApply ones s a
    stackRun ones s acts

theorem run_of_stackRun
    {ones : Frame D} {acts : List (StackAction ι D)}
    {s t : StackState ι D}
    (h : stackRun ones s acts = Except.ok t) :
    (stackSystem ι ones).Run s acts t := by
  induction acts generalizing s with
  | nil =>
      cases h
      exact TransitionSystem.Run.refl _
  | cons a acts ih =>
      rcases bind_eq_ok h with ⟨u, hStep, hRest⟩
      exact TransitionSystem.Run.head hStep (ih hRest)

instance (s : StackState ι D) (a : StackAction ι D) :
    Decidable (Careful s a) :=
  match a with
  | .push _ _ => inferInstanceAs (Decidable (_ < _))
  | .pushHelper _ _ => inferInstanceAs (Decidable (_ < _))
  | .add _ _ _ => inferInstanceAs (Decidable (_ < _))
  | .pop _ _ => inferInstanceAs (Decidable (_ ∧ _))
  | .steal _ _ _ => inferInstanceAs (Decidable (¬ _))
  | .setHead _ _ => inferInstanceAs (Decidable True)
  | .reset _ => inferInstanceAs (Decidable True)

/- Several operations in order, each of them careful. -/
def carefulRun (ones : Frame D) :
    StackState ι D → List (StackAction ι D) →
      Run (StackState ι D)
| s, [] => return s
| s, a :: acts => do
    check (Careful s a)
    let s ← stackApply ones s a
    carefulRun ones s acts

theorem run_of_carefulRun
    {ones : Frame D} {acts : List (StackAction ι D)}
    {s t : StackState ι D}
    (h : carefulRun ones s acts = Except.ok t) :
    ((stackSystem ι ones).restrict Careful).Run s acts t := by
  induction acts generalizing s with
  | nil =>
      cases h
      exact TransitionSystem.Run.refl _
  | cons a acts ih =>
      rcases bind_eq_ok h with ⟨v, hCareful, h⟩
      rcases bind_eq_ok h with ⟨u, hStep, hRest⟩
      exact TransitionSystem.Run.head
        ⟨hStep, of_check hCareful⟩ (ih hRest)

/-
  An array is doubled, a helper frame and a frame above it are
  pushed, and all below the helper frame is stolen.  The
  victim pops both, and the thief pops until its array, which
  was doubled as well, is halved.
-/
def stolenAndHalved : List (StackAction Bool Unit) :=
  List.replicate 130 (.push false zeros) ++
    [.pushHelper false zeros, .push false zeros,
      .steal false true fun _ => zeros,
      .pop false zeros, .pop false zeros] ++
    List.replicate 3 (.pop true zeros)

theorem kept_iff_careful_halved :
    ∃ s, ((stackSystem Bool (zeros 0)).restrict
        Careful).Run twoStacks stolenAndHalved s ∧
      (s.refs false).tail = 129 ∧
      (s.refs true).frames.length = 127 ∧
      (s.stackOf true).capacity = DEFAULT_CAPACITY ∧
      Kept s ∧
      ∀ a t, (stackSystem Bool (zeros 0)).step s a t →
        (Kept t ↔ Careful s a) := by
  have hTest : (carefulRun (zeros 0) twoStacks
      stolenAndHalved).toOption.any (fun s =>
        (s.refs false).tail = 129 ∧
          (s.refs true).frames.length = 127 ∧
          (s.stackOf true).capacity = DEFAULT_CAPACITY) =
            true := by
    decide +kernel
  cases hEnd : carefulRun (zeros 0) twoStacks
      stolenAndHalved with
  | error e =>
      rw [hEnd] at hTest
      cases hTest
  | ok s =>
      rw [hEnd] at hTest
      rcases of_decide_eq_true hTest with
        ⟨hTail, hSize, hCapacity⟩
      have hRun := run_of_carefulRun hEnd
      have hKept := kept_iff_careful (zeros 0) s
        ⟨twoStacks, stolenAndHalved, fun _ => ⟨rfl, zeros, rfl⟩,
          hRun⟩
      exact ⟨s, hRun, hTail, hSize, hCapacity, hKept⟩

/-
  A pop after 128 frames and a helper frame were pushed and
  all but the helper frame were stolen.
-/
def popsAtEdge : List (StackAction Bool Unit) :=
  List.replicate 128 (.push false zeros) ++
    [.pushHelper false zeros,
      .steal false true fun _ => zeros, .pop false zeros]

theorem cleared_out_of_bounds :
    ¬ ∀ s, (stackSystem Bool (zeros 0)).Reachable s →
      Kept s := by
  intro hAll
  have hTest : (match stackRun (zeros 0) twoStacks popsAtEdge
      with
      | Except.ok s => !(s.stackOf false).inBounds
      | Except.error _ => false) = true := by
    decide +kernel
  split at hTest
  · rename_i s hRun
    have hReach : (stackSystem Bool (zeros 0)).Reachable s :=
      ⟨twoStacks, popsAtEdge, fun _ => ⟨rfl, zeros, rfl⟩,
        run_of_stackRun hRun⟩
    have hKept := (hAll s hReach false).inBounds
    rw [hKept] at hTest
    cases hTest
  · cases hTest

end FrameStack

end PRacer
