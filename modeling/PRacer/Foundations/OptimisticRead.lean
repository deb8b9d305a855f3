import Mathlib.Algebra.Group.Nat.Even
import Mathlib.Data.BitVec
import Mathlib.Tactic.Common

/-
  Reads of shared data that are checked afterwards.

  A writer increments a counter before and after it changes
  the data, so that the counter is odd in between.  A reader
  reads the counter, then the data piece by piece, and then
  the counter again.  If both values are the same and even,
  the data did not change in between, unless the counter has
  gone round.

  Main declarations:
    * `Snapshot`
    * `Snapshot.start`, `Snapshot.keep`, `Snapshot.bump`,
      `Snapshot.accept`
-/

------------------------------------------------------------
-- Counters
------------------------------------------------------------

namespace PRacer

namespace Foundations

/- The test of the lowest bit of a counter. -/
theorem even_of_word
    {w n : Nat}
    (hWidth : 0 < w)
    (h : BitVec.ofNat w n &&& 1 = 0) :
    Even n := by
  have hBit : (BitVec.ofNat w n &&& 1).getLsbD 0 =
      (0 : BitVec w).getLsbD 0 := by
    rw [h]
  rw [BitVec.getLsbD_and, BitVec.getLsbD_ofNat] at hBit
  simp only [hWidth, decide_true, Bool.true_and,
    BitVec.ofNat_eq_ofNat, BitVec.getLsbD_ofNat,
    Nat.testBit_zero, Nat.zero_mod, Nat.one_mod,
    decide_true, Bool.and_true] at hBit
  rw [Nat.even_iff]
  have hNot : n % 2 ≠ 1 := by
    intro hOne
    rw [hOne] at hBit
    cases hBit
  omega

theorem word_of_even
    {w n : Nat}
    (h : Even n) :
    BitVec.ofNat w n &&& 1 = 0 := by
  apply BitVec.eq_of_getLsbD_eq
  intro i hi
  rw [BitVec.getLsbD_and, BitVec.getLsbD_ofNat]
  cases i with
  | zero =>
      have hBit : n.testBit 0 = false := by
        simp [Nat.testBit_zero, Nat.even_iff.mp h]
      simp [hBit]
  | succ i => simp

/- Two values of a counter that did not go round. -/
theorem eq_of_word_eq
    {w m n : Nat}
    (hLe : m ≤ n)
    (hWindow : n < m + 2 ^ w)
    (h : BitVec.ofNat w m = BitVec.ofNat w n) :
    m = n := by
  have hMod : m % 2 ^ w = n % 2 ^ w := by
    rw [← BitVec.toNat_ofNat, ← BitVec.toNat_ofNat, h]
  have hDvd : 2 ^ w ∣ n - m :=
    (Nat.modEq_iff_dvd' hLe).mp hMod
  rcases Nat.eq_zero_or_pos (n - m) with hZero | hPos
  · omega
  · have := Nat.le_of_dvd hPos hDvd
    omega

------------------------------------------------------------
-- Snapshots
------------------------------------------------------------

/-
  A reader that saw the counter at `since`: as long as the
  counter stays there and is even, what it has read agrees
  with the data.
-/
structure Snapshot
    (since count : Nat) (agrees : Prop) : Prop where
  le : since ≤ count
  agrees : count = since → Even count → agrees

namespace Snapshot

variable {since count : Nat} {agrees agrees' : Prop}

/- A reader that has read the counter only. -/
theorem start
    (h : Even count → agrees) :
    Snapshot count count agrees :=
  ⟨Nat.le_refl count, fun _ => h⟩

/- The reader reads on, or the data changes elsewhere. -/
theorem keep
    (h : Snapshot since count agrees)
    (hKeep : Even count → agrees → agrees') :
    Snapshot since count agrees' :=
  ⟨h.le, fun hEq hEven =>
    hKeep hEven (h.agrees hEq hEven)⟩

/- The counter moves on. -/
theorem bump
    (h : Snapshot since count agrees) :
    Snapshot since (count + 1) agrees' := by
  have hLe := h.le
  refine ⟨by omega, ?_⟩
  intro hEq
  omega

/- The test at the end succeeds. -/
theorem accept
    {w : Nat}
    (h : Snapshot since count agrees)
    (hWidth : 0 < w)
    (hEven : BitVec.ofNat w since &&& 1 = 0)
    (hSame : BitVec.ofNat w since = BitVec.ofNat w count)
    (hWindow : count < since + 2 ^ w) :
    agrees := by
  have hEq := eq_of_word_eq h.le hWindow hSame
  apply h.agrees hEq.symm
  rw [← hEq]
  exact even_of_word hWidth hEven

end Snapshot

end Foundations

end PRacer
