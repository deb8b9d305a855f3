import PRacer.ShadowTable.Refinement

/-
  Clearing a range of the shadow memory.

  Main declarations:
    * `Meets`, `Cleared`
    * `clears_iff_aligned`
-/

------------------------------------------------------------
-- Blocks of a Range
------------------------------------------------------------

namespace PRacer

open Foundations

namespace ShadowTable

/- The block of the key has an address in the range. -/
def Meets (start stop key : BitVec 64) : Prop :=
  start.toNat < 16 * key.toNat + 16 ∧
    16 * key.toNat < stop.toNat

/-
  The range is cleared, the other blocks are as they were,
  and `erase` was called for blocks of the range only.
-/
structure Cleared {T : Type}
    (m m' : ShadowDir T) (start stop : BitVec 64)
    (keys : List (BitVec 64)) : Prop where
  cleared : ∀ key, Meets start stop key → m'.toMap key = none
  kept : ∀ key, ¬ Meets start stop key →
    m'.toMap key = m.toMap key
  keys : ∀ key ∈ keys, Meets start stop key

theorem add_maxGrainSize_toNat (addr : BitVec 64) :
    (addr + BitVec.ofNat 64 MAX_GRAIN_SIZE).toNat =
      (addr.toNat + 16) % 2 ^ 64 := by
  simp [BitVec.toNat_add, MAX_GRAIN_SIZE, LOG_KEY_SIZE]

/- An address that the check admits is a multiple of 16. -/
theorem toNat_mod_of_aligned
    {addr : BitVec 64}
    (hAligned : alignByNextMaxGrainSize addr = addr) :
    addr.toNat % 16 = 0 := by
  have hLow : addr &&& 15#64 = 0#64 := by
    rw [← hAligned]
    unfold alignByNextMaxGrainSize MAX_GRAIN_MASK
    rw [BitVec.and_assoc]
    have hMask : ~~~ BitVec.ofNat 64 (MAX_GRAIN_SIZE - 1) &&&
        15#64 = 0#64 := by decide
    rw [hMask, BitVec.and_zero]
  have hNat := congrArg BitVec.toNat hLow
  rw [BitVec.toNat_and] at hNat
  have hMod : addr.toNat &&& 15 = addr.toNat % 16 :=
    Nat.and_two_pow_sub_one_eq_mod addr.toNat 4
  rw [← hMod]
  exact hNat

------------------------------------------------------------
-- The Loop
------------------------------------------------------------

variable {T : Type}

theorem clearLoop_self
    (stop : BitVec 64) (fuel : Nat) (m : ShadowDir T) :
    clearLoop stop fuel m stop = Except.ok (m, []) := by
  cases fuel with
  | zero => exact if_pos rfl
  | succ fuel => exact if_pos rfl

theorem clearLoop_succ
    {start stop : BitVec 64}
    (hNe : start ≠ stop) (fuel : Nat) (m : ShadowDir T) :
    clearLoop stop (fuel + 1) m start =
      (m.erase (addrToKey start) >>= fun m =>
        clearLoop stop fuel m
          (start + BitVec.ofNat 64 MAX_GRAIN_SIZE) >>= fun r =>
            Except.ok (r.1, addrToKey start :: r.2)) :=
  if_neg hNe

/- The loop from an aligned address clears the range. -/
theorem clearLoop_of_aligned
    {stop : BitVec 64}
    (hStop : stop.toNat ≤ 2 ^ 48)
    (n : Nat) (m : ShadowDir T) (start : BitVec 64)
    (hWf : m.WellFormed)
    (hStart : start.toNat % 16 = 0)
    (hLength : start.toNat + 16 * n = stop.toNat) :
    ∃ m' keys, clearLoop stop n m start =
        Except.ok (m', keys) ∧
      m'.WellFormed ∧ Cleared m m' start stop keys := by
  induction n generalizing m start with
  | zero =>
      obtain rfl : start = stop :=
        BitVec.eq_of_toNat_eq (by omega)
      refine ⟨m, [], clearLoop_self start 0 m, hWf, ?_,
        fun _ _ => rfl, ?_⟩
      · intro key hMeets
        have := hMeets.1
        have := hMeets.2
        omega
      · intro key hKey
        cases hKey
  | succ n ih =>
      have hNe : start ≠ stop := by
        intro hEq
        rw [hEq] at hLength
        omega
      have hKeyNat := addrToKey_toNat start
      have hSpace : InSpace (addrToKey start) :=
        inSpace_addrToKey (by omega)
      rcases ShadowDir.erase_spec hWf hSpace with
        ⟨m₁, hErase, hWf₁, hMap₁⟩
      have hNextNat := add_maxGrainSize_toNat start
      rw [Nat.mod_eq_of_lt (by omega)] at hNextNat
      rcases ih m₁ (start + BitVec.ofNat 64 MAX_GRAIN_SIZE)
        hWf₁ (by omega) (by omega) with
        ⟨m', keys, hLoop, hWf', hCleared⟩
      have hMeets : ∀ key, Meets start stop key ↔
          key = addrToKey start ∨
            Meets (start + BitVec.ofNat 64 MAX_GRAIN_SIZE)
              stop key := by
        intro key
        unfold Meets
        rw [hNextNat, ← BitVec.toNat_inj, hKeyNat]
        omega
      refine ⟨m', addrToKey start :: keys, ?_, hWf', ?_, ?_, ?_⟩
      · rw [clearLoop_succ hNe, hErase, ok_bind, hLoop]
        rfl
      · intro key hKey
        by_cases hLater :
            Meets (start + BitVec.ofNat 64 MAX_GRAIN_SIZE)
              stop key
        · exact hCleared.cleared key hLater
        · have hFirst : key = addrToKey start :=
            ((hMeets key).mp hKey).resolve_right hLater
          rw [hCleared.kept key hLater, hMap₁, hFirst,
            Function.update_self]
      · intro key hKey
        have hNot := (hMeets key).not.mp hKey
        rw [not_or] at hNot
        rw [hCleared.kept key hNot.2, hMap₁,
          Function.update_of_ne hNot.1]
      · intro key hKey
        rcases List.mem_cons.mp hKey with rfl | hLater
        · exact (hMeets _).mpr (Or.inl rfl)
        · exact (hMeets key).mpr
            (Or.inr (hCleared.keys key hLater))

/- From another address the loop never comes to its end. -/
theorem clearLoop_of_not_aligned
    {stop start : BitVec 64} {fuel : Nat} {m : ShadowDir T}
    {r : ShadowDir T × List (BitVec 64)}
    (hStop : stop.toNat % 16 = 0)
    (hStart : start.toNat % 16 ≠ 0) :
    clearLoop stop fuel m start ≠ Except.ok r := by
  induction fuel generalizing m start r with
  | zero =>
      have hNe : start ≠ stop := by
        intro hEq
        rw [hEq] at hStart
        exact hStart hStop
      intro hRun
      unfold clearLoop at hRun
      rw [if_neg hNe] at hRun
      cases hRun
  | succ fuel ih =>
      have hNe : start ≠ stop := by
        intro hEq
        rw [hEq] at hStart
        exact hStart hStop
      intro hRun
      rw [clearLoop_succ hNe] at hRun
      cases hErase : m.erase (addrToKey start) with
      | error e =>
          rw [hErase] at hRun
          cases hRun
      | ok m₁ =>
          rw [hErase, ok_bind] at hRun
          cases hLoop : clearLoop stop fuel m₁
              (start + BitVec.ofNat 64 MAX_GRAIN_SIZE) with
          | error e =>
              rw [hLoop] at hRun
              cases hRun
          | ok r₁ =>
              apply ih _ hLoop
              rw [add_maxGrainSize_toNat]
              omega

/- A range that leaves the directory is not cleared. -/
theorem clearLoop_of_not_inSpace
    {stop start : BitVec 64} {fuel : Nat} {m : ShadowDir T}
    {r : ShadowDir T × List (BitVec 64)}
    (hStop : 2 ^ 48 < stop.toNat)
    (hStart : start.toNat % 16 = 0)
    (hLt : start.toNat < stop.toNat) :
    clearLoop stop fuel m start ≠ Except.ok r := by
  have hNe : start ≠ stop := by
    intro hEq
    rw [hEq] at hLt
    omega
  induction fuel generalizing m start r with
  | zero =>
      intro hRun
      unfold clearLoop at hRun
      rw [if_neg hNe] at hRun
      cases hRun
  | succ fuel ih =>
      intro hRun
      rw [clearLoop_succ hNe] at hRun
      by_cases hIn : start.toNat < 2 ^ 48
      · cases hErase : m.erase (addrToKey start) with
        | error e =>
            rw [hErase] at hRun
            cases hRun
        | ok m₁ =>
            rw [hErase, ok_bind] at hRun
            have hNextNat := add_maxGrainSize_toNat start
            rw [Nat.mod_eq_of_lt (by omega)] at hNextNat
            cases hLoop : clearLoop stop fuel m₁
                (start + BitVec.ofNat 64 MAX_GRAIN_SIZE) with
            | error e =>
                rw [hLoop] at hRun
                cases hRun
            | ok r₁ =>
                apply ih (by omega) (by omega) _ hLoop
                intro hEq
                rw [← hEq] at hStop
                omega
      · have hOut : ¬ InSpace (addrToKey start) := by
          unfold InSpace
          rw [addrToKey_toNat]
          omega
        rw [ShadowDir.erase_of_not_inSpace hOut] at hRun
        cases hRun

------------------------------------------------------------
-- When a Range Is Cleared
------------------------------------------------------------

/-
  For a range that the checks admit, the call returns and
  clears the range if and only if the start is aligned, too,
  and the range lies below the end of the directory.
-/
theorem clears_iff_aligned
    (m : ShadowDir T) (start stop : BitVec 64)
    (hWf : m.WellFormed)
    (hAligned : alignByNextMaxGrainSize stop = stop)
    (hLt : start < stop) :
    (∃ fuel m' keys,
      clearShadowMemory fuel m start stop =
          Except.ok (m', keys) ∧
        Cleared m m' start stop keys) ↔
      start.toNat % 16 = 0 ∧ stop.toNat ≤ 2 ^ 48 := by
  have hStop := toNat_mod_of_aligned hAligned
  have hLtNat : start.toNat < stop.toNat := hLt
  have hCheck : ∀ fuel, clearShadowMemory fuel m start stop =
      clearLoop stop fuel m start := by
    intro fuel
    unfold clearShadowMemory
    rw [check_of hAligned, ok_bind, check_of hLt, ok_bind]
  constructor
  · rintro ⟨fuel, m', keys, hRun, -⟩
    rw [hCheck] at hRun
    by_contra hNot
    by_cases hStart : start.toNat % 16 = 0
    · exact clearLoop_of_not_inSpace (by omega) hStart hLtNat
        hRun
    · exact clearLoop_of_not_aligned hStop hStart hRun
  · rintro ⟨hStart, hSpace⟩
    rcases clearLoop_of_aligned hSpace
      ((stop.toNat - start.toNat) / 16) m start hWf hStart
      (by omega) with ⟨m', keys, hRun, -, hCleared⟩
    exact ⟨_, m', keys, (hCheck _).trans hRun, hCleared⟩

/- Entries for two blocks of a range and the one behind it. -/
def threeBlocks : List (Op Nat) :=
  [.insert 0x601060 5, .insert 0x601078 6, .insert 0x601080 7]

/- The first two entries are cleared, and the third is kept. -/
theorem clears_two_of_three :
    ∃ m fuel m' keys,
      run ShadowDir.new threeBlocks =
        Except.ok (m, [some 5, some 6, some 7]) ∧
        clearShadowMemory fuel m 0x601060 0x601080 =
          Except.ok (m', keys) ∧
        Cleared m m' 0x601060 0x601080 keys ∧
        m.toMap 0x60107 = some 6 ∧ m'.toMap 0x60107 = none ∧
        m'.toMap 0x60108 = some 7 := by
  have hSpace : ∀ op ∈ threeBlocks,
      op.addr.toNat < 2 ^ 48 := by decide
  rcases represents_new.run hSpace with ⟨m, hRun, hWf, hMap⟩
  rcases (clears_iff_aligned m 0x601060 0x601080 hWf
    (by decide) (by decide)).mpr (by decide) with
    ⟨fuel, m', keys, hClear, hCleared⟩
  have hInside : Meets 0x601060 0x601080 0x60107 := by
    unfold Meets
    decide
  have hBehind : ¬ Meets 0x601060 0x601080 0x60108 := by
    unfold Meets
    decide
  refine ⟨m, fuel, m', keys, hRun, hClear, hCleared, ?_,
    hCleared.cleared _ hInside, ?_⟩
  · rw [hMap]
    rfl
  · rw [hCleared.kept _ hBehind, hMap]
    rfl

/-
  A range that starts in the middle of a block: the addresses
  of the loop step over its end.
-/
theorem clear_never_ends :
    alignByNextMaxGrainSize 0x601080 = 0x601080 ∧
      (0x601068 : BitVec 64) < 0x601080 ∧
      ¬ ∃ fuel m' keys,
        clearShadowMemory fuel (ShadowDir.new : ShadowDir Nat)
          0x601068 0x601080 = Except.ok (m', keys) := by
  refine ⟨by decide, by decide, ?_⟩
  rintro ⟨fuel, m', keys, hRun⟩
  unfold clearShadowMemory at hRun
  rw [check_of (by decide), ok_bind, check_of (by decide),
    ok_bind] at hRun
  exact clearLoop_of_not_aligned (by decide) (by decide) hRun

end ShadowTable

end PRacer
