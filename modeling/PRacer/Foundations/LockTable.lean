import Mathlib.Data.ZMod.Basic

/-
  Locks, the workers that hold them and the workers that wait
  for them, and locks on a ring that are taken in its order.

  Main declarations:
    * `LockTable` and its operations
    * `LockTable.Deadlocked`
    * `LockTable.Deadlocked.handsOn_all`
-/

------------------------------------------------------------
-- Lock Tables
------------------------------------------------------------

namespace PRacer

namespace Foundations

/- Who holds each lock, and what each worker waits for. -/
structure LockTable (Lock Worker : Type*) where
  owner : Lock → Option Worker
  wants : Worker → Option Lock

namespace LockTable

variable {Lock Worker : Type*}
variable {t : LockTable Lock Worker}

/- No lock is held, and nobody waits. -/
def free : LockTable Lock Worker where
  owner _ := none
  wants _ := none

/- The worker begins to wait for a lock. -/
@[simps]
def request [DecidableEq Worker]
    (t : LockTable Lock Worker) (w : Worker) (x : Lock) :
    LockTable Lock Worker :=
  { t with wants := Function.update t.wants w (some x) }

/- The worker gets the lock, and waits no more. -/
@[simps]
def acquire [DecidableEq Lock] [DecidableEq Worker]
    (t : LockTable Lock Worker) (w : Worker) (x : Lock) :
    LockTable Lock Worker where
  owner := Function.update t.owner x (some w)
  wants := Function.update t.wants w none

/- The lock becomes free. -/
@[simps]
def release [DecidableEq Lock]
    (t : LockTable Lock Worker) (x : Lock) :
    LockTable Lock Worker :=
  { t with owner := Function.update t.owner x none }

------------------------------------------------------------
-- Waiting in a Ring
------------------------------------------------------------

/-
  The first worker holds a lock and waits for one that the
  second holds.
-/
def WaitsFor
    (t : LockTable Lock Worker) (w w' : Worker) : Prop :=
  ∃ x y, t.owner x = some w ∧ t.wants w = some y ∧
    t.owner y = some w'

/- Some workers wait for each other, all around. -/
def Deadlocked (t : LockTable Lock Worker) : Prop :=
  ∃ S : Set Worker, S.Nonempty ∧
    ∀ w ∈ S, ∃ w' ∈ S, t.WaitsFor w w'

/- The holder of the first lock waits for the second. -/
def HandsOn
    (t : LockTable Lock Worker) (x y : Lock) : Prop :=
  ∃ w, t.owner x = some w ∧ t.wants w = some y

/-
  Where a worker that holds a lock waits for the next one
  only, the locks of a deadlock are closed under the next.
-/
theorem Deadlocked.exists_closed
    {next : Lock → Lock}
    (hNext : ∀ x y, t.HandsOn x y → y = next x)
    (hDead : t.Deadlocked) :
    ∃ T : Set Lock, T.Nonempty ∧
      ∀ x ∈ T, t.HandsOn x (next x) ∧ next x ∈ T := by
  rcases hDead with ⟨S, ⟨w, hMem⟩, hWaits⟩
  refine ⟨{x | ∃ w ∈ S, t.owner x = some w}, ?_, ?_⟩
  · rcases hWaits w hMem with ⟨-, -, x, -, hOwner, -, -⟩
    exact ⟨x, w, hMem, hOwner⟩
  · intro x hX
    rcases hX with ⟨w, hMem, hOwner⟩
    rcases hWaits w hMem with
      ⟨w', hMem', -, y, -, hWants, hOwner'⟩
    have hHands : t.HandsOn x y := ⟨w, hOwner, hWants⟩
    have hEq := hNext x y hHands
    subst hEq
    exact ⟨hHands, w', hMem', hOwner'⟩

/- From any element of a ring, successors lead everywhere. -/
theorem mem_of_closed_succ
    {K : ℕ} [NeZero K] {T : Set (ZMod K)}
    (hNonempty : T.Nonempty)
    (hSucc : ∀ x ∈ T, x + 1 ∈ T) (y : ZMod K) :
    y ∈ T := by
  rcases hNonempty with ⟨x, hX⟩
  have hSteps : ∀ n : ℕ, x + n ∈ T := by
    intro n
    induction n with
    | zero => simpa using hX
    | succ n ih =>
        rw [Nat.cast_succ, ← add_assoc]
        exact hSucc _ ih
  have hY := hSteps (y - x).val
  rw [ZMod.natCast_val, ZMod.cast_id,
    add_sub_cancel] at hY
  exact hY

/-
  Locks on a ring: if a worker that holds one waits for its
  successor only, then a deadlock needs all of them.
-/
theorem Deadlocked.handsOn_all
    {K : ℕ} [NeZero K] {t : LockTable (ZMod K) Worker}
    (hNext : ∀ x y, t.HandsOn x y → y = x + 1)
    (hDead : t.Deadlocked) (x : ZMod K) :
    t.HandsOn x (x + 1) := by
  rcases hDead.exists_closed hNext with
    ⟨T, hNonempty, hClosed⟩
  have hMem := mem_of_closed_succ hNonempty
    (fun y hY => (hClosed y hY).2) x
  exact (hClosed x hMem).1

end LockTable

end Foundations

end PRacer
