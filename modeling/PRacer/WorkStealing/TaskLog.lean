import PRacer.Foundations.Tally
import PRacer.WorkStealing.TaskTips

/-
  What the tasks have executed: every strand once, and none
  before one that it depends on.

  Main declarations:
    * `Tasks.Origin`, `Tasks.Step.origin`
    * `Tasks.Logged`, `Tasks.Logged.step`
    * `Tasks.Tallied`, `Tasks.Tallied.step`
-/

------------------------------------------------------------
-- Where Tips Come From
------------------------------------------------------------

namespace PRacer

open Foundations

namespace WorkStealing

namespace Rest

/- What is left starts at the path. -/
theorem strands_cons
    {r : Rest} (p : Path) (pending : Option Path)
    (hGone : r ≠ .gone) :
    ∃ ps, r.strands p pending = p :: ps := by
  cases r with
  | code c => cases c <;> exact ⟨_, rfl⟩
  | gone => exact absurd rfl hGone
  | _ => exact ⟨_, rfl⟩

end Rest

/- The next strand of a task stands at its path. -/
theorem Task.Ok.path_of_ready
    {main : Code} {x : Task}
    (hOk : x.Ok main)
    (hReady : x.status = .ready)
    (hGone : x.rest ≠ .gone) :
    (walkOf main)[x.leaf]? = some x.path := by
  have hSegment := hOk.segment
  rcases Rest.strands_cons x.path x.pending hGone with
    ⟨ps, hCons⟩
  rw [Task.todo_of_ready hReady, hCons] at hSegment
  exact hSegment.head

namespace Tasks

variable {main : Code} {t t' : Tasks} {a b i k : Nat}
variable {x x' y : Task} {log : List Nat} {p : Path}
variable {z m : Tip}

/-
  The second tip comes from the first one.  A task that
  still runs on its path has executed `k` strands more.
-/
structure Origin
    (t t' : Tasks) (m z : Tip) (k : Nat) : Prop where
  tip : t.IsTip m
  path : m.path <+: z.path
  here :
    m.path = z.path → m.sync = false →
      z.sync = false ∧
        ∀ x', t'.get z.owner = some x' →
          ∃ x, t.get m.owner = some x ∧
            x.leaf + k ≤ x'.leaf

namespace Origin

/- A tip of a task that does nothing. -/
theorem same
    (hTip : t.IsTip z)
    (hSame : t'.get z.owner = t.get z.owner) :
    Origin t t' z z 0 where
  tip := hTip
  path := List.prefix_refl _
  here _ hSync :=
    ⟨hSync, fun x' hGet =>
      ⟨x', hSame.symm.trans hGet, Nat.le_refl _⟩⟩

/- A tip behind a sync. -/
theorem of_sync
    (hTip : t.IsTip m)
    (hSync : m.sync = true)
    (hPath : m.path <+: z.path) :
    Origin t t' m z 0 where
  tip := hTip
  path := hPath
  here _ hFalse := by
    rw [hSync] at hFalse
    cases hFalse

/- A tip farther down. -/
theorem below
    (hTip : t.IsTip m)
    (hPath : m.path <+: z.path)
    (hNe : m.path ≠ z.path)
    (k : Nat) :
    Origin t t' m z k where
  tip := hTip
  path := hPath
  here hEq := absurd hEq hNe

/- The tip of the task that executed a strand. -/
theorem run
    (x' : Task)
    (hGet : t.get a = some x)
    (hRuns : x.Runs)
    (hSync : z.sync = false)
    (hPath : z.path = x.path)
    (hGet' : t'.get z.owner = some x')
    (hLeaf : x.leaf + k ≤ x'.leaf) :
    Origin t t' ⟨a, false, x.path⟩ z k where
  tip := IsTip.run hGet hRuns
  path := hPath ▸ List.prefix_refl _
  here _ _ := by
    refine ⟨hSync, fun y hy => ⟨x, hGet, ?_⟩⟩
    obtain rfl := Option.some.inj (hGet'.symm.trans hy)
    exact hLeaf

end Origin

/-
  A step executes the next strand of a task, or none, and
  every tip comes from one that there was.
-/
def Noted (t t' : Tasks) : Prop :=
  (t'.log = t.log ∧
    ∀ z, t'.IsTip z → ∃ m, Origin t t' m z 0) ∨
  ∃ a x, t.get a = some x ∧ x.status = .ready ∧
    x.rest ≠ .gone ∧ t'.log = t.log ++ [x.leaf] ∧
    ∀ z, t'.IsTip z → ∃ m k, Origin t t' m z k ∧
      (m = ⟨a, false, x.path⟩ → 0 < k)

namespace Noted

/- Tips of other tasks. -/
private theorem other
    (hOwner : z.owner ≠ a)
    (hTip : t.IsTip z)
    (hSame : t'.get z.owner = t.get z.owner) :
    ∃ m k, Origin t t' m z k ∧
      (m = ⟨a, false, p⟩ → 0 < k) := by
  refine ⟨z, 0, Origin.same hTip hSame, ?_⟩
  rintro rfl
  exact absurd rfl hOwner

/- A strand is executed, and its task goes on. -/
theorem change
    (hGet : t.get a = some x)
    (hReady : x.status = .ready)
    (hGone : x.rest ≠ .gone)
    (hTip : ∀ z, z.owner = a → x'.HasTip z →
      z.sync = false ∧ z.path = x.path ∨
        ∃ q, x.pending = some q ∧ q <+: z.path)
    (hLeaf : x'.leaf = x.leaf + 1) :
    Noted t (t.change a x' [x.leaf]) := by
  refine Or.inr ⟨a, x, hGet, hReady, hGone, rfl, ?_⟩
  intro z hz
  rcases hz.of_change hGet with ⟨hOwner, hNew⟩ |
    ⟨hOwner, hOld⟩
  · rcases hTip z hOwner hNew with ⟨hSync, hPath⟩ |
      ⟨q, hPending, hPath⟩
    · refine ⟨_, 1, Origin.run x' hGet
        (Task.runs_of_ready hReady hGone) hSync hPath ?_
        (Nat.le_of_eq hLeaf.symm), fun _ => Nat.one_pos⟩
      rw [get_change hGet, if_pos hOwner]
    · refine ⟨⟨a, true, q⟩, 0, Origin.of_sync
        (IsTip.sync hGet hPending) rfl hPath, ?_⟩
      intro hEq
      cases hEq
  · refine other hOwner hOld ?_
    rw [get_change hGet, if_neg hOwner]

theorem call
    {body : Code} {next : Rest}
    (hGet : t.get a = some x)
    (hReady : x.status = .ready)
    (hCalls : x.rest.Calls body next) :
    Noted t (t.branch a (x.caller t.heap.next body next)
      (Task.fresh (.code body) (x.leaf + 1) x.path a)
      [x.leaf]) := by
  have hGone := hCalls.not_gone
  refine Or.inr ⟨a, x, hGet, hReady, hGone, rfl, ?_⟩
  intro z hz
  rcases hz.of_branch hGet with ⟨hOwner, hNew⟩ |
    ⟨hOwner, hNew⟩ | ⟨hOwner, hOld⟩
  · rcases hNew with ⟨hSync, -, hPath⟩ | ⟨-, hNone⟩
    · refine ⟨_, 1, Origin.run
        (Task.fresh (.code body) (x.leaf + 1) x.path a)
        hGet (Task.runs_of_ready hReady hGone) hSync hPath ?_
        (Nat.le_refl _), fun _ => Nat.one_pos⟩
      rw [get_branch hGet, if_pos hOwner]
    · cases hNone
  · rcases hNew with ⟨-, ⟨-, hStatus⟩, -⟩ | ⟨hSync, hSome⟩
    · simp [Task.caller] at hStatus
    · refine ⟨⟨a, true, z.path⟩, 0, Origin.of_sync
        (IsTip.sync hGet hSome) rfl (List.prefix_refl _), ?_⟩
      intro hEq
      cases hEq
  · refine other hOwner hOld ?_
    rcases hOld with ⟨u, hu, -⟩
    rw [get_branch hGet, if_neg hOwner,
      if_neg (Nat.ne_of_lt (Heap.lt_next hu))]

theorem spawn
    {body rest : Code}
    (hGet : t.get a = some x)
    (hSpawning : x.status = .spawning)
    (hRest : x.rest = .code (.spawn body rest)) :
    Noted t (t.branch a (x.continuation body rest)
      (Task.fresh (.enter body) x.leaf (x.path ++ [.child]) a)
      []) := by
  have hRun : t.IsTip ⟨a, false, x.path⟩ :=
    IsTip.run hGet ⟨by simp [hRest], Or.inr hSpawning⟩
  refine Or.inl ⟨List.append_nil _, fun z hz => ?_⟩
  -- A branch of the path is not the path.
  have hBelow : ∀ (t' : Tasks) (y : Branch),
      z.path = x.path ++ [y] →
      Origin t t' ⟨a, false, x.path⟩ z 0 := by
    intro t' y hPath
    refine Origin.below hRun ?_ ?_ 0
    · rw [hPath]
      exact List.prefix_append _ _
    · simp [hPath]
  rcases hz.of_branch hGet with ⟨-, hNew⟩ | ⟨-, hNew⟩ |
    ⟨hOwner, hOld⟩
  · rcases hNew with ⟨-, -, hPath⟩ | ⟨-, hNone⟩
    · exact ⟨_, hBelow _ .child hPath⟩
    · cases hNone
  · rcases hNew with ⟨-, -, hPath⟩ | ⟨-, hSome⟩
    · exact ⟨_, hBelow _ .cont hPath⟩
    · have hPath : x.syncPath = z.path := Option.some.inj hSome
      cases hPending : x.pending with
      | none =>
          simp only [Task.syncPath, hPending] at hPath
          exact ⟨_, hBelow _ .sync hPath.symm⟩
      | some q =>
          simp only [Task.syncPath, hPending] at hPath
          exact ⟨_, Origin.of_sync (IsTip.sync hGet hPending)
            rfl (hPath ▸ List.prefix_refl _)⟩
  · refine ⟨z, Origin.same hOld ?_⟩
    rcases hOld with ⟨u, hu, -⟩
    rw [get_branch hGet, if_neg hOwner,
      if_neg (Nat.ne_of_lt (Heap.lt_next hu))]

theorem wake
    (hGet : t.get a = some x)
    (hPending : x.pending = some x.path) :
    Noted t (t.change a x.woken []) := by
  refine Or.inl ⟨List.append_nil _, fun z hz => ?_⟩
  rcases hz.of_change hGet with ⟨-, hNew⟩ | ⟨hOwner, hOld⟩
  · rcases hNew with ⟨-, -, hPath⟩ | ⟨-, hNone⟩
    · exact ⟨_, Origin.of_sync (IsTip.sync hGet hPending) rfl
        (hPath ▸ List.prefix_refl _)⟩
    · cases hNone
  · refine ⟨z, Origin.same hOld ?_⟩
    rw [get_change hGet, if_neg hOwner]

theorem ret
    (hTree : Tree main t)
    (hGet : t.get a = some x)
    (hReady : x.status = .ready)
    (hRest : x.rest = .ret) :
    Noted t (t.ret a x) := by
  have hGone : x.rest ≠ .gone := by simp [hRest]
  refine Or.inr ⟨a, x, hGet, hReady, hGone, rfl, ?_⟩
  rintro z ⟨u, hu, hTip⟩
  cases hParent : x.parent with
  | none =>
      have hRet := get_ret_of_root (t := t) (a := a) hParent
      rw [hRet] at hu
      split at hu
      · cases hu
      · next hOwner =>
          refine other hOwner ⟨u, hu, hTip⟩ ?_
          rw [hRet, if_neg hOwner]
  | some b =>
      rcases hTree.child a x b hGet hParent with
        ⟨y, hy, hChild⟩
      have hOk := hTree.ok a x hGet
      have hHelper : x.rest.isHelper = false := by
        rw [hRest]
        rfl
      have hPath : x.path = y.path := by
        have hLast := hChild.last hHelper
        rw [hRest] at hLast
        exact hLast
      have hLeaf : x.leaf + 1 = y.leaf := by
        have hStop := hChild.stop hHelper
        rw [hOk.length_todo (by simp [hReady]), hRest] at hStop
        exact hStop
      have hRet := get_ret_of_parent (t := t) hParent hy
        (Nat.ne_of_lt hChild.lt)
      have hu' := hu
      rw [hRet] at hu
      split at hu
      · next hOwner =>
          obtain rfl := Option.some.inj hu
          rcases hTip with ⟨hSync, -, hTip⟩ | ⟨-, hSome⟩
          · exact ⟨_, 1, Origin.run _ hGet
              (Task.runs_of_ready hReady hGone) hSync
              (hTip.trans hPath.symm) hu'
              (Nat.le_of_eq hLeaf), fun _ => Nat.one_pos⟩
          · refine ⟨⟨b, true, z.path⟩, 0, Origin.of_sync
              (IsTip.sync hy hSome) rfl
              (List.prefix_refl _), ?_⟩
            intro hEq
            cases hEq
      · next hOwnerB =>
          split at hu
          · cases hu
          · next hOwner =>
              refine other hOwner ⟨u, hu, hTip⟩ ?_
              rw [hRet, if_neg hOwnerB, if_neg hOwner]

theorem join (a : Nat) : Noted t (t.join a) := by
  refine Or.inl ⟨rfl, ?_⟩
  rintro z ⟨u, hu, hTip⟩
  have hJoin := get_join (t := t) a z.owner
  rw [hJoin] at hu
  split at hu
  · cases hu
  · next hOwner =>
      refine ⟨z, Origin.same ⟨u, hu, hTip⟩ ?_⟩
      rw [hJoin, if_neg hOwner]

end Noted

theorem Step.noted
    (hTree : Tree main t)
    (hStep : Step t t') :
    Noted t t' := by
  cases hStep with
  | call hGet hReady hCalls => exact Noted.call hGet hReady hCalls
  | startSpawn hGet hReady hRest =>
      refine Noted.change hGet hReady (by simp [hRest]) ?_ rfl
      intro z _ hTip
      rcases hTip with ⟨hSync, -, hPath⟩ | ⟨-, hSome⟩
      · exact Or.inl ⟨hSync, hPath⟩
      · exact Or.inr ⟨_, hSome, List.prefix_refl _⟩
  | spawn hGet hSpawning hRest =>
      exact Noted.spawn hGet hSpawning hRest
  | @sync a x next hGet hReady hSyncs hChildless =>
      refine Noted.change hGet hReady hSyncs.not_gone ?_ rfl
      intro z _ hTip
      rcases hTip with ⟨hSync, -, hPath⟩ | ⟨-, hNone⟩
      · cases hPending : x.pending with
        | none =>
            simp only [Task.synced, hPending] at hPath
            exact Or.inl ⟨hSync, hPath⟩
        | some q =>
            simp only [Task.synced, hPending] at hPath
            exact Or.inr ⟨q, rfl, hPath ▸ List.prefix_refl _⟩
      · cases hNone
  | wait hGet hReady hSyncs hPending =>
      refine Noted.change hGet hReady hSyncs.not_gone ?_ rfl
      intro z _ hTip
      rcases hTip with ⟨-, ⟨-, hStatus⟩, -⟩ | ⟨-, hSome⟩
      · simp [Task.waiter] at hStatus
      · exact Or.inr ⟨_, hSome, List.prefix_refl _⟩
  | @wake a x hGet hWaiting hChildless =>
      exact Noted.wake hGet ((hTree.ok a x hGet).waits hWaiting)
  | ret hGet hReady hRest =>
      exact Noted.ret hTree hGet hReady hRest
  | leave hGet hReady hRest =>
      refine Noted.change hGet hReady (by simp [hRest]) ?_ rfl
      intro z _ hTip
      rcases hTip with ⟨-, ⟨hRuns, -⟩, -⟩ | ⟨-, hSome⟩
      · exact absurd rfl hRuns
      · exact Or.inr ⟨_, hSome, List.prefix_refl _⟩
  | join hGet hReady hGone => exact Noted.join _

------------------------------------------------------------
-- The Order of the Strands
------------------------------------------------------------

/- Strand `i` was executed before what is at the tip. -/
structure Passed
    (t : Tasks) (i : Nat) (p : Path) (z : Tip) : Prop where
  notAfter : Path.NotAfter p z.path
  here :
    p = z.path →
      z.sync = false ∧
        ∀ x, t.get z.owner = some x → i < x.leaf

/- No strand was executed after one that depends on it. -/
structure Logged (main : Code) (t : Tasks) : Prop where
  passed :
    ∀ i ∈ t.log, ∃ p, (walkOf main)[i]? = some p ∧
      ∀ z, t.IsTip z → Passed t i p z
  ordered :
    t.log.Pairwise fun i j => ¬ main.spTree.Precedes j i

theorem Passed.origin
    (h : Passed t i p m)
    (hOrigin : Origin t t' m z k) :
    Passed t' i p z where
  notAfter := h.notAfter.mono hOrigin.path
  here hEq := by
    by_cases hSame : m.path = z.path
    · rcases h.here (hEq.trans hSame.symm) with ⟨hSync, hLt⟩
      rcases hOrigin.here hSame hSync with ⟨hSync', hLeaf⟩
      refine ⟨hSync', fun x' hGet' => ?_⟩
      rcases hLeaf x' hGet' with ⟨x, hGet, hLe⟩
      have hLt' := hLt x hGet
      omega
    · exact absurd hEq
        (h.notAfter.ne_of_prefix hOrigin.path hSame)

/- The strand that a step executes. -/
theorem Passed.new
    (hApart : t.Apart)
    (hGet : t.get a = some x)
    (hRuns : x.Runs)
    (hOrigin : Origin t t' m z k)
    (hMove : m = ⟨a, false, x.path⟩ → 0 < k) :
    Passed t' x.leaf x.path z := by
  by_cases hm : m = ⟨a, false, x.path⟩
  · subst hm
    refine ⟨Or.inr (Or.inl hOrigin.path), fun hEq => ?_⟩
    rcases hOrigin.here hEq rfl with ⟨hSync, hLeaf⟩
    refine ⟨hSync, fun x' hGet' => ?_⟩
    rcases hLeaf x' hGet' with ⟨y, hy, hLe⟩
    obtain rfl := Option.some.inj (hGet.symm.trans hy)
    have hPos := hMove rfl
    omega
  · have hRelated := hApart _ m (IsTip.run hGet hRuns)
      hOrigin.tip (Ne.symm hm)
    have hNe : x.path ≠ m.path := by
      intro hEq
      exact hRelated.not_prefix (hEq ▸ List.prefix_refl _)
    have hOld : Passed t x.leaf x.path m := by
      refine ⟨?_, fun hEq => absurd hEq hNe⟩
      rcases hRelated with h | ⟨-, h, -⟩ | ⟨hFalse, -, -⟩
      · exact Or.inl h
      · exact Or.inr (Or.inr h)
      · cases hFalse
    exact hOld.origin hOrigin

/- A strand whose tip was passed does not depend on it. -/
theorem Passed.not_precedes
    (hPassed : Passed t i p z)
    (hGet : t.get z.owner = some x)
    (hPath : (walkOf main)[i]? = some p)
    (hTip : (walkOf main)[x.leaf]? = some z.path) :
    ¬ main.spTree.Precedes x.leaf i := by
  rintro ⟨hLt, hSeries⟩
  have hHolds := (Code.matches_walk main []).holds x.leaf i
    z.path p hLt hTip hPath
  rw [hSeries] at hHolds
  by_cases hEq : p = z.path
  · exact absurd ((hPassed.here hEq).2 x hGet)
      (Nat.lt_asymm hLt)
  · exact hPassed.notAfter.not_seriesLe hEq hHolds

theorem Logged.step
    (hTree : Tree main t)
    (hApart : t.Apart)
    (hLogged : Logged main t)
    (hNoted : Noted t t') :
    Logged main t' := by
  rcases hNoted with ⟨hLog, hTips⟩ |
    ⟨a, x, hGet, hReady, hGone, hLog, hTips⟩
  · refine ⟨?_, by rw [hLog]; exact hLogged.ordered⟩
    intro i hi
    rw [hLog] at hi
    rcases hLogged.passed i hi with ⟨p, hPath, hPassed⟩
    refine ⟨p, hPath, fun z hz => ?_⟩
    rcases hTips z hz with ⟨m, hOrigin⟩
    exact (hPassed m hOrigin.tip).origin hOrigin
  · have hRuns := Task.runs_of_ready hReady hGone
    have hLeaf := (hTree.ok a x hGet).path_of_ready hReady
      hGone
    refine ⟨?_, ?_⟩
    · intro i hi
      rw [hLog, List.mem_append, List.mem_singleton] at hi
      rcases hi with hi | rfl
      · rcases hLogged.passed i hi with ⟨p, hPath, hPassed⟩
        refine ⟨p, hPath, fun z hz => ?_⟩
        rcases hTips z hz with ⟨m, k, hOrigin, -⟩
        exact (hPassed m hOrigin.tip).origin hOrigin
      · refine ⟨x.path, hLeaf, fun z hz => ?_⟩
        rcases hTips z hz with ⟨m, k, hOrigin, hMove⟩
        exact Passed.new hApart hGet hRuns hOrigin hMove
    · rw [hLog, List.pairwise_append]
      refine ⟨hLogged.ordered, List.pairwise_singleton _ _, ?_⟩
      intro i hi j hj
      obtain rfl := List.mem_singleton.mp hj
      rcases hLogged.passed i hi with ⟨p, hPath, hPassed⟩
      exact (hPassed _ (IsTip.run hGet hRuns)).not_precedes
        hGet hPath hLeaf

theorem Logged.initial (main : Code) :
    Logged main (Tasks.initial main) where
  passed i hi := by cases hi
  ordered := List.Pairwise.nil

------------------------------------------------------------
-- Every Strand Once
------------------------------------------------------------

/- Whether a number is one of `n` from `lo` on. -/
def within (lo n i : Nat) : Nat :=
  if lo ≤ i ∧ i < lo + n then 1 else 0

theorem within_add (lo m n i : Nat) :
    within lo (m + n) i =
      within lo m i + within (lo + m) n i := by
  unfold within
  split_ifs <;> omega

theorem count_singleton (l i : Nat) :
    [l].count i = within l 1 i := by
  unfold within
  by_cases h : l = i
  · simp [h]
  · have hNot : ¬ (l ≤ i ∧ i < l + 1) := by omega
    rw [if_neg hNot]
    exact List.count_eq_zero.mpr (by simpa using Ne.symm h)

/- Whether a task still has to execute a strand. -/
def owes (i : Nat) (x : Task) : Nat :=
  within x.leaf x.todo.length i

/-
  Every strand was executed once, or one task still has to
  execute it.
-/
def Tallied (main : Code) (t : Tasks) : Prop :=
  ∀ i, t.log.count i + t.heap.total (owes i) =
    within 0 (walkOf main).length i

namespace Tallied

theorem change
    (hTallied : Tallied main t)
    (hGet : t.get a = some x)
    (hOwes : ∀ i, log.count i + owes i x' = owes i x) :
    Tallied main (t.change a x' log) := by
  intro i
  have hOld := hTallied i
  have hNew := hOwes i
  have hTotal := Heap.total_modify (f := owes i) hGet
    (fun _ => x')
  unfold Tasks.change
  rw [List.count_append]
  dsimp only at hTotal ⊢
  omega

theorem branch
    (hTallied : Tallied main t)
    (hGet : t.get a = some x)
    (hOwes : ∀ i,
      log.count i + owes i x' + owes i y = owes i x) :
    Tallied main (t.branch a x' y log) := by
  intro i
  have hOld := hTallied i
  have hNew := hOwes i
  have hTotal := Heap.total_modify (f := owes i) hGet
    (fun _ => x')
  unfold Tasks.branch
  rw [List.count_append]
  dsimp only at hTotal ⊢
  rw [Heap.total_alloc]
  omega

/- A task executes one strand. -/
theorem owes_next
    (hContinues : x.Continues x')
    (hLeaf : x'.leaf = x.leaf + 1) (i : Nat) :
    [x.leaf].count i + owes i x' = owes i x := by
  have hStop := hContinues.stop
  have hLength : x.todo.length = 1 + x'.todo.length := by
    omega
  unfold owes
  rw [hLength, within_add, hLeaf, count_singleton]

/- A task leaves strands to a new one, after `k` of them. -/
theorem owes_branch
    (hLog : log.count i = within x.leaf k i)
    (hNew : y.leaf = x.leaf + k)
    (hLeaf : x'.leaf = x.leaf + k + y.todo.length)
    (hStop : x'.leaf + x'.todo.length =
      x.leaf + x.todo.length) :
    log.count i + owes i x' + owes i y = owes i x := by
  have hLength : x.todo.length =
      k + (y.todo.length + x'.todo.length) := by
    omega
  unfold owes
  rw [hLength, within_add, within_add, hLog, hNew, hLeaf]
  omega

theorem ret
    (hTree : Tree main t)
    (hTallied : Tallied main t)
    (hGet : t.get a = some x)
    (hReady : x.status = .ready)
    (hRest : x.rest = .ret) :
    Tallied main (t.ret a x) := by
  intro i
  have hOld := hTallied i
  have hOwes : owes i x = [x.leaf].count i := by
    rw [count_singleton]
    unfold owes
    rw [(hTree.ok a x hGet).length_todo (by simp [hReady]),
      hRest]
    rfl
  have hFree := Heap.total_free (f := owes i) hGet
  unfold Tasks.ret
  rw [List.count_append]
  dsimp only
  cases hParent : x.parent with
  | none =>
      dsimp only
      omega
  | some b =>
      rcases hTree.child a x b hGet hParent with
        ⟨y, hy, hChild⟩
      have hCalling := hChild.calling (by rw [hRest]; rfl)
      have hGetB : (t.heap.free a).get b = some y := by
        rw [Heap.get_free, if_neg (Nat.ne_of_lt hChild.lt)]
        exact hy
      have hSame : owes i { y with status := .ready } =
          owes i y := by
        simp [owes, Task.todo, Task.ahead, hCalling]
      have hModify := Heap.total_modify (f := owes i) hGetB
        (fun y => { y with status := .ready })
      dsimp only at hModify ⊢
      omega

theorem step
    (hTree : Tree main t)
    (hTallied : Tallied main t)
    (hStep : Step t t') :
    Tallied main t' := by
  cases hStep with
  | @call a x body next hGet hReady hCalls =>
      have hOk := hTree.ok a x hGet
      have hStop := (Task.Continues.caller hOk hReady hCalls
        t.heap.next).stop
      have hBody : (Task.fresh (.code body) (x.leaf + 1)
          x.path a).todo.length = body.spTree.size := by
        rw [Task.todo_of_ready rfl]
        exact Rest.length_strands _ (Code.Pending.none _)
      refine hTallied.branch hGet fun i => ?_
      exact owes_branch (k := 1) (count_singleton _ _) rfl
        (by rw [hBody]; rfl) hStop
  | @startSpawn a x body rest hGet hReady hRest =>
      exact hTallied.change hGet (owes_next
        (Task.Continues.spawner (hTree.ok a x hGet) hReady
          hRest) rfl)
  | @spawn a x body rest hGet hSpawning hRest =>
      have hOk := hTree.ok a x hGet
      have hStop := (Task.Continues.continuation hOk hSpawning
        hRest).stop
      have hBody : (Task.fresh (.enter body) x.leaf
          (x.path ++ [.child]) a).todo.length =
          1 + body.spTree.size + 1 := by
        rw [Task.todo_of_ready rfl]
        exact Rest.length_strands _ (Code.Pending.none _)
      refine hTallied.branch hGet fun i => ?_
      exact owes_branch (k := 0) (by simp [within])
        rfl (by rw [hBody]; rfl) hStop
  | @sync a x next hGet hReady hSyncs hChildless =>
      exact hTallied.change hGet (owes_next
        (Task.Continues.synced (hTree.ok a x hGet) hReady
          hSyncs) rfl)
  | @wait a x next hGet hReady hSyncs hPending =>
      exact hTallied.change hGet (owes_next
        (Task.Continues.waiter (hTree.ok a x hGet) hReady
          hSyncs hPending) rfl)
  | @wake a x hGet hWaiting hChildless =>
      refine hTallied.change hGet fun i => ?_
      have hTodo : x.woken.todo = x.todo := by
        simp [Task.todo, Task.ahead, Task.woken, hWaiting]
      have hOwes : owes i x.woken = owes i x := by
        unfold owes
        rw [hTodo]
        rfl
      simpa using hOwes
  | ret hGet hReady hRest =>
      exact hTallied.ret hTree hGet hReady hRest
  | @leave a x hGet hReady hRest =>
      exact hTallied.change hGet (owes_next
        (Task.Continues.left (hTree.ok a x hGet) hReady
          hRest) rfl)
  | @join a x hGet hReady hGone =>
      intro i
      have hOld := hTallied i
      have hFree := Heap.total_free (f := owes i) hGet
      have hOwes : owes i x = 0 := by
        unfold owes within
        rw [(hTree.ok a x hGet).length_todo
          (by simp [hReady]), hGone]
        exact if_neg (by simp [Rest.size])
      unfold Tasks.join
      dsimp only
      omega

theorem initial (main : Code) :
    Tallied main (Tasks.initial main) := by
  intro i
  have hAlloc := Heap.total_alloc (h := Heap.empty)
    (f := owes i) (Task.first main)
  rw [Heap.total_empty] at hAlloc
  have hFirst : owes i (Task.first main) =
      within 0 (walkOf main).length i := rfl
  unfold Tasks.initial
  simp only [List.count_nil]
  omega

/- No strand was executed twice. -/
theorem nodup
    (hTallied : Tallied main t) :
    t.log.Nodup := by
  rw [List.nodup_iff_count_le_one]
  intro i
  have hCount := hTallied i
  unfold within at hCount
  split at hCount <;> omega

/- Without tasks, every strand was executed. -/
theorem count_of_done
    (hTallied : Tallied main t)
    (hDone : ∀ a, t.get a = none)
    (hi : i < (walkOf main).length) :
    t.log.count i = 1 := by
  have hCount := hTallied i
  have hTotal : t.heap.total (owes i) = 0 :=
    Heap.total_eq_zero hDone
  unfold within at hCount
  rw [if_pos ⟨Nat.zero_le i, by omega⟩] at hCount
  omega

end Tallied

------------------------------------------------------------
-- All Runs
------------------------------------------------------------

structure Sound (main : Code) (t : Tasks) : Prop where
  tree : Tree main t
  apart : t.Apart
  logged : Logged main t
  tallied : Tallied main t

namespace Sound

theorem initial (main : Code) :
    Sound main (Tasks.initial main) where
  tree := Tree.initial main
  apart := Apart.initial main
  logged := Logged.initial main
  tallied := Tallied.initial main

theorem step
    (h : Sound main t)
    (hStep : Step t t') :
    Sound main t' where
  tree := h.tree.step hStep
  apart := h.apart.step h.tree hStep
  logged := h.logged.step h.tree h.apart
    (hStep.noted h.tree)
  tallied := h.tallied.step h.tree hStep

theorem reachable
    (hReach : (taskSystem main).Reachable t) :
    Sound main t := by
  refine hReach.invariant ?_ ?_
  · rintro _ rfl
    exact initial main
  · intro t _ t' h hStep
    exact h.step hStep

end Sound

end Tasks

end WorkStealing

end PRacer
