import PRacer.WorkStealing.TaskTree

/-
  Where tasks may go on, and how these places compare.

  A tip of a task is its path while it runs, or the path
  behind its next sync.  Two tips are parted, unless one of
  them lies behind a sync that closes the other.

  Main declarations:
    * `Tasks.Carried`, `Tasks.Under`
    * `Tip`, `Tasks.IsTip`
    * `Tasks.Apart`, `Tasks.Apart.step`
-/

------------------------------------------------------------
-- What a Step Carries Over
------------------------------------------------------------

namespace PRacer

open Foundations

namespace WorkStealing

namespace Tasks

/-
  No number is used again, and tasks keep their parents.
  Those that have children keep their syncs.
-/
structure Carried (t t' : Tasks) : Prop where
  next : t.heap.next ≤ t'.heap.next
  task :
    ∀ c x', t'.get c = some x' → c < t.heap.next →
      ∃ x, t.get c = some x ∧ x'.parent = x.parent ∧
        x'.rest.isHelper = x.rest.isHelper
  parent :
    ∀ c x b, t.get c = some x → t'.get c ≠ none →
      x.parent = some b →
      ∃ y y', t.get b = some y ∧ t'.get b = some y' ∧
        y'.pending = y.pending

variable {main : Code} {t t' t'' : Tasks} {a b c : Nat}
variable {x x' y z : Task} {log : List Nat}

namespace Carried

theorem trans
    (h : Carried t t')
    (h' : Carried t' t'') :
    Carried t t'' where
  next := h.next.trans h'.next
  task c x'' hGet hLt := by
    rcases h'.task c x'' hGet (hLt.trans_le h.next) with
      ⟨x', hGet', hParent', hHelper'⟩
    rcases h.task c x' hGet' hLt with
      ⟨x, hGet'', hParent, hHelper⟩
    exact ⟨x, hGet'', hParent'.trans hParent,
      hHelper'.trans hHelper⟩
  parent c x b hGet hLive hParent := by
    rcases Option.ne_none_iff_exists'.mp hLive with ⟨u, hu⟩
    have hLt : c < t.heap.next := Heap.lt_next hGet
    rcases h'.task c u hu (hLt.trans_le h.next) with
      ⟨x', hGet', -, -⟩
    rcases h.task c x' hGet' hLt with
      ⟨v, hv, hParent', -⟩
    obtain rfl := Option.some.inj (hGet.symm.trans hv)
    rcases h.parent c x b hGet (by simp [hGet']) hParent with
      ⟨y, y', hy, hy', hPending⟩
    rcases h'.parent c x' b hGet' hLive
      (hParent'.trans hParent) with
      ⟨w, y'', hw, hy'', hPending'⟩
    obtain rfl := Option.some.inj (hy'.symm.trans hw)
    exact ⟨y, y'', hy, hy'', hPending'.trans hPending⟩

theorem refl
    (hTree : Tree main t) :
    Carried t t where
  next := Nat.le_refl _
  task c x hGet _ := ⟨x, hGet, rfl, rfl⟩
  parent c x b hGet _ hParent := by
    rcases hTree.child c x b hGet hParent with ⟨y, hy, -⟩
    exact ⟨y, y, hy, hy, rfl⟩

/- One task changed, and others may be new. -/
theorem of_change
    (hTree : Tree main t)
    (hGet : t.get a = some x)
    (hNext : t.heap.next ≤ t'.heap.next)
    (hSelf : t'.get a = some x')
    (hOther : ∀ c, c ≠ a → c < t.heap.next →
      t'.get c = t.get c)
    (hContinues : x.Continues x')
    (hPending : t.Childless a ∨ x'.pending = x.pending) :
    Carried t t' where
  next := hNext
  task c u hu hLt := by
    by_cases hca : c = a
    · subst hca
      obtain rfl := Option.some.inj (hu.symm.trans hSelf)
      exact ⟨x, hGet, hContinues.parent, hContinues.helper⟩
    · exact ⟨u, (hOther c hca hLt).symm.trans hu, rfl, rfl⟩
  parent c u b hu _ hb := by
    rcases hTree.child c u b hu hb with ⟨y, hy, -⟩
    by_cases hba : b = a
    · subst hba
      obtain rfl := Option.some.inj (hy.symm.trans hGet)
      rcases hPending with hChildless | hPending
      · exact absurd hb (hChildless c u hu)
      · exact ⟨y, x', hy, hSelf, hPending⟩
    · exact ⟨y, y, hy,
        (hOther b hba (Heap.lt_next hy)).trans hy, rfl⟩

theorem change
    (hTree : Tree main t)
    (hGet : t.get a = some x)
    (hContinues : x.Continues x')
    (hPending : t.Childless a ∨ x'.pending = x.pending)
    (log : List Nat) :
    Carried t (t.change a x' log) := by
  refine of_change hTree hGet (Nat.le_refl _) ?_ ?_
    hContinues hPending
  · rw [get_change hGet, if_pos rfl]
  · intro c hca _
    rw [get_change hGet, if_neg hca]

theorem branch
    (hTree : Tree main t)
    (hGet : t.get a = some x)
    (hContinues : x.Continues x')
    (hPending : t.Childless a ∨ x'.pending = x.pending)
    (z : Task) (log : List Nat) :
    Carried t (t.branch a x' z log) := by
  refine of_change hTree hGet (Nat.le_succ _) ?_ ?_
    hContinues hPending
  · rw [get_branch hGet, if_pos rfl,
      if_neg (Nat.ne_of_lt (Heap.lt_next hGet))]
  · intro c hca hLt
    rw [get_branch hGet, if_neg (Nat.ne_of_lt hLt),
      if_neg hca]

theorem drop
    (hTree : Tree main t)
    (hNext : t'.heap.next = t.heap.next)
    (hDrop : ∀ c,
      t'.get c = if c = a then none else t.get c)
    (hChildless : t.Childless a) :
    Carried t t' where
  next := Nat.le_of_eq hNext.symm
  task c u hu _ := by
    rw [hDrop] at hu
    split at hu
    · cases hu
    · exact ⟨u, hu, rfl, rfl⟩
  parent c u b hu _ hb := by
    rcases hTree.child c u b hu hb with ⟨y, hy, -⟩
    have hba : b ≠ a := by
      rintro rfl
      exact hChildless c u hu hb
    refine ⟨y, y, hy, ?_, rfl⟩
    rw [hDrop, if_neg hba]
    exact hy

theorem ret
    (hTree : Tree main t)
    (hGet : t.get a = some x)
    (hChildless : t.Childless a) :
    Carried t (t.ret a x) := by
  cases hParent : x.parent with
  | none =>
      refine drop hTree ?_ (get_ret_of_root hParent)
        hChildless
      unfold Tasks.ret
      rw [hParent]
      rfl
  | some b =>
      rcases hTree.child a x b hGet hParent with
        ⟨y, hy, hChild⟩
      have hba : b ≠ a := Nat.ne_of_lt hChild.lt
      have hRet := get_ret_of_parent (t := t) hParent hy hba
      refine ⟨?_, ?_, ?_⟩
      · unfold Tasks.ret
        rw [hParent]
        exact Nat.le_refl _
      · intro c u hu _
        rw [hRet] at hu
        split at hu
        · next hcb =>
            subst hcb
            obtain rfl := Option.some.inj hu
            exact ⟨y, hy, rfl, rfl⟩
        · split at hu
          · cases hu
          · exact ⟨u, hu, rfl, rfl⟩
      · intro c u d hu _ hd
        rcases hTree.child c u d hu hd with ⟨v, hv, -⟩
        have hda : d ≠ a := by
          rintro rfl
          exact hChildless c u hu hd
        rw [hRet]
        by_cases hdb : d = b
        · subst hdb
          obtain rfl := Option.some.inj (hv.symm.trans hy)
          exact ⟨v, _, hv, if_pos rfl, rfl⟩
        · refine ⟨v, v, hv, ?_, rfl⟩
          rw [if_neg hdb, if_neg hda]
          exact hv

end Carried

/- A function after its last sync has no children. -/
theorem Tree.childless_of_closed
    (hTree : Tree main t)
    (hGet : t.get a = some x)
    (hReady : x.status = .ready)
    (hClosed : ∀ c, x.rest ≠ .code c) :
    t.Childless a :=
  hTree.childless hGet (by simp [hReady])
    ((hTree.ok a x hGet).closed (by simp [hReady]) hClosed)

/- A spawn without a sync behind it is the first one. -/
theorem Tree.spawn_pending
    (hTree : Tree main t)
    (hGet : t.get a = some x)
    (hSpawning : x.status = .spawning)
    (body rest : Code) :
    t.Childless a ∨
      (x.continuation body rest).pending = x.pending := by
  cases hPending : x.pending with
  | none =>
      exact Or.inl (hTree.childless hGet
        (by simp [hSpawning]) hPending)
  | some q =>
      exact Or.inr (by
        simp [Task.continuation, Task.syncPath, hPending])

theorem Step.carried
    (hTree : Tree main t)
    (hStep : Step t t') :
    Carried t t' := by
  cases hStep with
  | @call a x body next hGet hReady hCalls =>
      exact Carried.branch hTree hGet
        (Task.Continues.caller (hTree.ok a x hGet) hReady
          hCalls _) (Or.inr rfl) _ _
  | @startSpawn a x body rest hGet hReady hRest =>
      exact Carried.change hTree hGet
        (Task.Continues.spawner (hTree.ok a x hGet) hReady
          hRest) (Or.inr rfl) _
  | @spawn a x body rest hGet hSpawning hRest =>
      exact Carried.branch hTree hGet
        (Task.Continues.continuation (hTree.ok a x hGet)
          hSpawning hRest)
        (hTree.spawn_pending hGet hSpawning body rest) _ _
  | @sync a x next hGet hReady hSyncs hChildless =>
      exact Carried.change hTree hGet
        (Task.Continues.synced (hTree.ok a x hGet) hReady
          hSyncs) (Or.inl hChildless) _
  | @wait a x next hGet hReady hSyncs hPending =>
      exact Carried.change hTree hGet
        (Task.Continues.waiter (hTree.ok a x hGet) hReady
          hSyncs hPending) (Or.inr rfl) _
  | @wake a x hGet hWaiting hChildless =>
      exact Carried.change hTree hGet
        (Task.Continues.woken hWaiting)
        (Or.inl hChildless) _
  | ret hGet hReady hRest =>
      exact Carried.ret hTree hGet
        (hTree.childless_of_closed hGet hReady
          (by simp [hRest]))
  | @leave a x hGet hReady hRest =>
      exact Carried.change hTree hGet
        (Task.Continues.left (hTree.ok a x hGet) hReady
          hRest) (Or.inr rfl) _
  | join hGet hReady hGone =>
      exact Carried.drop hTree rfl (get_join _)
        (hTree.childless_of_closed hGet hReady
          (by simp [hGone]))

------------------------------------------------------------
-- Ancestors
------------------------------------------------------------

/- Task `c` is `b`, or lies below it. -/
inductive Under (t : Tasks) (b : Nat) : Nat → Prop
| self : Under t b b
| child {c d : Nat} {x : Task}
    (hGet : t.get c = some x)
    (hParent : x.parent = some d)
    (hUnder : Under t b d) :
    Under t b c

theorem Under.carry
    (hCarried : Carried t t')
    (h : Under t b c)
    (hLive : t'.get c ≠ none) :
    Under t' b c := by
  induction h with
  | self => exact Under.self
  | @child c d x hGet hParent _ ih =>
      rcases Option.ne_none_iff_exists'.mp hLive with ⟨x', hx'⟩
      rcases hCarried.task c x' hx' (Heap.lt_next hGet) with
        ⟨u, hu, hParent', -⟩
      obtain rfl := Option.some.inj (hGet.symm.trans hu)
      rcases hCarried.parent c x d hGet hLive hParent with
        ⟨_, y', -, hy', -⟩
      exact Under.child hx' (hParent'.trans hParent)
        (ih (by simp [hy']))

/- Below a task without children is only itself. -/
theorem Childless.eq_of_under
    (h : t.Childless a)
    (hUnder : Under t a c) :
    c = a := by
  induction hUnder with
  | self => rfl
  | child hGet hParent _ ih =>
      subst ih
      exact absurd hParent (h _ _ hGet)

end Tasks

------------------------------------------------------------
-- Tips
------------------------------------------------------------

/- A path where a task runs, or one behind its next sync. -/
@[ext] structure Tip where
  owner : Nat
  sync : Bool
  path : Path

namespace Task

def Runs (x : Task) : Prop :=
  x.rest ≠ .gone ∧
    (x.status = .ready ∨ x.status = .spawning)

def HasTip (x : Task) (z : Tip) : Prop :=
  (z.sync = false ∧ x.Runs ∧ z.path = x.path) ∨
    (z.sync = true ∧ x.pending = some z.path)

theorem runs_of_ready
    {x : Task}
    (hReady : x.status = .ready)
    (hRest : x.rest ≠ .gone) :
    x.Runs :=
  ⟨hRest, Or.inl hReady⟩

end Task

namespace Tasks

def IsTip (t : Tasks) (z : Tip) : Prop :=
  ∃ x, t.get z.owner = some x ∧ x.HasTip z

/-
  Two tips lie on different sides of a spawn, or one lies
  behind a sync that an ancestor of the other waits for.
-/
def Related (t : Tasks) (z w : Tip) : Prop :=
  Path.Parted z.path w.path ∨
    (w.sync = true ∧ Path.ClosedBy z.path w.path ∧
      t.Under w.owner z.owner) ∨
    (z.sync = true ∧ Path.ClosedBy w.path z.path ∧
      t.Under z.owner w.owner)

def Apart (t : Tasks) : Prop :=
  ∀ z w, t.IsTip z → t.IsTip w → z ≠ w → t.Related z w

variable {main : Code} {t t' : Tasks} {a b c : Nat}
variable {x x' y u : Task} {log : List Nat}
variable {z z' w w' m m' : Tip}

theorem IsTip.live
    (h : t.IsTip z) :
    t.get z.owner ≠ none := by
  rcases h with ⟨x, hGet, -⟩
  simp [hGet]

theorem IsTip.run
    (hGet : t.get a = some x)
    (hRuns : x.Runs) :
    t.IsTip ⟨a, false, x.path⟩ :=
  ⟨x, hGet, Or.inl ⟨rfl, hRuns, rfl⟩⟩

theorem IsTip.sync
    {q : Path}
    (hGet : t.get a = some x)
    (hPending : x.pending = some q) :
    t.IsTip ⟨a, true, q⟩ :=
  ⟨x, hGet, Or.inr ⟨rfl, hPending⟩⟩

/- The tips after one task went on. -/
theorem IsTip.of_change
    (h : (t.change a x' log).IsTip z)
    (hGet : t.get a = some x) :
    (z.owner = a ∧ x'.HasTip z) ∨
      (z.owner ≠ a ∧ t.IsTip z) := by
  rcases h with ⟨u, hu, hTip⟩
  rw [get_change hGet] at hu
  split at hu
  · next hOwner =>
      obtain rfl := Option.some.inj hu
      exact Or.inl ⟨hOwner, hTip⟩
  · next hOwner => exact Or.inr ⟨hOwner, u, hu, hTip⟩

theorem IsTip.of_branch
    (h : (t.branch a x' u log).IsTip z)
    (hGet : t.get a = some x) :
    (z.owner = t.heap.next ∧ u.HasTip z) ∨
      (z.owner = a ∧ x'.HasTip z) ∨
      (z.owner ≠ a ∧ t.IsTip z) := by
  rcases h with ⟨v, hv, hTip⟩
  rw [get_branch hGet] at hv
  split at hv
  · next hOwner =>
      obtain rfl := Option.some.inj hv
      exact Or.inl ⟨hOwner, hTip⟩
  · split at hv
    · next hOwner =>
        obtain rfl := Option.some.inj hv
        exact Or.inr (Or.inl ⟨hOwner, hTip⟩)
    · next hOwner =>
        exact Or.inr (Or.inr ⟨hOwner, v, hv, hTip⟩)

theorem Related.symm
    (h : t.Related z w) :
    t.Related w z := by
  rcases h with h | h | h
  · exact Or.inl h.symm
  · exact Or.inr (Or.inr h)
  · exact Or.inr (Or.inl h)

/- No tip lies below another one. -/
theorem Related.not_prefix
    (h : t.Related z w) :
    ¬ z.path <+: w.path := by
  rcases h with h | ⟨-, h, -⟩ | ⟨-, h, -⟩
  · exact h.not_prefix
  · exact h.not_prefix
  · exact h.not_prefix_symm

/- Tips move down, and with them what they wait for. -/
theorem Related.lift
    (h : t.Related z w)
    (hz : z.path <+: z'.path)
    (hw : w.path <+: w'.path)
    (hzw : w.sync = true → t.Under w.owner z.owner →
      w'.sync = true ∧ t'.Under w'.owner z'.owner)
    (hwz : z.sync = true → t.Under z.owner w.owner →
      z'.sync = true ∧ t'.Under z'.owner w'.owner) :
    t'.Related z' w' := by
  rcases h with h | ⟨hSync, hClosed, hUnder⟩ |
    ⟨hSync, hClosed, hUnder⟩
  · exact Or.inl (h.mono hz hw)
  · rcases hzw hSync hUnder with ⟨hSync', hUnder'⟩
    exact Or.inr (Or.inl
      ⟨hSync', hClosed.mono hz hw, hUnder'⟩)
  · rcases hwz hSync hUnder with ⟨hSync', hUnder'⟩
    exact Or.inr (Or.inr
      ⟨hSync', hClosed.mono hw hz, hUnder'⟩)

theorem Related.carry
    (h : t.Related z w)
    (hCarried : Carried t t')
    (hz : t'.get z.owner ≠ none)
    (hw : t'.get w.owner ≠ none) :
    t'.Related z w :=
  h.lift (List.prefix_refl _) (List.prefix_refl _)
    (fun hSync hUnder => ⟨hSync, hUnder.carry hCarried hz⟩)
    (fun hSync hUnder => ⟨hSync, hUnder.carry hCarried hw⟩)

namespace Apart

/- No tip is new. -/
theorem subset
    (hApart : t.Apart)
    (hCarried : Carried t t')
    (hTip : ∀ z, t'.IsTip z → t.IsTip z) :
    t'.Apart :=
  fun z w hz hw hNe =>
    (hApart z w (hTip z hz) (hTip w hw) hNe).carry hCarried
      hz.live hw.live

/- One tip goes over into another one. -/
theorem move
    (m m' : Tip)
    (hApart : t.Apart)
    (hCarried : Carried t t')
    (hm : t.IsTip m)
    (hPath : m.path <+: m'.path)
    (hTip : ∀ z, t'.IsTip z →
      z = m' ∨ (t.IsTip z ∧ z ≠ m))
    (hInto : ∀ w, t'.IsTip w →
      t.Under w.owner m.owner → t'.Under w.owner m'.owner)
    (hFrom : ∀ w, t'.IsTip w → t.IsTip w → w ≠ m' →
      w ≠ m → m.sync = true → t.Under m.owner w.owner →
      m'.sync = true ∧ t'.Under m'.owner w.owner) :
    t'.Apart := by
  have hOne : ∀ w, t'.IsTip w → w ≠ m' →
      t'.Related m' w := by
    intro w hw hNe'
    rcases hTip w hw with rfl | ⟨hOld, hNe⟩
    · exact absurd rfl hNe'
    · exact (hApart m w hm hOld (Ne.symm hNe)).lift hPath
        (List.prefix_refl _)
        (fun hSync hUnder => ⟨hSync, hInto w hw hUnder⟩)
        (hFrom w hw hOld hNe' hNe)
  intro z w hz hw hNe
  by_cases hzm : z = m'
  · subst hzm
    exact hOne w hw (Ne.symm hNe)
  · by_cases hwm : w = m'
    · subst hwm
      exact (hOne z hz hzm).symm
    · rcases hTip z hz with rfl | ⟨hOldZ, -⟩
      · exact absurd rfl hzm
      · rcases hTip w hw with rfl | ⟨hOldW, -⟩
        · exact absurd rfl hwm
        · exact (hApart z w hOldZ hOldW hNe).carry hCarried
            hz.live hw.live

/- A call moves the tip of the caller to the callee. -/
theorem call
    {body : Code} {next : Rest}
    (hTree : Tree main t)
    (hApart : t.Apart)
    (hGet : t.get a = some x)
    (hReady : x.status = .ready)
    (hCalls : x.rest.Calls body next) :
    (t.branch a (x.caller t.heap.next body next)
      (Task.fresh (.code body) (x.leaf + 1) x.path a)
      [x.leaf]).Apart := by
  let n := t.heap.next
  have hLive : ∀ c y, t.get c = some y → c ≠ n :=
    fun c y hy => Nat.ne_of_lt (Heap.lt_next hy)
  have hCarried := (Step.call hGet hReady hCalls).carried hTree
  have hRuns := Task.runs_of_ready hReady hCalls.not_gone
  refine hApart.move ⟨a, false, x.path⟩
    ⟨n, false, x.path⟩ hCarried
    (IsTip.run hGet hRuns) (List.prefix_refl _) ?_ ?_ ?_
  · intro z hz
    rcases hz.of_branch hGet with ⟨hOwner, hTip⟩ |
      ⟨hOwner, hTip⟩ | ⟨hOwner, hOld⟩
    · rcases hTip with ⟨hSync, -, hPath⟩ | ⟨-, hNone⟩
      · exact Or.inl (Tip.ext hOwner hSync hPath)
      · cases hNone
    · rcases hTip with ⟨-, ⟨-, hStatus⟩, -⟩ | ⟨hSync, hSome⟩
      · simp [Task.caller] at hStatus
      · refine Or.inr ⟨⟨x, hOwner ▸ hGet,
          Or.inr ⟨hSync, hSome⟩⟩, ?_⟩
        rintro rfl
        cases hSync
    · refine Or.inr ⟨hOld, ?_⟩
      rintro rfl
      exact hOwner rfl
  · intro w hw hUnder
    have hNew : (t.branch a (x.caller n body next)
        (Task.fresh (.code body) (x.leaf + 1) x.path a)
        [x.leaf]).get n = some (Task.fresh (.code body)
          (x.leaf + 1) x.path a) := by
      rw [get_branch hGet, if_pos rfl]
    refine Under.child hNew rfl (hUnder.carry hCarried ?_)
    rw [get_branch hGet, if_neg (hLive a x hGet), if_pos rfl]
    simp
  · intro w _ _ _ _ hSync
    cases hSync

/- A task goes on where it was, or it has no tip any more. -/
theorem change
    (hApart : t.Apart)
    (hCarried : Carried t (t.change a x' log))
    (hGet : t.get a = some x)
    (hTip : ∀ z, x'.HasTip z → x.HasTip z) :
    (t.change a x' log).Apart := by
  refine hApart.subset hCarried fun z hz => ?_
  rcases hz.of_change hGet with ⟨hOwner, hNew⟩ | ⟨-, hOld⟩
  · exact ⟨x, hOwner ▸ hGet, hTip z hNew⟩
  · exact hOld

/- A task without children passes its sync. -/
theorem pass
    {q : Path}
    (hApart : t.Apart)
    (hCarried : Carried t (t.change a x' log))
    (hGet : t.get a = some x)
    (hPending : x.pending = some q)
    (hPath : x'.path = q)
    (hNone : x'.pending = none)
    (hChildless : t.Childless a) :
    (t.change a x' log).Apart := by
  -- The only tip of `a` now.
  have hOwn : ∀ z, x'.HasTip z → z.owner = a →
      z = ⟨a, false, q⟩ := by
    intro z hz hOwner
    rcases hz with ⟨hSync, -, hz⟩ | ⟨-, hSome⟩
    · exact Tip.ext hOwner hSync (hz.trans hPath)
    · rw [hNone] at hSome
      cases hSome
  have hTip : ∀ z, (t.change a x' log).IsTip z →
      z = ⟨a, false, q⟩ ∨ (z.owner ≠ a ∧ t.IsTip z) := by
    intro z hz
    rcases hz.of_change hGet with ⟨hOwner, hNew⟩ | hOld
    · exact Or.inl (hOwn z hNew hOwner)
    · exact Or.inr hOld
  refine hApart.move ⟨a, true, q⟩
    ⟨a, false, q⟩ hCarried
    (IsTip.sync hGet hPending) (List.prefix_refl _) ?_ ?_ ?_
  · intro z hz
    rcases hTip z hz with hNew | ⟨hOwner, hOld⟩
    · exact Or.inl hNew
    · refine Or.inr ⟨hOld, ?_⟩
      rintro rfl
      exact hOwner rfl
  · intro w hw hUnder
    refine hUnder.carry hCarried ?_
    rw [get_change hGet, if_pos rfl]
    simp
  · intro w hw _ hNe _ _ hUnder
    rcases hTip w hw with hNew | ⟨hOwner, -⟩
    · exact absurd hNew hNe
    · exact absurd (hChildless.eq_of_under hUnder) hOwner

theorem sync
    {next : Rest}
    (hTree : Tree main t)
    (hApart : t.Apart)
    (hGet : t.get a = some x)
    (hReady : x.status = .ready)
    (hSyncs : x.rest.Syncs next)
    (hChildless : t.Childless a) :
    (t.change a (x.synced next) [x.leaf]).Apart := by
  have hCarried := (Step.sync hGet hReady hSyncs
    hChildless).carried hTree
  cases hPending : x.pending with
  | some q =>
      exact hApart.pass hCarried hGet hPending
        (by simp [Task.synced, hPending]) rfl hChildless
  | none =>
      refine hApart.change hCarried hGet fun z hz => ?_
      rcases hz with ⟨hSync, -, hPath⟩ | ⟨-, hSome⟩
      · refine Or.inl ⟨hSync,
          Task.runs_of_ready hReady hSyncs.not_gone, ?_⟩
        simpa [Task.synced, hPending] using hPath
      · cases hSome

/- A spawn moves the tip to the child and the continuation. -/
theorem spawn
    {body rest : Code}
    (hTree : Tree main t)
    (hApart : t.Apart)
    (hGet : t.get a = some x)
    (hSpawning : x.status = .spawning)
    (hRest : x.rest = .code (.spawn body rest)) :
    (t.branch a (x.continuation body rest)
      (Task.fresh (.enter body) x.leaf (x.path ++ [.child]) a)
      []).Apart := by
  let n := t.heap.next
  let t' := t.branch a (x.continuation body rest)
    (Task.fresh (.enter body) x.leaf (x.path ++ [.child]) a)
    []
  have hLive : ∀ c y, t.get c = some y → c ≠ n :=
    fun c y hy => Nat.ne_of_lt (Heap.lt_next hy)
  have hCarried : Carried t t' :=
    (Step.spawn hGet hSpawning hRest).carried hTree
  have hNew : t'.get n = some (Task.fresh (.enter body)
      x.leaf (x.path ++ [.child]) a) :=
    (get_branch hGet n).trans (if_pos rfl)
  have hSelf : t'.get a = some (x.continuation body rest) :=
    (get_branch hGet a).trans
      ((if_neg (hLive a x hGet)).trans (if_pos rfl))
  have hUnderA : ∀ b, t.Under b a → t'.Under b a :=
    fun b hUnder => hUnder.carry hCarried (by simp [hSelf])
  have hUnderN : ∀ b, t'.Under b a → t'.Under b n :=
    fun b hUnder => Under.child hNew rfl hUnder
  have hRun : t.IsTip ⟨a, false, x.path⟩ := by
    refine IsTip.run hGet ⟨?_, Or.inr hSpawning⟩
    simp [hRest]
  let child : Tip := ⟨n, false, x.path ++ [.child]⟩
  let cont : Tip := ⟨a, false, x.path ++ [.cont]⟩
  let sync : Tip := ⟨a, true, x.syncPath⟩
  have hTip : ∀ z, t'.IsTip z →
      z = child ∨ z = cont ∨ z = sync ∨
        (z.owner ≠ a ∧ t.IsTip z) := by
    intro z hz
    rcases hz.of_branch hGet with ⟨hOwner, hTip⟩ |
      ⟨hOwner, hTip⟩ | hOld
    · rcases hTip with ⟨hSync, -, hPath⟩ | ⟨-, hNone⟩
      · exact Or.inl (Tip.ext hOwner hSync hPath)
      · cases hNone
    · rcases hTip with ⟨hSync, -, hPath⟩ | ⟨hSync, hSome⟩
      · exact Or.inr (Or.inl (Tip.ext hOwner hSync hPath))
      · exact Or.inr (Or.inr (Or.inl
          (Tip.ext hOwner hSync (Option.some.inj hSome).symm)))
    · exact Or.inr (Or.inr (Or.inr hOld))
  -- The new tips compare as the old one did.
  have hOld : ∀ z w, x.path <+: z.path →
      (∀ b, t.Under b a → t'.Under b z.owner) →
      w.owner ≠ a → t.IsTip w → t'.Related z w := by
    intro z w hPath hUnder hOwner hw
    have hNe : (⟨a, false, x.path⟩ : Tip) ≠ w := by
      rintro rfl
      exact hOwner rfl
    refine (hApart _ w hRun hw hNe).lift hPath
      (List.prefix_refl _)
      (fun hSync hAnc => ⟨hSync, hUnder _ hAnc⟩) ?_
    intro hFalse
    cases hFalse
  have hPending : ∀ {y : Branch}, y ≠ .sync →
      Path.ClosedBy (x.path ++ [y]) x.syncPath := by
    intro y hy
    have hBelow := (hTree.ok a x hGet).below
    rw [Task.ahead_of_ne (by simp [hSpawning])] at hBelow
    exact Path.closedBy_of_pending (hBelow.spawn hy)
  have hChildCont : t'.Related child cont :=
    Or.inl ⟨x.path, Or.inl
      ⟨List.prefix_refl _, List.prefix_refl _⟩⟩
  have hChildSync : t'.Related child sync :=
    Or.inr (Or.inl ⟨rfl, hPending (by decide),
      hUnderN a Under.self⟩)
  have hContSync : t'.Related cont sync :=
    Or.inr (Or.inl ⟨rfl, hPending (by decide), Under.self⟩)
  have hChild : ∀ w, t'.IsTip w → w ≠ child →
      t'.Related child w := by
    intro w hw hNe
    rcases hTip w hw with rfl | rfl | rfl | ⟨hOwner, hOldTip⟩
    · exact absurd rfl hNe
    · exact hChildCont
    · exact hChildSync
    · exact hOld child w (List.prefix_append _ _)
        (fun b hUnder => hUnderN b (hUnderA b hUnder))
        hOwner hOldTip
  have hCont : ∀ w, t'.IsTip w → w ≠ cont →
      t'.Related cont w := by
    intro w hw hNe
    rcases hTip w hw with rfl | rfl | rfl | ⟨hOwner, hOldTip⟩
    · exact hChildCont.symm
    · exact absurd rfl hNe
    · exact hContSync
    · exact hOld cont w (List.prefix_append _ _) hUnderA
        hOwner hOldTip
  have hSync : ∀ w, t'.IsTip w → w.owner ≠ a → t.IsTip w →
      t'.Related sync w := by
    intro w hw hOwner hOldTip
    cases hNone : x.pending with
    | none =>
        refine hOld sync w ?_ hUnderA hOwner hOldTip
        simp [sync, Task.syncPath, hNone]
    | some q =>
        have hEq : sync = ⟨a, true, q⟩ := by
          simp [sync, Task.syncPath, hNone]
        have hNe : sync ≠ w := by
          rintro rfl
          exact hOwner rfl
        have hSyncTip : t.IsTip sync := by
          rw [hEq]
          exact IsTip.sync hGet hNone
        exact (hApart sync w hSyncTip hOldTip hNe).carry
          hCarried (by simp [sync, hSelf]) hw.live
  intro z w hz hw hNe
  rcases hTip z hz with rfl | rfl | rfl | ⟨hOwnerZ, hOldZ⟩
  · exact hChild w hw (Ne.symm hNe)
  · exact hCont w hw (Ne.symm hNe)
  · rcases hTip w hw with rfl | rfl | rfl | ⟨hOwnerW, hOldW⟩
    · exact hChildSync.symm
    · exact hContSync.symm
    · exact absurd rfl hNe
    · exact hSync w hw hOwnerW hOldW
  · rcases hTip w hw with rfl | rfl | rfl | ⟨hOwnerW, hOldW⟩
    · exact (hChild z hz hNe).symm
    · exact (hCont z hz hNe).symm
    · exact (hSync z hz hOwnerZ hOldZ).symm
    · exact (hApart z w hOldZ hOldW hNe).carry hCarried
        hz.live hw.live

/- A return moves the tip of the callee to the caller. -/
theorem ret
    (hTree : Tree main t)
    (hApart : t.Apart)
    (hGet : t.get a = some x)
    (hReady : x.status = .ready)
    (hRest : x.rest = .ret) :
    (t.ret a x).Apart := by
  have hCarried := (Step.ret hGet hReady hRest).carried hTree
  cases hParent : x.parent with
  | none =>
      refine hApart.subset hCarried fun z hz => ?_
      rcases hz with ⟨u, hu, hTip⟩
      rw [get_ret_of_root hParent] at hu
      split at hu
      · cases hu
      · exact ⟨u, hu, hTip⟩
  | some b =>
      rcases hTree.child a x b hGet hParent with
        ⟨y, hy, hChild⟩
      have hHelper : x.rest.isHelper = false := by
        rw [hRest]
        rfl
      have hba : b ≠ a := Nat.ne_of_lt hChild.lt
      have hCalling := hChild.calling hHelper
      have hPath : x.path = y.path := by
        have hLast := hChild.last hHelper
        rw [hRest] at hLast
        exact hLast
      have hRet := get_ret_of_parent (t := t) hParent hy hba
      refine hApart.move ⟨a, false, x.path⟩
        ⟨b, false, x.path⟩ hCarried
        (IsTip.run hGet (Task.runs_of_ready hReady
          (by simp [hRest])))
        (List.prefix_refl _) ?_ ?_ ?_
      · intro z hz
        rcases hz with ⟨u, hu, hTip⟩
        rw [hRet] at hu
        split at hu
        · next hOwner =>
            obtain rfl := Option.some.inj hu
            rcases hTip with ⟨hSync, -, hTip⟩ | ⟨hSync, hSome⟩
            · exact Or.inl (Tip.ext hOwner hSync
                (hTip.trans hPath.symm))
            · refine Or.inr ⟨⟨y, hOwner ▸ hy,
                Or.inr ⟨hSync, hSome⟩⟩, ?_⟩
              rintro rfl
              cases hSync
        · split at hu
          · cases hu
          · next hOwner =>
              refine Or.inr ⟨⟨u, hu, hTip⟩, ?_⟩
              rintro rfl
              exact hOwner rfl
      · intro w hw hUnder
        have hLive : (t.ret a x).get b ≠ none := by
          rw [hRet, if_pos rfl]
          simp
        cases hUnder with
        | self =>
            have hGone := hw.live
            rw [hRet, if_neg (Ne.symm hba), if_pos rfl]
              at hGone
            exact absurd rfl hGone
        | child hGet' hParent' hUnder =>
            obtain rfl := Option.some.inj
              (hGet.symm.trans hGet')
            obtain rfl := Option.some.inj
              (hParent.symm.trans hParent')
            exact hUnder.carry hCarried hLive
      · intro w _ _ _ _ hSync
        cases hSync

theorem step
    (hTree : Tree main t)
    (hApart : t.Apart)
    (hStep : Step t t') :
    t'.Apart := by
  have hCarried := hStep.carried hTree
  cases hStep with
  | call hGet hReady hCalls =>
      exact hApart.call hTree hGet hReady hCalls
  | startSpawn hGet hReady hRest =>
      refine hApart.change hCarried hGet fun z hz => ?_
      rcases hz with ⟨hSync, -, hPath⟩ | hSome
      · exact Or.inl ⟨hSync, Task.runs_of_ready hReady
          (by simp [hRest]), hPath⟩
      · exact Or.inr hSome
  | spawn hGet hSpawning hRest =>
      exact hApart.spawn hTree hGet hSpawning hRest
  | sync hGet hReady hSyncs hChildless =>
      exact hApart.sync hTree hGet hReady hSyncs hChildless
  | wait hGet hReady hSyncs hPending =>
      refine hApart.change hCarried hGet fun z hz => ?_
      rcases hz with ⟨-, ⟨-, hStatus⟩, -⟩ | hSome
      · simp [Task.waiter] at hStatus
      · exact Or.inr hSome
  | @wake a x hGet hWaiting hChildless =>
      exact hApart.pass hCarried hGet
        ((hTree.ok a x hGet).waits hWaiting) rfl rfl
        hChildless
  | ret hGet hReady hRest =>
      exact hApart.ret hTree hGet hReady hRest
  | leave hGet hReady hRest =>
      refine hApart.change hCarried hGet fun z hz => ?_
      rcases hz with ⟨-, ⟨hRuns, -⟩, -⟩ | hSome
      · exact absurd rfl hRuns
      · exact Or.inr hSome
  | @join a x hGet hReady hGone =>
      refine hApart.subset hCarried fun z hz => ?_
      rcases hz with ⟨u, hu, hTip⟩
      rw [get_join] at hu
      split at hu
      · cases hu
      · exact ⟨u, hu, hTip⟩

/- The only tip at first. -/
theorem of_initial
    (hTip : (Tasks.initial main).IsTip z) :
    z = ⟨0, false, []⟩ := by
  rcases hTip with ⟨x, hGet, hTip⟩
  rcases get_initial hGet with ⟨hOwner, rfl⟩
  rcases hTip with ⟨hSync, -, hPath⟩ | ⟨-, hSome⟩
  · exact Tip.ext hOwner hSync hPath
  · cases hSome

theorem initial (main : Code) : (Tasks.initial main).Apart := by
  intro z w hz hw hNe
  exact absurd ((of_initial hz).trans (of_initial hw).symm)
    hNe

end Apart

end Tasks

end WorkStealing

end PRacer
