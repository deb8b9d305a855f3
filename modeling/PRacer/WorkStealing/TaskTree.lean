import PRacer.WorkStealing.Tasks

/-
  The tree of the tasks: what holds for every task, and for a
  task and its parent.

  Main declarations:
    * `Task.Ok`, `Tasks.Child`, `Tasks.Tree`
    * `Tasks.Tree.step`
-/

------------------------------------------------------------
-- One Task
------------------------------------------------------------

namespace PRacer

open Foundations

namespace WorkStealing

namespace Task

/- The strands that are left stand in the program. -/
structure Ok (main : Code) (x : Task) : Prop where
  segment : Segment main x.leaf x.todo
  below : Code.Pending x.path x.ahead
  waits : x.status = .waiting → x.pending = some x.path
  closed :
    x.status ≠ .waiting → (∀ c, x.rest ≠ .code c) →
      x.pending = none
  spawns :
    x.status = .spawning →
      ∃ body rest, x.rest = .code (.spawn body rest)
  helper : x.rest.isHelper = true → x.pending = none

/- A later state of the same task. -/
structure Continues (x x' : Task) : Prop where
  parent : x'.parent = x.parent
  helper : x'.rest.isHelper = x.rest.isHelper
  last :
    x'.rest.last x'.path x'.ahead =
      x.rest.last x.path x.ahead
  stop :
    x'.leaf + x'.todo.length = x.leaf + x.todo.length

variable {main : Code} {x : Task} {body rest : Code}
variable {next : Rest}

theorem ahead_of_ne
    (h : x.status ≠ .waiting) :
    x.ahead = x.pending :=
  if_neg h

theorem todo_of_ready
    (h : x.status = .ready) :
    x.todo = x.rest.strands x.path x.pending := by
  unfold todo
  rw [if_neg (by simp [h]), ahead_of_ne (by simp [h])]

namespace Ok

/- The number of strands that are left. -/
theorem length_todo
    (hOk : Ok main x)
    (hSpawning : x.status ≠ .spawning) :
    x.todo.length = x.rest.size := by
  unfold todo
  rw [if_neg hSpawning]
  exact Rest.length_strands x.rest hOk.below

theorem pending_below
    (hOk : Ok main x)
    (hReady : x.status = .ready) :
    Code.Pending x.path x.pending := by
  have hBelow := hOk.below
  rwa [ahead_of_ne (by simp [hReady])] at hBelow

/- The strands of the callee, and those after the call. -/
theorem of_calls
    (hOk : Ok main x)
    (hReady : x.status = .ready)
    (hCalls : x.rest.Calls body next) :
    Segment main (x.leaf + 1)
        ((Rest.code body).strands x.path none) ∧
      Segment main (x.leaf + 1 + body.spTree.size)
        (next.strands (body.walk x.path none).last
          x.pending) := by
  have hSegment := hOk.segment
  rw [todo_of_ready hReady, hCalls.strands] at hSegment
  have hLength := Rest.length_strands (.code body)
    (Code.Pending.none x.path)
  have hRest := hSegment.tail.right
  rw [hLength] at hRest
  exact ⟨hSegment.tail.left, hRest⟩

/- The strands of the child, and those after the spawn. -/
theorem of_spawning
    (hOk : Ok main x)
    (hSpawning : x.status = .spawning)
    (hRest : x.rest = .code (.spawn body rest)) :
    Segment main x.leaf
        ((Rest.enter body).strands (x.path ++ [.child])
          none) ∧
      Segment main (x.leaf + (1 + body.spTree.size + 1))
        ((Rest.code rest).strands (x.path ++ [.cont])
          (some x.syncPath)) := by
  have hSegment := hOk.segment
  have hAhead := ahead_of_ne (x := x) (by simp [hSpawning])
  unfold todo at hSegment
  rw [if_pos hSpawning, hAhead, hRest, Rest.strands_spawn,
    List.tail_cons] at hSegment
  have hLength := Rest.length_strands (.enter body)
    (Code.Pending.none (x.path ++ [.child]))
  have hRight := hSegment.right
  rw [hLength] at hRight
  exact ⟨hSegment.left, hRight⟩

/- The strands behind a sync. -/
theorem of_syncs
    (hOk : Ok main x)
    (hReady : x.status = .ready)
    (hSyncs : x.rest.Syncs next) :
    Segment main (x.leaf + 1)
      (next.strands (x.pending.getD x.path) none) := by
  have hSegment := hOk.segment
  rw [todo_of_ready hReady, hSyncs.strands] at hSegment
  exact hSegment.tail

theorem fresh
    {leaf parent : Nat} {r : Rest} {p : Path}
    (hSegment : Segment main leaf (r.strands p none)) :
    Ok main (Task.fresh r leaf p parent) where
  segment := hSegment
  below := Code.Pending.none p
  waits h := by cases h
  closed _ _ := rfl
  spawns h := by cases h
  helper _ := rfl

theorem caller
    (hOk : Ok main x)
    (hReady : x.status = .ready)
    (hCalls : x.rest.Calls body next)
    (c : Nat) :
    Ok main (x.caller c body next) where
  segment := (hOk.of_calls hReady hCalls).2
  below := by
    have hBounds := Code.walk_bounds body x.path none
      (Code.Pending.none x.path)
    exact (hOk.pending_below hReady).mono hBounds.last_below
  waits h := by cases h
  closed _ hClosed :=
    hOk.closed (by simp [hReady]) (hCalls.closed hClosed)
  spawns h := by cases h
  helper hHelper := hOk.helper (hCalls.isHelper ▸ hHelper)

theorem spawner
    (hOk : Ok main x)
    (hReady : x.status = .ready)
    (hRest : x.rest = .code (.spawn body rest)) :
    Ok main x.spawner where
  segment := by
    have hSegment := hOk.segment
    rw [todo_of_ready hReady, hRest,
      Rest.strands_spawn] at hSegment
    have hTodo : x.spawner.todo =
        (x.rest.strands x.path x.pending).tail := rfl
    rw [hTodo, hRest, Rest.strands_spawn]
    exact hSegment.tail
  below := hOk.pending_below hReady
  waits h := by cases h
  closed _ hClosed := absurd hRest (hClosed _)
  spawns _ := ⟨body, rest, hRest⟩
  helper := hOk.helper

theorem continuation
    (hOk : Ok main x)
    (hSpawning : x.status = .spawning)
    (hRest : x.rest = .code (.spawn body rest)) :
    Ok main (x.continuation body rest) where
  segment := (hOk.of_spawning hSpawning hRest).2
  below := by
    have hBelow := hOk.below
    rw [ahead_of_ne (by simp [hSpawning])] at hBelow
    exact hBelow.spawn (by decide)
  waits h := by cases h
  closed _ hClosed := absurd rfl (hClosed _)
  spawns h := by cases h
  helper h := by cases h

theorem synced
    (hOk : Ok main x)
    (hReady : x.status = .ready)
    (hSyncs : x.rest.Syncs next) :
    Ok main (x.synced next) := by
  have hStatus : (x.synced next).status = .ready := hReady
  refine ⟨?_, ?_, ?_, fun _ _ => rfl, ?_, fun _ => rfl⟩
  · rw [todo_of_ready hStatus]
    exact hOk.of_syncs hReady hSyncs
  · rw [ahead_of_ne (by simp [hStatus])]
    exact Code.Pending.none _
  · simp [hStatus]
  · simp [hStatus]

theorem waiter
    (hOk : Ok main x)
    (hReady : x.status = .ready)
    (hSyncs : x.rest.Syncs next)
    (hPending : x.pending ≠ none) :
    Ok main (x.waiter next) where
  segment := hOk.of_syncs hReady hSyncs
  below := Code.Pending.none _
  waits _ := by
    rcases Option.ne_none_iff_exists'.mp hPending with
      ⟨q, hq⟩
    simp [Task.waiter, hq]
  closed h := absurd rfl h
  spawns h := by cases h
  helper hHelper := hOk.helper (hSyncs.isHelper ▸ hHelper)

theorem woken
    (hOk : Ok main x)
    (hWaiting : x.status = .waiting) :
    Ok main x.woken where
  segment := by
    have hTodo : x.todo = x.woken.todo := by
      simp [todo, ahead, Task.woken, hWaiting]
    rw [← hTodo]
    exact hOk.segment
  below := Code.Pending.none _
  waits h := by cases h
  closed _ _ := rfl
  spawns h := by cases h
  helper _ := rfl

theorem left
    (hOk : Ok main x)
    (hReady : x.status = .ready)
    (hRest : x.rest = .leave) :
    Ok main x.left := by
  have hStatus : x.left.status = .ready := hReady
  have hNone : x.pending = none :=
    hOk.closed (by simp [hReady]) (by simp [hRest])
  refine ⟨?_, ?_, ?_, fun _ _ => hNone, ?_, fun _ => hNone⟩
  · rw [todo_of_ready hStatus]
    exact List.nil_prefix
  · rw [ahead_of_ne (by simp [hStatus])]
    exact hOk.pending_below hReady
  · simp [hStatus]
  · simp [hStatus]

/- A caller waits for another one of its tasks. -/
theorem ready
    (hOk : Ok main x)
    {c : Nat}
    (hCalling : x.status = .calling c) :
    Ok main { x with status := .ready } where
  segment := by
    have hSegment := hOk.segment
    simpa [todo, ahead, hCalling] using hSegment
  below := by
    have hBelow := hOk.below
    simpa [ahead, hCalling] using hBelow
  waits h := by cases h
  closed _ := hOk.closed (by simp [hCalling])
  spawns h := by cases h
  helper := hOk.helper

/- The same, between a strand and the spawn at its end. -/
theorem length_todo_spawning
    (hOk : Ok main x)
    (hSpawning : x.status = .spawning) :
    x.todo.length + 1 = x.rest.size := by
  rcases hOk.spawns hSpawning with ⟨body, rest, hRest⟩
  have hLength := Rest.length_strands x.rest hOk.below
  unfold todo
  rw [if_pos hSpawning, List.length_tail]
  rw [hRest, Rest.size_spawn] at *
  omega

end Ok

------------------------------------------------------------
-- Going On
------------------------------------------------------------

namespace Continues

theorem caller
    (hOk : Ok main x)
    (hReady : x.status = .ready)
    (hCalls : x.rest.Calls body next)
    (c : Nat) :
    Continues x (x.caller c body next) where
  parent := rfl
  helper := hCalls.isHelper
  last := by
    rw [ahead_of_ne (x := x) (by simp [hReady])]
    exact hCalls.last
  stop := by
    rw [(hOk.caller hReady hCalls c).length_todo
      (by simp [Task.caller]),
      hOk.length_todo (by simp [hReady]), hCalls.size]
    simp only [Task.caller]
    omega

theorem spawner
    (hOk : Ok main x)
    (hReady : x.status = .ready)
    (hRest : x.rest = .code (.spawn body rest)) :
    Continues x x.spawner where
  parent := rfl
  helper := rfl
  last := by
    rw [ahead_of_ne (x := x) (by simp [hReady])]
    rfl
  stop := by
    have hLength := hOk.length_todo (by simp [hReady])
    have hLength' := (hOk.spawner hReady
      hRest).length_todo_spawning rfl
    simp only [Task.spawner] at hLength' ⊢
    omega

theorem continuation
    (hOk : Ok main x)
    (hSpawning : x.status = .spawning)
    (hRest : x.rest = .code (.spawn body rest)) :
    Continues x (x.continuation body rest) where
  parent := rfl
  helper := by
    rw [hRest]
    rfl
  last := by
    rw [ahead_of_ne (x := x) (by simp [hSpawning]), hRest]
    rfl
  stop := by
    have hLength := hOk.length_todo_spawning hSpawning
    have hLength' := (hOk.continuation hSpawning
      hRest).length_todo (by simp [Task.continuation])
    rw [hRest, Rest.size_spawn] at hLength
    simp only [Task.continuation] at hLength' ⊢
    omega

theorem synced
    (hOk : Ok main x)
    (hReady : x.status = .ready)
    (hSyncs : x.rest.Syncs next) :
    Continues x (x.synced next) where
  parent := rfl
  helper := hSyncs.isHelper
  last := by
    rw [ahead_of_ne (x := x) (by simp [hReady]),
      ahead_of_ne (by simp [Task.synced, hReady])]
    exact hSyncs.last
  stop := by
    rw [(hOk.synced hReady hSyncs).length_todo
      (by simp [Task.synced, hReady]),
      hOk.length_todo (by simp [hReady]), hSyncs.size]
    simp only [Task.synced]
    omega

theorem waiter
    (hOk : Ok main x)
    (hReady : x.status = .ready)
    (hSyncs : x.rest.Syncs next)
    (hPending : x.pending ≠ none) :
    Continues x (x.waiter next) where
  parent := rfl
  helper := hSyncs.isHelper
  last := by
    rw [ahead_of_ne (x := x) (by simp [hReady])]
    exact hSyncs.last
  stop := by
    rw [(hOk.waiter hReady hSyncs hPending).length_todo
      (by simp [Task.waiter]),
      hOk.length_todo (by simp [hReady]), hSyncs.size]
    simp only [Task.waiter]
    omega

theorem woken
    (hWaiting : x.status = .waiting) :
    Continues x x.woken where
  parent := rfl
  helper := rfl
  last := by
    simp [ahead, Task.woken, hWaiting]
  stop := by
    simp [todo, ahead, Task.woken, hWaiting]

theorem left
    (hOk : Ok main x)
    (hReady : x.status = .ready)
    (hRest : x.rest = .leave) :
    Continues x x.left where
  parent := rfl
  helper := by
    rw [hRest]
    rfl
  last := by
    rw [hRest]
    rfl
  stop := by
    rw [(hOk.left hReady hRest).length_todo
      (by simp [Task.left, hReady]),
      hOk.length_todo (by simp [hReady]), hRest]
    rfl

end Continues

end Task

------------------------------------------------------------
-- All Tasks
------------------------------------------------------------

namespace Tasks

/-
  A task and its parent.  A callee ends where its caller
  goes on.
-/
structure Child
    (c : Nat) (x : Task) (b : Nat) (y : Task) : Prop where
  lt : b < c
  spawned : x.rest.isHelper = true → y.pending ≠ none
  calling : x.rest.isHelper = false → y.status = .calling c
  last :
    x.rest.isHelper = false →
      x.rest.last x.path x.ahead = y.path
  stop :
    x.rest.isHelper = false →
      x.leaf + x.todo.length = y.leaf

structure Tree (main : Code) (t : Tasks) : Prop where
  ok : ∀ a x, t.get a = some x → x.Ok main
  child :
    ∀ c x b, t.get c = some x → x.parent = some b →
      ∃ y, t.get b = some y ∧ Child c x b y
  callee :
    ∀ b y c, t.get b = some y → y.status = .calling c →
      ∃ x, t.get c = some x ∧ x.parent = some b ∧
        x.rest.isHelper = false
  root :
    ∀ c x, t.get c = some x → x.parent = none →
      x.rest.isHelper = false

variable {main : Code} {t : Tasks} {a b c n : Nat}
variable {x x' y y' z : Task} {log : List Nat}

/- A parent in no call changes. -/
theorem Child.change
    (h : Child c z a x)
    (hIdle : ∀ c, x.status ≠ .calling c)
    (hPending : x.pending ≠ none → x'.pending ≠ none) :
    Child c z a x' := by
  have hHelper : z.rest.isHelper = true := by
    by_contra hNot
    exact hIdle c (h.calling (by simpa using hNot))
  exact
    { lt := h.lt
      spawned := fun hTrue => hPending (h.spawned hTrue)
      calling := by simp [hHelper]
      last := by simp [hHelper]
      stop := by simp [hHelper] }

theorem Child.continues
    (h : Child a x b y)
    (hContinues : x.Continues x') :
    Child a x' b y where
  lt := h.lt
  spawned hTrue := h.spawned (hContinues.helper ▸ hTrue)
  calling hFalse := h.calling (hContinues.helper ▸ hFalse)
  last hFalse :=
    hContinues.last.trans (h.last (hContinues.helper ▸ hFalse))
  stop hFalse :=
    hContinues.stop.trans (h.stop (hContinues.helper ▸ hFalse))

theorem get_change
    (hGet : t.get a = some x) (c : Nat) :
    (t.change a y log).get c =
      if c = a then some y else t.get c := by
  unfold get at *
  unfold change
  rw [Heap.get_modify]
  by_cases hc : c = a
  · simp [hc, hGet]
  · simp [hc]

theorem get_branch
    (hGet : t.get a = some x) (c : Nat) :
    (t.branch a y z log).get c =
      if c = t.heap.next then some z
      else if c = a then some y
      else t.get c := by
  have hChange : (t.change a y log).get c =
      if c = a then some y else t.get c :=
    get_change hGet c
  by_cases hc : c = t.heap.next
  · simp only [hc, if_true]
    exact Heap.get_alloc_self z
  · rw [if_neg hc, ← hChange]
    exact Heap.get_alloc_of_ne z hc

theorem get_join (a c : Nat) :
    (t.join a).get c = if c = a then none else t.get c :=
  Heap.get_free a c

theorem get_ret_of_parent
    (hParent : x.parent = some b)
    (hGet : t.get b = some y) (hb : b ≠ a) (c : Nat) :
    (t.ret a x).get c =
      if c = b then some { y with status := .ready }
      else if c = a then none
      else t.get c := by
  unfold get at *
  unfold ret
  rw [hParent]
  simp only [Heap.get_modify, Heap.get_free]
  by_cases hc : c = b
  · simp [hc, hb, hGet]
  · simp [hc]

theorem get_ret_of_root
    (hParent : x.parent = none) (c : Nat) :
    (t.ret a x).get c = if c = a then none else t.get c := by
  unfold get ret
  rw [hParent]
  exact Heap.get_free a c

theorem get_initial
    (hGet : (Tasks.initial main).get a = some x) :
    a = 0 ∧ x = Task.first main := by
  by_cases ha : a = 0
  · subst ha
    exact ⟨rfl, (Option.some.inj hGet).symm⟩
  · have hNone : (Tasks.initial main).get a = none := by
      simp [Tasks.initial, get, Heap.empty, Heap.get,
        Heap.alloc, ha]
    rw [hNone] at hGet
    cases hGet

namespace Tree

/- A task goes on without a new task. -/
theorem change
    (hTree : Tree main t)
    (hGet : t.get a = some x)
    (hOk : x'.Ok main)
    (hContinues : x.Continues x')
    (hIdle : ∀ c, x.status ≠ .calling c)
    (hIdle' : ∀ c, x'.status ≠ .calling c)
    (hPending : t.Childless a ∨
      (x.pending ≠ none → x'.pending ≠ none))
    (log : List Nat) :
    Tree main (t.change a x' log) := by
  -- Who was there, and what became of it.
  have hOld : ∀ c z, (t.change a x' log).get c = some z →
      (c = a ∧ z = x') ∨ (c ≠ a ∧ t.get c = some z) := by
    intro c z hz
    rw [get_change hGet] at hz
    by_cases hc : c = a
    · rw [if_pos hc] at hz
      exact Or.inl ⟨hc, (Option.some.inj hz).symm⟩
    · rw [if_neg hc] at hz
      exact Or.inr ⟨hc, hz⟩
  have hOther : ∀ c, c ≠ a →
      (t.change a x' log).get c = t.get c := by
    intro c hc
    rw [get_change hGet, if_neg hc]
  have hSelf : (t.change a x' log).get a = some x' := by
    rw [get_change hGet, if_pos rfl]
  refine ⟨?_, ?_, ?_, ?_⟩
  · intro c z hz
    rcases hOld c z hz with ⟨-, rfl⟩ | ⟨-, hz⟩
    · exact hOk
    · exact hTree.ok c z hz
  · intro c z b hz hb
    rcases hOld c z hz with ⟨rfl, rfl⟩ | ⟨hc, hOldGet⟩
    · rw [hContinues.parent] at hb
      rcases hTree.child c x b hGet hb with ⟨y, hy, hChild⟩
      have hNe : b ≠ c := Nat.ne_of_lt hChild.lt
      exact ⟨y, (hOther b hNe).trans hy,
        hChild.continues hContinues⟩
    · rcases hTree.child c z b hOldGet hb with
        ⟨y, hy, hChild⟩
      by_cases hba : b = a
      · subst hba
        obtain rfl := Option.some.inj (hy.symm.trans hGet)
        rcases hPending with hChildless | hPending
        · exact absurd hb (hChildless c z hOldGet)
        · exact ⟨x', hSelf, hChild.change hIdle hPending⟩
      · exact ⟨y, (hOther b hba).trans hy, hChild⟩
  · intro b y c hy hCalling
    rcases hOld b y hy with ⟨-, rfl⟩ | ⟨-, hy⟩
    · exact absurd hCalling (hIdle' c)
    · rcases hTree.callee b y c hy hCalling with
        ⟨z, hz, hb, hHelper⟩
      by_cases hca : c = a
      · subst hca
        obtain rfl := Option.some.inj (hz.symm.trans hGet)
        exact ⟨x', hSelf, hContinues.parent.trans hb,
          hContinues.helper.trans hHelper⟩
      · exact ⟨z, (hOther c hca).trans hz, hb, hHelper⟩
  · intro c z hz hRoot
    rcases hOld c z hz with ⟨rfl, rfl⟩ | ⟨-, hz⟩
    · rw [hContinues.helper]
      exact hTree.root c x hGet
        (hContinues.parent.symm.trans hRoot)
    · exact hTree.root c z hz hRoot

/- A task goes on with a new task, its child. -/
theorem branch
    (hTree : Tree main t)
    (hGet : t.get a = some x)
    (hOk : x'.Ok main)
    (hContinues : x.Continues x')
    (hIdle : ∀ c, x.status ≠ .calling c)
    (hCalling : ∀ c, x'.status = .calling c →
      c = t.heap.next ∧ z.rest.isHelper = false)
    (hPending : t.Childless a ∨
      (x.pending ≠ none → x'.pending ≠ none))
    (hNewOk : z.Ok main)
    (hNewReady : z.status = .ready)
    (hNewParent : z.parent = some a)
    (hChild : Child t.heap.next z a x')
    (log : List Nat) :
    Tree main (t.branch a x' z log) := by
  let n := t.heap.next
  have hLive : ∀ c y, t.get c = some y → c ≠ n :=
    fun c y hy => Nat.ne_of_lt (Heap.lt_next hy)
  have hNew : (t.branch a x' z log).get n = some z := by
    rw [get_branch hGet, if_pos rfl]
  have hSelf : (t.branch a x' z log).get a = some x' := by
    rw [get_branch hGet, if_neg (hLive a x hGet),
      if_pos rfl]
  have hOther : ∀ c y, c ≠ a → t.get c = some y →
      (t.branch a x' z log).get c = some y := by
    intro c y hc hy
    rw [get_branch hGet, if_neg (hLive c y hy), if_neg hc]
    exact hy
  have hOld : ∀ c y, (t.branch a x' z log).get c = some y →
      (c = n ∧ y = z) ∨ (c = a ∧ y = x') ∨
        (c ≠ a ∧ t.get c = some y) := by
    intro c y hy
    rw [get_branch hGet] at hy
    split at hy
    · next hc => exact Or.inl ⟨hc, (Option.some.inj hy).symm⟩
    · split at hy
      · next hc =>
          exact Or.inr (Or.inl
            ⟨hc, (Option.some.inj hy).symm⟩)
      · next hc => exact Or.inr (Or.inr ⟨hc, hy⟩)
  refine ⟨?_, ?_, ?_, ?_⟩
  · intro c y hy
    rcases hOld c y hy with ⟨-, rfl⟩ | ⟨-, rfl⟩ | ⟨-, hy⟩
    · exact hNewOk
    · exact hOk
    · exact hTree.ok c y hy
  · intro c y b hy hb
    rcases hOld c y hy with ⟨rfl, rfl⟩ | ⟨rfl, rfl⟩ |
      ⟨-, hOldGet⟩
    · obtain rfl := Option.some.inj (hNewParent.symm.trans hb)
      exact ⟨x', hSelf, hChild⟩
    · rw [hContinues.parent] at hb
      rcases hTree.child c x b hGet hb with
        ⟨u, hu, hOldChild⟩
      exact ⟨u, hOther b u (Nat.ne_of_lt hOldChild.lt) hu,
        hOldChild.continues hContinues⟩
    · rcases hTree.child c y b hOldGet hb with
        ⟨u, hu, hOldChild⟩
      by_cases hba : b = a
      · subst hba
        obtain rfl := Option.some.inj (hu.symm.trans hGet)
        rcases hPending with hChildless | hPending
        · exact absurd hb (hChildless c y hOldGet)
        · exact ⟨x', hSelf, hOldChild.change hIdle hPending⟩
      · exact ⟨u, hOther b u hba hu, hOldChild⟩
  · intro b y c hy hStatus
    rcases hOld b y hy with ⟨rfl, rfl⟩ | ⟨rfl, rfl⟩ |
      ⟨-, hOldGet⟩
    · rw [hNewReady] at hStatus
      cases hStatus
    · rcases hCalling c hStatus with ⟨rfl, hHelper⟩
      exact ⟨z, hNew, hNewParent, hHelper⟩
    · rcases hTree.callee b y c hOldGet hStatus with
        ⟨u, hu, hParent, hHelper⟩
      by_cases hca : c = a
      · subst hca
        obtain rfl := Option.some.inj (hu.symm.trans hGet)
        exact ⟨x', hSelf, hContinues.parent.trans hParent,
          hContinues.helper.trans hHelper⟩
      · exact ⟨u, hOther c u hca hu, hParent, hHelper⟩
  · intro c y hy hRoot
    rcases hOld c y hy with ⟨rfl, rfl⟩ | ⟨rfl, rfl⟩ |
      ⟨-, hOldGet⟩
    · rw [hNewParent] at hRoot
      cases hRoot
    · rw [hContinues.helper]
      exact hTree.root c x hGet
        (hContinues.parent.symm.trans hRoot)
    · exact hTree.root c y hOldGet hRoot

/- A task outside of calls and spawns has no children. -/
theorem childless
    (hTree : Tree main t)
    (hGet : t.get a = some x)
    (hIdle : ∀ c, x.status ≠ .calling c)
    (hPending : x.pending = none) :
    t.Childless a := by
  intro c z hz ha
  rcases hTree.child c z a hz ha with ⟨y, hy, hChild⟩
  obtain rfl := Option.some.inj (hy.symm.trans hGet)
  cases hHelper : z.rest.isHelper with
  | true => exact hChild.spawned hHelper hPending
  | false => exact hIdle c (hChild.calling hHelper)

/- A task goes away. -/
theorem drop
    {t' : Tasks}
    (hTree : Tree main t)
    (hDrop : ∀ c,
      t'.get c = if c = a then none else t.get c)
    (hChildless : t.Childless a)
    (hNotCallee : ∀ b y, t.get b = some y →
      y.status ≠ .calling a) :
    Tree main t' := by
  have hOld : ∀ c y, t'.get c = some y →
      c ≠ a ∧ t.get c = some y := by
    intro c y hy
    rw [hDrop] at hy
    split at hy
    · cases hy
    · next hc => exact ⟨hc, hy⟩
  have hOther : ∀ c y, c ≠ a → t.get c = some y →
      t'.get c = some y := by
    intro c y hc hy
    rw [hDrop, if_neg hc]
    exact hy
  refine ⟨fun c y hy => hTree.ok c y (hOld c y hy).2, ?_, ?_,
    fun c y hy => hTree.root c y (hOld c y hy).2⟩
  · intro c y b hy hb
    rcases hTree.child c y b (hOld c y hy).2 hb with
      ⟨u, hu, hChild⟩
    have hba : b ≠ a := by
      rintro rfl
      exact hChildless c y (hOld c y hy).2 hb
    exact ⟨u, hOther b u hba hu, hChild⟩
  · intro b y c hy hStatus
    rcases hTree.callee b y c (hOld b y hy).2 hStatus with
      ⟨u, hu, hParent, hCallee⟩
    have hca : c ≠ a := by
      rintro rfl
      exact hNotCallee b y (hOld b y hy).2 hStatus
    exact ⟨u, hOther c u hca hu, hParent, hCallee⟩

/- A function returns to its caller. -/
theorem ret_of_parent
    (hTree : Tree main t)
    (hGet : t.get a = some x)
    (hParent : x.parent = some b)
    (hGetB : t.get b = some y)
    (hCalling : y.status = .calling a)
    (hChildless : t.Childless a) :
    Tree main (t.ret a x) := by
  have hba : b ≠ a := by
    rcases hTree.child a x b hGet hParent with ⟨_, -, hChild⟩
    exact Nat.ne_of_lt hChild.lt
  have hSelf : (t.ret a x).get b =
      some { y with status := .ready } := by
    rw [get_ret_of_parent hParent hGetB hba, if_pos rfl]
  have hOther : ∀ c u, c ≠ a → c ≠ b → t.get c = some u →
      (t.ret a x).get c = some u := by
    intro c u hca hcb hu
    rw [get_ret_of_parent hParent hGetB hba, if_neg hcb,
      if_neg hca]
    exact hu
  have hOld : ∀ c u, (t.ret a x).get c = some u →
      (c = b ∧ u = { y with status := .ready }) ∨
        (c ≠ b ∧ c ≠ a ∧ t.get c = some u) := by
    intro c u hu
    rw [get_ret_of_parent hParent hGetB hba] at hu
    split at hu
    · next hc => exact Or.inl ⟨hc, (Option.some.inj hu).symm⟩
    · next hcb =>
        split at hu
        · cases hu
        · next hca => exact Or.inr ⟨hcb, hca, hu⟩
  have hAhead : ({ y with status := .ready } : Task).ahead =
      y.ahead := by
    simp [Task.ahead, hCalling]
  have hTodo : ({ y with status := .ready } : Task).todo =
      y.todo := by
    simp [Task.todo, Task.ahead, hCalling]
  refine ⟨?_, ?_, ?_, ?_⟩
  · intro c u hu
    rcases hOld c u hu with ⟨rfl, rfl⟩ | ⟨-, -, hu⟩
    · exact (hTree.ok c y hGetB).ready hCalling
    · exact hTree.ok c u hu
  · intro c u d hu hd
    -- The parents of `b` and of the others.
    have hKeep : ∀ v v' : Task, t.get c = some v →
        v.parent = some d → v.Continues v' →
        (c ≠ a) →
        ∃ w, (t.ret a x).get d = some w ∧ Child c v' d w := by
      intro v v' hv hParentV hContinues hca
      rcases hTree.child c v d hv hParentV with
        ⟨w, hw, hChild⟩
      have hda : d ≠ a := by
        rintro rfl
        exact hChildless c v hv hParentV
      by_cases hdb : d = b
      · subst hdb
        obtain rfl := Option.some.inj (hw.symm.trans hGetB)
        have hHelper : v.rest.isHelper = true := by
          by_contra hNot
          have hStatus := hChild.calling (by simpa using hNot)
          rw [hCalling] at hStatus
          cases hStatus
          exact hca rfl
        refine ⟨_, hSelf, hChild.lt, ?_, ?_, ?_, ?_⟩
        · intro _
          exact hChild.spawned hHelper
        · simp [hContinues.helper, hHelper]
        · simp [hContinues.helper, hHelper]
        · simp [hContinues.helper, hHelper]
      · exact ⟨w, hOther d w hda hdb hw,
          hChild.continues hContinues⟩
    rcases hOld c u hu with ⟨rfl, rfl⟩ | ⟨-, hca, hu⟩
    · refine hKeep y _ hGetB hd ⟨rfl, rfl, ?_, ?_⟩ hba
      · rw [hAhead]
      · rw [hTodo]
    · exact hKeep u u hu hd ⟨rfl, rfl, rfl, rfl⟩ hca
  · intro d u c hu hStatus
    rcases hOld d u hu with ⟨rfl, rfl⟩ | ⟨hdb, -, hu⟩
    · cases hStatus
    · rcases hTree.callee d u c hu hStatus with
        ⟨v, hv, hParentV, hHelper⟩
      by_cases hcb : c = b
      · subst hcb
        obtain rfl := Option.some.inj (hv.symm.trans hGetB)
        exact ⟨_, hSelf, hParentV, hHelper⟩
      · have hca : c ≠ a := by
          rintro rfl
          obtain rfl := Option.some.inj (hv.symm.trans hGet)
          rw [hParent] at hParentV
          exact hdb (Option.some.inj hParentV).symm
        exact ⟨v, hOther c v hca hcb hv, hParentV, hHelper⟩
  · intro c u hu hRoot
    rcases hOld c u hu with ⟨rfl, rfl⟩ | ⟨-, -, hu⟩
    · exact hTree.root c y hGetB hRoot
    · exact hTree.root c u hu hRoot

/- Nobody is in a call of a helper or of the first task. -/
theorem not_callee
    (hTree : Tree main t)
    (hGet : t.get a = some x)
    (hNot : x.rest.isHelper = true ∨ x.parent = none) :
    ∀ b y, t.get b = some y → y.status ≠ .calling a := by
  intro b y hy hStatus
  rcases hTree.callee b y a hy hStatus with
    ⟨u, hu, hParent, hHelper⟩
  obtain rfl := Option.some.inj (hu.symm.trans hGet)
  rcases hNot with hNot | hNot
  · rw [hNot] at hHelper
    cases hHelper
  · rw [hNot] at hParent
    cases hParent

theorem ret
    (hTree : Tree main t)
    (hGet : t.get a = some x)
    (hReady : x.status = .ready)
    (hRest : x.rest = .ret) :
    Tree main (t.ret a x) := by
  have hNone : x.pending = none :=
    (hTree.ok a x hGet).closed (by simp [hReady])
      (by simp [hRest])
  have hChildless := hTree.childless hGet (by simp [hReady])
    hNone
  cases hParent : x.parent with
  | none =>
      exact hTree.drop (get_ret_of_root hParent) hChildless
        (hTree.not_callee hGet (Or.inr hParent))
  | some b =>
      rcases hTree.child a x b hGet hParent with
        ⟨y, hy, hChild⟩
      have hCalling := hChild.calling (by rw [hRest]; rfl)
      exact hTree.ret_of_parent hGet hParent hy hCalling
        hChildless

theorem step
    {t' : Tasks}
    (hTree : Tree main t)
    (hStep : Step t t') :
    Tree main t' := by
  cases hStep with
  | @call a x body next hGet hReady hCalls =>
      have hOk := hTree.ok a x hGet
      have hBody := (hOk.of_calls hReady hCalls).1
      have hLast := Rest.length_strands (.code body)
        (Code.Pending.none x.path)
      refine hTree.branch hGet (hOk.caller hReady hCalls _)
        (Task.Continues.caller hOk hReady hCalls _)
        (by simp [hReady]) ?_ (Or.inr id)
        (Task.Ok.fresh hBody) rfl rfl
        ⟨Heap.lt_next hGet, ?_, ?_, ?_, ?_⟩ _
      · intro c hc
        cases hc
        exact ⟨rfl, rfl⟩
      · intro hHelper
        cases hHelper
      · exact fun _ => rfl
      · exact fun _ => rfl
      · intro _
        rw [Task.todo_of_ready rfl]
        simp only [Task.fresh, Task.caller, hLast, Rest.size]
  | @startSpawn a x body rest hGet hReady hRest =>
      have hOk := hTree.ok a x hGet
      exact hTree.change hGet (hOk.spawner hReady hRest)
        (Task.Continues.spawner hOk hReady hRest)
        (by simp [hReady]) (by simp [Task.spawner])
        (Or.inr id) _
  | @spawn a x body rest hGet hSpawning hRest =>
      have hOk := hTree.ok a x hGet
      have hBody := (hOk.of_spawning hSpawning hRest).1
      refine hTree.branch hGet
        (hOk.continuation hSpawning hRest)
        (Task.Continues.continuation hOk hSpawning hRest)
        (by simp [hSpawning]) ?_
        (Or.inr fun _ => by simp [Task.continuation])
        (Task.Ok.fresh hBody) rfl rfl
        ⟨Heap.lt_next hGet, ?_, ?_, ?_, ?_⟩ _
      · intro c hc
        cases hc
      · simp [Task.continuation]
      · intro hHelper
        cases hHelper
      · intro hHelper
        cases hHelper
      · intro hHelper
        cases hHelper
  | @sync a x next hGet hReady hSyncs hChildless =>
      have hOk := hTree.ok a x hGet
      exact hTree.change hGet (hOk.synced hReady hSyncs)
        (Task.Continues.synced hOk hReady hSyncs)
        (by simp [hReady]) (by simp [Task.synced, hReady])
        (Or.inl hChildless) _
  | @wait a x next hGet hReady hSyncs hPending =>
      have hOk := hTree.ok a x hGet
      exact hTree.change hGet
        (hOk.waiter hReady hSyncs hPending)
        (Task.Continues.waiter hOk hReady hSyncs hPending)
        (by simp [hReady]) (by simp [Task.waiter])
        (Or.inr id) _
  | @wake a x hGet hWaiting hChildless =>
      have hOk := hTree.ok a x hGet
      exact hTree.change hGet (hOk.woken hWaiting)
        (Task.Continues.woken hWaiting)
        (by simp [hWaiting]) (by simp [Task.woken])
        (Or.inl hChildless) _
  | ret hGet hReady hRest => exact hTree.ret hGet hReady hRest
  | @leave a x hGet hReady hRest =>
      have hOk := hTree.ok a x hGet
      exact hTree.change hGet (hOk.left hReady hRest)
        (Task.Continues.left hOk hReady hRest)
        (by simp [hReady]) (by simp [Task.left, hReady])
        (Or.inr id) _
  | @join a x hGet hReady hGone =>
      have hNone : x.pending = none :=
        (hTree.ok a x hGet).closed (by simp [hReady])
          (by simp [hGone])
      refine hTree.drop (get_join a)
        (hTree.childless hGet (by simp [hReady]) hNone)
        (hTree.not_callee hGet (Or.inl ?_))
      rw [hGone]
      rfl

theorem initial (main : Code) :
    Tree main (Tasks.initial main) := by
  have hOld : ∀ a x, (Tasks.initial main).get a = some x →
      x = Task.first main :=
    fun a x hGet => (get_initial hGet).2
  refine ⟨?_, ?_, ?_, ?_⟩
  · intro a x hGet
    rw [hOld a x hGet]
    refine ⟨?_, Code.Pending.none [], ?_, ?_, ?_,
      fun _ => rfl⟩
    · exact List.prefix_refl _
    · intro h
      cases h
    · exact fun _ _ => rfl
    · intro h
      cases h
  · intro c x b hGet hParent
    rw [hOld c x hGet] at hParent
    cases hParent
  · intro b y c hGet hStatus
    rw [hOld b y hGet] at hStatus
    cases hStatus
  · intro c x hGet _
    rw [hOld c x hGet]
    rfl

end Tree

end Tasks

end WorkStealing

end PRacer
