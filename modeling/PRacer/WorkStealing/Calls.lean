import PRacer.WorkStealing.Steps

/-
  A call and the start of a sync are steps of tasks.  The
  other steps use the same parts: one activation changes in
  the hands of a worker, or it gets a child.

  Main declarations:
    * `After`, `Simulates.running`
    * `Simulates.touches_own`, `Simulates.moves_own`
    * `Simulates.touches_branch`, `Simulates.moves_branch`
    * `Simulates.call`, `Simulates.startSync`
-/

------------------------------------------------------------
-- Activations
------------------------------------------------------------

namespace PRacer

open Foundations

namespace WorkStealing

variable {Worker : Type}

theorem Rest.Calls.next_not_gone
    {r next : Rest} {body : Code}
    (h : r.Calls body next) :
    next ≠ .gone := by
  cases h <;> simp

theorem Rest.Syncs.next_not_gone
    {r next : Rest}
    (h : r.Syncs next) :
    next ≠ .gone := by
  cases h <;> simp

theorem Rest.Syncs.not_helper
    {r next : Rest}
    (h : r.Syncs next) :
    r.isHelper = false := by
  cases h <;> rfl

theorem get_change_act
    {acts : Heap (Activation Worker)} {a : Nat}
    {act : Activation Worker}
    {F : Activation Worker → Activation Worker}
    (hAct : acts.get a = some act) (b : Nat) :
    (acts.modify a F).get b =
      if b = a then some (F act) else acts.get b := by
  rw [Heap.get_modify]
  by_cases hb : b = a
  · simp [hb, hAct]
  · simp [hb]

theorem get_branch_act
    {acts : Heap (Activation Worker)} {a : Nat}
    {act new : Activation Worker}
    {F : Activation Worker → Activation Worker}
    (hAct : acts.get a = some act) (b : Nat) :
    ((acts.modify a F).alloc new).get b =
      if b = acts.next then some new
      else if b = a then some (F act)
      else acts.get b := by
  by_cases hb : b = acts.next
  · subst hb
    rw [if_pos rfl]
    exact Heap.get_alloc_self new
  · rw [if_neg hb, ← get_change_act hAct]
    exact Heap.get_alloc_of_ne new hb

theorem Control.of_holder
    {k : Control Worker} {w : Worker}
    (h : k.holder = some w) :
    (∀ v, k.holder = some v → v = w) ∧
      (∀ c v, k ≠ .spawned c v) ∧ ∀ c, k ≠ .calling c := by
  refine ⟨fun v hv => ?_, ?_, ?_⟩
  · rw [h] at hv
    exact (Option.some.inj hv).symm
  · rintro c v rfl
    cases h
  · rintro c rfl
    cases h

/- What a step of one worker leaves behind. -/
structure After
    (s s' : State Worker) (w : Worker) (x : WorkerState)
    (acts : Heap (Activation Worker))
    (strands : List Strand) : Prop where
  orders : s'.orders = s.orders
  acts : s'.acts = acts
  self : s'.workers w = x
  other : ∀ u, u ≠ w → s'.workers u = s.workers u
  strands : s'.strands = strands

variable {main : Code} {L : Layout} {t : Tasks}
variable {s : State Worker} {a : Nat} {w : Worker}

/- A new activation has no helpers. -/
theorem Good.fresh
    {t' : Tasks} {r : Rest} {i leaf parent : Nat} {p : Path}
    (hGone : r ≠ .gone)
    (hNone : ∀ c, ¬ t'.HelperOf c i) :
    Good t' i (State.activation r leaf parent (.running w))
      (Task.fresh r leaf p parent) :=
  { rest := rfl
    leaf := rfl
    parent := rfl
    status := rfl
    gone := by simp [State.activation, Task.fresh, hGone]
    counter := rfl
    nodup := List.nodup_nil
    children := fun c => by
      simp [State.activation, hNone]
    spawned := fun _ _ hEq => by cases hEq
    stolen := fun hNe => absurd rfl hNe
    suspended := fun hEq => by cases hEq
    waiting := fun hEq => by cases hEq
    unsynched := fun hEq => by cases hEq }

/- The parent of a new helper, behind the spawn. -/
theorem Good.continuation
    {t' : Tasks} {act : Activation Worker} {x : Task}
    {n : Nat}
    (h : Good t a act x)
    (body rest : Code)
    (hControl : act.control = .detaching w)
    (hNone : t.get n = none)
    (hHelpers : ∀ b c, t'.HelperOf c b ↔
      (c = n ∧ b = a) ∨ t.HelperOf c b) :
    Good t' a
      { act with
        rest := .code rest
        leaf := act.leaf + (1 + body.spTree.size + 1)
        control := .spawned n w }
      (x.continuation body rest) := by
  have hCounter := h.counter
  have hChildren := h.children
  rw [hControl] at hCounter hChildren
  exact
    { rest := rfl
      leaf := by simp [Task.continuation, h.leaf]
      parent := h.parent
      status := rfl
      gone := by simp [Task.continuation]
      counter := hCounter
      nodup := h.nodup
      children := fun c => by
        rw [hHelpers, hChildren c]
        constructor
        · rintro ⟨hOld, -⟩
          refine ⟨Or.inr hOld, ?_⟩
          rintro v hc
          cases hc
          rcases hOld with ⟨z, hz, -⟩
          rw [hNone] at hz
          cases hz
        · rintro ⟨⟨rfl, -⟩ | hOld, hNot⟩
          · exact absurd rfl (hNot w)
          · exact ⟨hOld, by simp⟩
      spawned := fun c v hc => by
        cases hc
        exact (hHelpers a _).mpr (Or.inl ⟨rfl, rfl⟩)
      stolen := h.stolen
      suspended := fun hEq => by cases hEq
      waiting := fun hEq => by cases hEq
      unsynched := fun _ => by simp [Task.continuation] }

/- A sync with nothing to wait for. -/
theorem Good.synced
    {t' : Tasks} {act : Activation Worker} {x : Task}
    {next : Rest}
    (h : Good t a act x)
    (hControl : act.control = .running w)
    (hReady : x.status = .ready)
    (hSyncs : x.rest.Syncs next)
    (hUnsynched : act.unsynched = false)
    (hHelpers : ∀ b c, t'.HelperOf c b ↔ t.HelperOf c b) :
    Good t' a
      { act with
        rest := next
        leaf := act.leaf + 1
        control := .running w } (x.synced next) := by
  have hCounter := h.counter
  have hChildren := h.children
  rw [hControl] at hCounter hChildren
  exact
    { rest := rfl
      leaf := by simp [Task.synced, h.leaf]
      parent := h.parent
      status := hReady.symm
      gone := by simp [Task.synced, hSyncs.next_not_gone]
      counter := hCounter
      nodup := h.nodup
      children := fun c => by rw [hHelpers, hChildren c]
      spawned := fun _ _ hEq => by cases hEq
      stolen := h.stolen
      suspended := fun hEq => by cases hEq
      waiting := fun hEq => by simp [Task.synced, hReady] at hEq
      unsynched := fun hEq =>
        absurd (hUnsynched.symm.trans hEq) (by simp) }

/- A sync that goes into the runtime. -/
theorem Good.waiter
    {t' : Tasks} {act : Activation Worker} {x : Task}
    {next : Rest}
    (h : Good t a act x)
    (hControl : act.control = .running w)
    (hSyncs : x.rest.Syncs next)
    (hUnsynched : act.unsynched = true)
    (hHelpers : ∀ b c, t'.HelperOf c b ↔ t.HelperOf c b) :
    Good t' a
      { act with
        rest := next
        leaf := act.leaf + 1
        control := .syncing w } (x.waiter next) := by
  have hCounter := h.counter
  have hChildren := h.children
  rw [hControl] at hCounter hChildren
  exact
    { rest := rfl
      leaf := by simp [Task.waiter, h.leaf]
      parent := h.parent
      status := rfl
      gone := by simp [Task.waiter, hSyncs.next_not_gone]
      counter := hCounter
      nodup := h.nodup
      children := fun c => by
        rw [hHelpers, hChildren c]
        simp
      spawned := fun _ _ hEq => by cases hEq
      stolen := h.stolen
      suspended := fun hEq => by cases hEq
      waiting := fun _ => hUnsynched
      unsynched := h.unsynched }

namespace Simulates

------------------------------------------------------------
-- Parts of Steps
------------------------------------------------------------

/- A worker that runs. -/
theorem running
    (h : Simulates main L t s)
    (hPc : (s.workers w).pc = .running a) :
    ∃ act x f fs, s.acts.get a = some act ∧
      act.control = .running w ∧ Good t a act x ∧
      x.status = .ready ∧ x.rest ≠ .gone ∧
      (s.see L t).Running w (s.workers w) a x f fs := by
  have hStack := h.shadows w
  unfold View.Stack at hStack
  rw [hPc] at hStack
  rcases hStack with ⟨x, f, fs, hRunning⟩
  rcases h.held_by (w := w) (a := a) (k := .running w)
    (by rw [hPc]; rfl) with ⟨act, u, hAct, hControl, hu, hGood⟩
  obtain rfl := Option.some.inj (hu.symm.trans hRunning.get)
  refine ⟨act, u, f, fs, hAct, hControl, hGood, ?_, ?_,
    hRunning⟩
  · rw [← hGood.status, hControl]
    rfl
  · intro hGone
    rcases hGood.gone.mp hGone with ⟨v, hv⟩
    rw [hControl] at hv
    cases hv

/- The strand that it executes stands at the path. -/
theorem strand_of
    (h : Simulates main L t s)
    {act : Activation Worker} {x : Task} {f : FrameData}
    {fs : List FrameData}
    (hGood : Good t a act x)
    (hReady : x.status = .ready)
    (hGone : x.rest ≠ .gone)
    (hRunning :
      (s.see L t).Running w (s.workers w) a x f fs) :
    ∃ new : Strand, s.strand w act =
        some { s with strands := s.strands ++ [new] } ∧
      new.leaf = x.leaf ∧
      ∃ p, (walkOf main)[new.leaf]? = some p ∧
        L.At s.orders (new.english, new.hebrew) p := by
  rcases State.strand_eq act hRunning.frames
    hRunning.frame with ⟨e, k, hAt, hStrand⟩
  refine ⟨⟨act.leaf, e, k⟩, hStrand, hGood.leaf, x.path, ?_,
    hAt⟩
  have hOk := h.sound.tree.ok a x hRunning.get
  exact hGood.leaf ▸ hOk.path_of_ready hReady hGone

/- The new strand, as `Moves` wants it. -/
theorem strands_of
    {s' : State Worker} {t' : Tasks} {new : Strand} {x : Task}
    (hOrders : s'.orders = s.orders)
    (hStrands : s'.strands = s.strands ++ [new])
    (hLog : t'.log = t.log ++ [x.leaf])
    (hLeaf : new.leaf = x.leaf)
    (hNew : ∃ p, (walkOf main)[new.leaf]? = some p ∧
      L.At s.orders (new.english, new.hebrew) p) :
    ∃ new : List Strand, s'.strands = s.strands ++ new ∧
      t'.log = t.log ++ new.map Strand.leaf ∧
      ∀ y ∈ new, ∃ p, (walkOf main)[y.leaf]? = some p ∧
        L.At s'.orders (y.english, y.hebrew) p := by
  refine ⟨[new], hStrands, ?_, ?_⟩
  · rw [hLog, List.map_singleton, hLeaf]
  · intro y hy
    rw [List.mem_singleton.mp hy, hOrders]
    exact hNew

/- Without a continuation or a call, all children are listed. -/
theorem childless
    (h : Simulates main L t s)
    {act : Activation Worker} {x : Task}
    (hGet : t.get a = some x)
    (hGood : Good t a act x)
    (hUnspawned : ∀ c v, act.control ≠ .spawned c v)
    (hIdle : ∀ c, x.status ≠ .calling c)
    (hEmpty : act.children = []) :
    t.Childless a := by
  intro c y hy hParent
  rcases h.sound.tree.child c y a hy hParent with
    ⟨u, hu, hChild⟩
  obtain rfl := Option.some.inj (hGet.symm.trans hu)
  cases hHelper : y.rest.isHelper with
  | true =>
      have hMem := (hGood.children c).mpr
        ⟨⟨y, hy, hParent, hHelper⟩, hUnspawned c⟩
      rw [hEmpty] at hMem
      cases hMem
  | false => exact hIdle c (hChild.calling hHelper)

/- The frames of a worker below the one that it works on. -/
theorem keeps_at
    {L' : Layout} {s' : State Worker} {t' : Tasks}
    {act : Activation Worker} {M : Worker → Prop} {j : Nat}
    (hTouches :
      View.Touches (s.see L t) (s'.see L' t') M a j)
    (hEnglish : ∀ n p, L.EnglishAt s.orders n p →
      L'.EnglishAt s'.orders n p)
    (hHebrew : ∀ n p, L.HebrewAt s.orders n p →
      L'.HebrewAt s'.orders n p)
    (hCarried : t.Carried t')
    (hAct : s.acts.get a = some act)
    (hHolder : act.control.holder = some w)
    (hNew : j = a ∨ s.acts.get j = none)
    (v : Worker) :
    View.Keeps (s.see L t) (s'.see L' t') v := by
  refine hTouches.keeps_of hEnglish hHebrew hCarried ?_
  intro b c u hb hu hControl _
  have hba : b = a := by
    rcases hb with hb | rfl
    · exact hb
    · rcases hNew with hNew | hNone
      · exact hNew
      · rw [State.see, hNone] at hu
        cases hu
  subst hba
  obtain rfl := Option.some.inj (hAct.symm.trans hu)
  rcases Control.of_holder hHolder with ⟨-, hSpawned, hCall⟩
  rcases hControl with hControl | hControl
  · exact absurd hControl (hCall c)
  · exact absurd hControl (hSpawned c v)

theorem keeps_own
    {s' : State Worker} {t' : Tasks} {act : Activation Worker}
    {M : Worker → Prop} {j : Nat}
    (hTouches :
      View.Touches (s.see L t) (s'.see L t') M a j)
    (hOrders : s'.orders = s.orders)
    (hCarried : t.Carried t')
    (hAct : s.acts.get a = some act)
    (hHolder : act.control.holder = some w)
    (hNew : j = a ∨ s.acts.get j = none)
    (v : Worker) :
    View.Keeps (s.see L t) (s'.see L t') v := by
  refine keeps_at hTouches ?_ ?_ hCarried hAct hHolder hNew v
  · rw [hOrders]
    exact fun _ _ h => h
  · rw [hOrders]
    exact fun _ _ h => h

/- One activation changes, in the hands of one worker. -/
theorem touches_own
    (L' : Layout)
    {s' : State Worker} {t' : Tasks}
    {act act' : Activation Worker} {x' : Task}
    {M : Worker → Prop}
    (hAct : s.acts.get a = some act)
    (hHolder : act.control.holder = some w)
    (hw : M w)
    (hActs : ∀ b, s'.acts.get b =
      if b = a then some act' else s.acts.get b)
    (hTasks : ∀ b, t'.get b =
      if b = a then some x' else t.get b)
    (hMine : ∀ v, act'.control.holder = some v → M v)
    (hUnspawned : ∀ c v, act'.control ≠ .spawned c v) :
    View.Touches (s.see L t) (s'.see L' t') M a a where
  acts b hi _ := by
    rw [State.see, State.see, hActs, if_neg hi]
  tasks b hi _ := by
    rw [State.see, State.see, hTasks, if_neg hi]
  old b u hb hu := by
    obtain rfl : b = a := hb.elim id id
    obtain rfl := Option.some.inj (hAct.symm.trans hu)
    rcases Control.of_holder hHolder with
      ⟨hOnly, hSpawned, hCall⟩
    exact Or.inr ⟨fun v hv => hOnly v hv ▸ hw,
      fun c v hc => absurd hc (hSpawned c v),
      fun c hc => absurd hc (hCall c)⟩
  new b u hb hu := by
    obtain rfl : b = a := hb.elim id id
    rw [State.see, hActs, if_pos rfl] at hu
    obtain rfl := Option.some.inj hu
    exact Or.inr ⟨hMine,
      fun c v hc => absurd hc (hUnspawned c v)⟩

/- The rest of such a step. -/
theorem moves_own
    {L' : Layout} {s' : State Worker} {t' : Tasks}
    {act' : Activation Worker} {x' : Task}
    {M : Worker → Prop}
    (h : Simulates main L t s)
    (hTouches :
      View.Touches (s.see L t) (s'.see L' t') M a a)
    (hBefore : ∀ v b k, M v →
      (s.workers v).pc.holds v = some (b, k) → b = a)
    (hReach : (taskSystem main).Reachable t')
    (hCarried : t.Carried t')
    (hActs : ∀ b, s'.acts.get b =
      if b = a then some act' else s.acts.get b)
    (hNextA : s'.acts.next = s.acts.next)
    (hTasks : ∀ b, t'.get b =
      if b = a then some x' else t.get b)
    (hNextT : t'.heap.next = t.heap.next)
    (hHelpers : ∀ b c, t'.HelperOf c b ↔ t.HelperOf c b)
    (hGood : Good t' a act' x')
    (hOther : ∀ v, ¬ M v → s'.workers v = s.workers v)
    (hHolder : ∀ v, act'.control.holder = some v →
      (s'.workers v).pc.holds v = some (a, act'.control))
    (hHolds : ∀ v b k, M v →
      (s'.workers v).pc.holds v = some (b, k) →
      b = a ∧ k = act'.control)
    (hStack : ∀ v, M v →
      (s'.see L' t').Stack v (s'.workers v))
    (hOpens : x'.Opens L')
    (hStrands : ∃ new : List Strand,
      s'.strands = s.strands ++ new ∧
      t'.log = t.log ++ new.map Strand.leaf ∧
      ∀ y ∈ new, ∃ p, (walkOf main)[y.leaf]? = some p ∧
        L'.At s'.orders (y.english, y.hebrew) p) :
    Moves main L t s L' t' s' M a a := by
  have hActA := hActs a
  rw [if_pos rfl] at hActA
  have hTaskA := hTasks a
  rw [if_pos rfl] at hTaskA
  exact
    { reach := hReach
      touches := hTouches
      carried := hCarried
      next := by rw [hNextA, hNextT, h.acts.next]
      good := fun b u hb hu => by
        obtain rfl : b = a := hb.elim id id
        obtain rfl := Option.some.inj (hActA.symm.trans hu)
        exact ⟨_, hTaskA, hGood⟩
      live := fun b u hb _ => by
        obtain rfl : b = a := hb.elim id id
        exact ⟨_, hActA⟩
      helpers := fun b c _ _ => hHelpers b c
      workers := hOther
      before := fun v b k hv hHolds =>
        Or.inl (hBefore v b k hv hHolds)
      holder := fun b u v hb hu hv => by
        obtain rfl : b = a := hb.elim id id
        obtain rfl := Option.some.inj (hActA.symm.trans hu)
        exact hHolder v hv
      holds := fun v b k hv hNew => by
        rcases hHolds v b k hv hNew with ⟨rfl, rfl⟩
        exact ⟨_, hActA, rfl⟩
      shadows := hStack
      opens := fun b u hb hu => by
        obtain rfl : b = a := hb.elim id id
        obtain rfl := Option.some.inj (hTaskA.symm.trans hu)
        exact hOpens
      strands := hStrands }

/- The activation gets a child, and the worker goes there. -/
theorem touches_branch
    (L' : Layout)
    {s' : State Worker} {t' : Tasks}
    {act act' new : Activation Worker} {x' z : Task}
    (hAct : s.acts.get a = some act)
    (hHolder : act.control.holder = some w)
    (hNext : s.acts.next = t.heap.next)
    (hActs : ∀ b, s'.acts.get b =
      if b = t.heap.next then some new
      else if b = a then some act' else s.acts.get b)
    (hTasks : ∀ b, t'.get b =
      if b = t.heap.next then some z
      else if b = a then some x' else t.get b)
    (hFree : act'.control.holder = none)
    (hSpawned : ∀ c v, act'.control = .spawned c v →
      c = t.heap.next)
    (hNew : new.control = .running w) :
    View.Touches (s.see L t) (s'.see L' t') (· = w) a
      t.heap.next where
  acts b hi hj := by
    rw [State.see, State.see, hActs, if_neg hj, if_neg hi]
  tasks b hi hj := by
    rw [State.see, State.see, hTasks, if_neg hj, if_neg hi]
  old b u hb hu := by
    rcases hb with rfl | rfl
    · obtain rfl := Option.some.inj (hAct.symm.trans hu)
      rcases Control.of_holder hHolder with
        ⟨hOnly, hUnspawned, hCall⟩
      exact Or.inr ⟨hOnly,
        fun c v hc => absurd hc (hUnspawned c v),
        fun c hc => absurd hc (hCall c)⟩
    · rw [State.see, ← hNext,
        Heap.get_eq_none (Nat.le_refl _)] at hu
      cases hu
  new b u hb hu := by
    have han : a ≠ t.heap.next :=
      hNext ▸ Nat.ne_of_lt (Heap.lt_next hAct)
    rw [State.see, hActs] at hu
    rcases hb with rfl | rfl
    · rw [if_neg han, if_pos rfl] at hu
      obtain rfl := Option.some.inj hu
      refine Or.inr ⟨?_, ?_⟩
      · intro v hv
        rw [hFree] at hv
        cases hv
      · intro c v hc
        rw [hSpawned c v hc]
        exact Heap.get_eq_none (Nat.le_refl _)
    · rw [if_pos rfl] at hu
      obtain rfl := Option.some.inj hu
      rw [hNew]
      refine Or.inr ⟨?_, by simp⟩
      intro v hv
      exact (Option.some.inj hv).symm

/- The rest of such a step. -/
theorem moves_branch
    {L' : Layout} {s' : State Worker} {t' : Tasks}
    {act act' new : Activation Worker} {x' z : Task}
    (h : Simulates main L t s)
    (hAct : s.acts.get a = some act)
    (hTouches : View.Touches (s.see L t) (s'.see L' t')
      (· = w) a t.heap.next)
    (hBefore : ∀ b k,
      (s.workers w).pc.holds w = some (b, k) → b = a)
    (hReach : (taskSystem main).Reachable t')
    (hCarried : t.Carried t')
    (hActs : ∀ b, s'.acts.get b =
      if b = t.heap.next then some new
      else if b = a then some act' else s.acts.get b)
    (hNextA : s'.acts.next = s.acts.next + 1)
    (hTasks : ∀ b, t'.get b =
      if b = t.heap.next then some z
      else if b = a then some x' else t.get b)
    (hNextT : t'.heap.next = t.heap.next + 1)
    (hHelpers : ∀ b c, b ≠ a → b ≠ t.heap.next →
      (t'.HelperOf c b ↔ t.HelperOf c b))
    (hGoodA : Good t' a act' x')
    (hGoodN : Good t' t.heap.next new z)
    (hOther : ∀ v, v ≠ w → s'.workers v = s.workers v)
    (hFree : act'.control.holder = none)
    (hNew : new.control = .running w)
    (hPc : (s'.workers w).pc = .running t.heap.next)
    (hStack : (s'.see L' t').Stack w (s'.workers w))
    (hOpensA : x'.Opens L')
    (hOpensN : z.Opens L')
    (hStrands : ∃ new : List Strand,
      s'.strands = s.strands ++ new ∧
      t'.log = t.log ++ new.map Strand.leaf ∧
      ∀ y ∈ new, ∃ p, (walkOf main)[y.leaf]? = some p ∧
        L'.At s'.orders (y.english, y.hebrew) p) :
    Moves main L t s L' t' s' (· = w) a t.heap.next := by
  have han : a ≠ t.heap.next :=
    h.acts.next ▸ Nat.ne_of_lt (Heap.lt_next hAct)
  have hActA := hActs a
  rw [if_neg han, if_pos rfl] at hActA
  have hActN := hActs t.heap.next
  rw [if_pos rfl] at hActN
  have hTaskA := hTasks a
  rw [if_neg han, if_pos rfl] at hTaskA
  have hTaskN := hTasks t.heap.next
  rw [if_pos rfl] at hTaskN
  exact
    { reach := hReach
      touches := hTouches
      carried := hCarried
      next := by rw [hNextA, hNextT, h.acts.next]
      good := fun b u hb hu => by
        rcases hb with rfl | rfl
        · obtain rfl := Option.some.inj (hActA.symm.trans hu)
          exact ⟨_, hTaskA, hGoodA⟩
        · obtain rfl := Option.some.inj (hActN.symm.trans hu)
          exact ⟨_, hTaskN, hGoodN⟩
      live := fun b u hb hu => by
        rcases hb with rfl | rfl
        · exact ⟨_, hActA⟩
        · exact ⟨_, hActN⟩
      helpers := hHelpers
      workers := hOther
      before := fun u b k hu hHolds => by
        subst hu
        exact Or.inl (hBefore b k hHolds)
      holder := fun b u v hb hu hv => by
        rcases hb with rfl | rfl
        · obtain rfl := Option.some.inj (hActA.symm.trans hu)
          rw [hFree] at hv
          cases hv
        · obtain rfl := Option.some.inj (hActN.symm.trans hu)
          rw [hNew] at hv ⊢
          cases hv
          rw [hPc]
          rfl
      holds := fun u b k hu hHolds => by
        subst hu
        rw [hPc] at hHolds
        cases hHolds
        exact ⟨_, hActN, hNew⟩
      shadows := fun u hu => hu ▸ hStack
      opens := fun b u hb hu => by
        rcases hb with rfl | rfl
        · obtain rfl := Option.some.inj (hTaskA.symm.trans hu)
          exact hOpensA
        · obtain rfl := Option.some.inj (hTaskN.symm.trans hu)
          exact hOpensN
      strands := hStrands }

------------------------------------------------------------
-- Calls and Syncs
------------------------------------------------------------

variable [DecidableEq Worker]

/- The worker goes on in the callee. -/
theorem call
    (h : Simulates main L t s)
    (hPc : (s.workers w).pc = .running a)
    {act : Activation Worker}
    (hAct : s.acts.get a = some act)
    {body : Code} {next : Rest}
    (hCalls : act.rest.Calls body next) :
    ∃ s' t', s.call w a act body next = some s' ∧
      Simulates main L t' s' := by
  rcases h.running hPc with
    ⟨u, x, f, fs, hu, hControl, hGood, hReady, hGone, hRunning⟩
  obtain rfl := Option.some.inj (hAct.symm.trans hu)
  clear hu
  rcases h.strand_of hGood hReady hGone hRunning with
    ⟨new, hStrand, hLeaf, hNew⟩
  have hGet : t.get a = some x := hRunning.get
  have hNext := h.acts.next
  have hCallsX : x.rest.Calls body next := hGood.rest ▸ hCalls
  have han : a ≠ t.heap.next := Nat.ne_of_lt (Heap.lt_next hGet)
  rcases State.hook_enter
    (s := { s with strands := s.strands ++ [new] })
    hRunning.frames hRunning.frame with ⟨g, hHook, hFrame⟩
  -- The new state.
  have hNewState : ∃ s', s.call w a act body next = some s' ∧
      After s s' w
        { s.workers w with
          frames := g :: f :: fs
          pc := .running t.heap.next }
        ((s.acts.modify a fun r =>
          { r with
            rest := next
            leaf := act.leaf + 1 + body.spTree.size
            control := .calling t.heap.next }).alloc
          (State.activation (.code body) (act.leaf + 1) a
            (.running w))) (s.strands ++ [new]) := by
    rw [← hNext]
    unfold State.call
    rw [hStrand, Option.bind_some, hHook, Option.map_some]
    refine ⟨_, rfl, rfl, rfl, ?_, ?_, rfl⟩
    · simp [State.setPc, State.setWorker, State.setFrames,
        State.modify]
    · intro u hu
      simp [State.setPc, State.setWorker, State.setFrames,
        State.modify, hu]
  rcases hNewState with ⟨s', hEq, hAfter⟩
  have hActs : ∀ b, s'.acts.get b =
      if b = t.heap.next then
        some (State.activation (.code body) (act.leaf + 1) a
          (.running w))
      else if b = a then
        some { act with
          rest := next
          leaf := act.leaf + 1 + body.spTree.size
          control := .calling t.heap.next }
      else s.acts.get b := by
    intro b
    rw [hAfter.acts, get_branch_act hAct, hNext]
  -- The new tasks.
  obtain ⟨t', hStep, hTasks, hHelpers, hNextT, hLog⟩ :
      ∃ t' : Tasks, t.Step t' ∧
        (∀ b, t'.get b =
          if b = t.heap.next then
            some (Task.fresh (.code body) (x.leaf + 1) x.path a)
          else if b = a then
            some (x.caller t.heap.next body next)
          else t.get b) ∧
        (∀ b c, t'.HelperOf c b ↔ t.HelperOf c b) ∧
        t'.heap.next = t.heap.next + 1 ∧
        t'.log = t.log ++ [x.leaf] := by
    refine ⟨_, Tasks.Step.call hGet hReady hCallsX,
      Tasks.get_branch hGet, ?_, rfl, rfl⟩
    intro b c
    rw [Tasks.helperOf_branch (x.caller t.heap.next body next)
      hGet rfl hCallsX.isHelper rfl]
    simp [Task.fresh, Rest.isHelper]
  have hCarried := hStep.carried h.sound.tree
  -- The activations and their tasks.
  have hGoodA : Good t' a
      ({ act with
        rest := next
        leaf := act.leaf + 1 + body.spTree.size
        control := .calling t.heap.next } :
          Activation Worker)
      (x.caller t.heap.next body next) := by
    have hCounter := hGood.counter
    have hChildren := hGood.children
    rw [hControl] at hCounter hChildren
    exact
      { rest := rfl
        leaf := by simp [Task.caller, hGood.leaf]
        parent := hGood.parent
        status := rfl
        gone := by simp [Task.caller, hCallsX.next_not_gone]
        counter := hCounter
        nodup := hGood.nodup
        children := fun c => by
          rw [hHelpers, hChildren c]
          simp
        spawned := fun _ _ hEq => by cases hEq
        stolen := hGood.stolen
        suspended := fun hEq => by cases hEq
        waiting := fun hEq => by cases hEq
        unsynched := hGood.unsynched }
  have hGoodN : Good t' t.heap.next
      (State.activation (.code body) (act.leaf + 1) a
        (.running w))
      (Task.fresh (.code body) (x.leaf + 1) x.path a) := by
    rw [hGood.leaf]
    refine Good.fresh (by simp) fun c => ?_
    rw [hHelpers]
    exact Tasks.not_helperOf_next h.sound.tree
  have hHolder : act.control.holder = some w := by
    rw [hControl]
    rfl
  have hTouches := touches_branch (L := L) L hAct hHolder
    hNext hActs hTasks rfl (by simp) rfl
  have hKeeps := keeps_own hTouches hAfter.orders hCarried hAct
    hHolder (Or.inr (hNext ▸ Heap.get_eq_none (Nat.le_refl _)))
    w
  have hActA := hActs a
  rw [if_neg han, if_pos rfl] at hActA
  have hActN := hActs t.heap.next
  rw [if_pos rfl] at hActN
  have hTaskA := hTasks a
  rw [if_neg han, if_pos rfl] at hTaskA
  have hTaskN := hTasks t.heap.next
  rw [if_pos rfl] at hTaskN
  have hOwn := hRunning.own.carry hKeeps
    ⟨by simp [State.see, hTaskA], act, _, hAct, hActA, id⟩
  have hFrameF := hRunning.frame.keep hKeeps.toCopies
  rw [← hCallsX.isHelper] at hFrameF
  have hStack : (s'.see L t').Stack w (s'.workers w) := by
    rw [hAfter.self]
    refine ⟨_, g, f :: fs, hTaskN, rfl, ?_, ?_⟩
    · exact hFrame.congr
        (congrArg ShadowStack.english hAfter.orders)
        (congrArg ShadowStack.hebrew hAfter.orders)
    · exact View.Own.caller ⟨⟨_, hTaskN, rfl, rfl⟩, hTaskA⟩
        hActN (fun h => by cases h) hActA rfl hFrameF hOwn
  have hOpens := h.opens a x hGet
  refine ⟨s', t', hEq, h.stay hAfter.orders (h.moves_branch
    hAct hTouches ?_ (hStep.reachable h.reach) hCarried hActs ?_
    hTasks hNextT (fun b c _ _ => hHelpers b c) hGoodA hGoodN
    hAfter.other rfl rfl ?_ hStack ⟨hOpens.1, fun _ h => by cases h⟩ ?_
    (strands_of hAfter.orders hAfter.strands hLog hLeaf
      hNew))⟩
  · intro b k hHolds
    rw [hPc] at hHolds
    cases hHolds
    rfl
  · rw [hAfter.acts, Heap.next_alloc, Heap.next_modify]
  · rw [hAfter.self]
  · exact ⟨(fun _ h => by cases h), fun _ _ => hOpens.2
      (Task.runs_of_ready hReady hGone) hReady⟩

/- A sync. -/
theorem startSync
    (h : Simulates main L t s)
    (hPc : (s.workers w).pc = .running a)
    {act : Activation Worker}
    (hAct : s.acts.get a = some act)
    {next : Rest}
    (hSyncs : act.rest.Syncs next) :
    ∃ s' t', s.startSync w a act next = some s' ∧
      Simulates main L t' s' := by
  rcases h.running hPc with
    ⟨u, x, f, fs, hu, hControl, hGood, hReady, hGone, hRunning⟩
  obtain rfl := Option.some.inj (hAct.symm.trans hu)
  clear hu
  rcases h.strand_of hGood hReady hGone hRunning with
    ⟨new, hStrand, hLeaf, hNew⟩
  have hGet : t.get a = some x := hRunning.get
  have hSyncsX : x.rest.Syncs next := hGood.rest ▸ hSyncs
  have hOk := h.sound.tree.ok a x hGet
  have hHelper := hSyncsX.not_helper
  have hFrameX := hRunning.frame
  rw [hHelper] at hFrameX
  rcases State.hook_sync
    (s := { s with strands := s.strands ++ [new] })
    hRunning.frames hFrameX with ⟨g, hHook, hFrame⟩
  -- The new state.
  obtain ⟨s', hEq, hAfter⟩ :
      ∃ s', s.startSync w a act next = some s' ∧
        After s s' w
          { s.workers w with
            frames := g :: fs
            pc :=
              if act.unsynched then .syncing a
              else .running a }
          (s.acts.modify a fun r =>
            { r with
              rest := next
              leaf := act.leaf + 1
              control :=
                if act.unsynched then .syncing w
                else .running w }) (s.strands ++ [new]) := by
    unfold State.startSync
    rw [hStrand, Option.bind_some, hHook, Option.map_some]
    refine ⟨_, rfl, rfl, rfl, ?_, ?_, rfl⟩
    · simp [State.setPc, State.setWorker, State.setFrames,
        State.modify]
    · intro u hu
      simp [State.setPc, State.setWorker, State.setFrames,
        State.modify, hu]
  have hHolder : act.control.holder = some w := by
    rw [hControl]
    rfl
  have hBefore : ∀ v b k, v = w →
      (s.workers v).pc.holds v = some (b, k) → b = a := by
    rintro v b k rfl hHolds
    rw [hPc] at hHolds
    cases hHolds
    rfl
  have hOpensX := h.opens a x hGet
  cases hUnsynched : act.unsynched with
  | false =>
      have hActs : ∀ b, s'.acts.get b =
          if b = a then some
            ({ act with
              rest := next
              leaf := act.leaf + 1
              control := .running w } : Activation Worker)
          else s.acts.get b := by
        intro b
        rw [hAfter.acts, get_change_act hAct]
        simp [hUnsynched]
      have hSelf := hAfter.self
      simp only [hUnsynched, Bool.false_eq_true, if_false]
        at hSelf
      have hEmpty : act.children = [] := by
        by_contra hNe
        rw [hGood.stolen hNe] at hUnsynched
        cases hUnsynched
      have hChildless := h.childless hGet hGood
        (by rw [hControl]; simp) (by rw [hReady]; simp)
        hEmpty
      obtain ⟨t', hStep, hTasks, hHelpers, hNextT, hLog⟩ :
          ∃ t' : Tasks, t.Step t' ∧
            (∀ b, t'.get b =
              if b = a then some (x.synced next)
              else t.get b) ∧
            (∀ b c, t'.HelperOf c b ↔ t.HelperOf c b) ∧
            t'.heap.next = t.heap.next ∧
            t'.log = t.log ++ [x.leaf] := by
        refine ⟨_, Tasks.Step.sync hGet hReady hSyncsX
          hChildless, Tasks.get_change hGet, ?_, rfl, rfl⟩
        intro b c
        exact Tasks.helperOf_change (x.synced next) hGet rfl
          hSyncsX.isHelper
      have hCarried := hStep.carried h.sound.tree
      have hGood' := hGood.synced hControl hReady hSyncsX
        hUnsynched hHelpers
      have hTouches := touches_own (L := L) L (M := (· = w)) hAct
        hHolder rfl hActs hTasks
        (fun v hv => (Option.some.inj hv).symm) (by simp)
      have hKeeps := keeps_own hTouches hAfter.orders hCarried
        hAct hHolder (Or.inl rfl) w
      have hActA := hActs a
      rw [if_pos rfl] at hActA
      have hTaskA := hTasks a
      rw [if_pos rfl] at hTaskA
      refine ⟨s', t', hEq, h.stay hAfter.orders (h.moves_own
        hTouches hBefore (hStep.reachable h.reach) hCarried hActs
        (by rw [hAfter.acts, Heap.next_modify]) hTasks hNextT
        hHelpers hGood' hAfter.other ?_ ?_ ?_ ?_
        (strands_of hAfter.orders hAfter.strands hLog hLeaf
          hNew))⟩
      · intro v hv
        cases hv
        rw [hSelf]
        rfl
      · rintro v b k rfl hHolds
        rw [hSelf] at hHolds
        cases hHolds
        exact ⟨rfl, rfl⟩
      · rintro v rfl
        rw [hSelf]
        refine ⟨_, g, fs, hTaskA, rfl, ?_, ?_⟩
        · have hFrame' := hFrame.congr
            (congrArg ShadowStack.english hAfter.orders)
            (congrArg ShadowStack.hebrew hAfter.orders)
          rw [← hHelper, ← hSyncsX.isHelper] at hFrame'
          exact hFrame'
        · exact hRunning.own.carry hKeeps
            ⟨by simp [State.see, hTaskA], act, _, hAct, hActA,
              id⟩
      · refine ⟨(fun _ h => by cases h), fun _ _ => ?_⟩
        cases hPending : x.pending with
        | none =>
            simp only [Task.synced, hPending, Option.getD_none]
            exact hOpensX.2 (Task.runs_of_ready hReady hGone)
              hReady
        | some q =>
            simp only [Task.synced, hPending, Option.getD_some]
            exact hOpensX.1 q hPending
  | true =>
      have hActs : ∀ b, s'.acts.get b =
          if b = a then some
            ({ act with
              rest := next
              leaf := act.leaf + 1
              control := .syncing w } : Activation Worker)
          else s.acts.get b := by
        intro b
        rw [hAfter.acts, get_change_act hAct]
        simp [hUnsynched]
      have hSelf := hAfter.self
      simp only [hUnsynched, if_true] at hSelf
      have hPending := hGood.unsynched hUnsynched
      obtain ⟨t', hStep, hTasks, hHelpers, hNextT, hLog⟩ :
          ∃ t' : Tasks, t.Step t' ∧
            (∀ b, t'.get b =
              if b = a then some (x.waiter next)
              else t.get b) ∧
            (∀ b c, t'.HelperOf c b ↔ t.HelperOf c b) ∧
            t'.heap.next = t.heap.next ∧
            t'.log = t.log ++ [x.leaf] := by
        refine ⟨_, Tasks.Step.wait hGet hReady hSyncsX
          hPending, Tasks.get_change hGet, ?_, rfl, rfl⟩
        intro b c
        exact Tasks.helperOf_change (x.waiter next) hGet rfl
          hSyncsX.isHelper
      have hCarried := hStep.carried h.sound.tree
      have hGood' := hGood.waiter hControl hSyncsX hUnsynched
        hHelpers
      have hTouches := touches_own (L := L) L (M := (· = w)) hAct
        hHolder rfl hActs hTasks
        (fun v hv => (Option.some.inj hv).symm) (by simp)
      have hKeeps := keeps_own hTouches hAfter.orders hCarried
        hAct hHolder (Or.inl rfl) w
      have hActA := hActs a
      rw [if_pos rfl] at hActA
      have hTaskA := hTasks a
      rw [if_pos rfl] at hTaskA
      have hDeque : (s.workers w).deque = [] := by
        have hNil := hRunning.own.of_unsynched hRunning.get
          hHelper hAct hUnsynched
        simpa using hNil
      have hOwn := hRunning.own.carry hKeeps
        ⟨by simp [State.see, hTaskA], act, _, hAct, hActA, id⟩
      rw [hDeque] at hOwn
      refine ⟨s', t', hEq, h.stay hAfter.orders (h.moves_own
        hTouches hBefore (hStep.reachable h.reach) hCarried hActs
        (by rw [hAfter.acts, Heap.next_modify]) hTasks hNextT
        hHelpers hGood' hAfter.other ?_ ?_ ?_ ?_
        (strands_of hAfter.orders hAfter.strands hLog hLeaf
          hNew))⟩
      · intro v hv
        cases hv
        rw [hSelf]
        rfl
      · rintro v b k rfl hHolds
        rw [hSelf] at hHolds
        cases hHolds
        exact ⟨rfl, rfl⟩
      · rintro v rfl
        rw [hSelf]
        exact ⟨_, g, fs, hTaskA, rfl, hFrame.congr
          (congrArg ShadowStack.english hAfter.orders)
          (congrArg ShadowStack.hebrew hAfter.orders), hOwn,
          hDeque⟩
      · exact ⟨hOpensX.1, fun _ h => by cases h⟩

end Simulates

end WorkStealing

end PRacer
