import Mathlib.Data.Nat.Find
import PRacer.WorkStealing.Thefts

/-
  All runs of the workers, with any thefts.

  Main declarations:
    * `Simulates.step`, `exists_simulates`
    * `workers_refine_tasks`
    * `steps_succeed`, `some_worker_goes_on`
    * `stolen_spOrder`, `strands_in_order`, `strands_complete`
    * `sync_counts`, `sync_nodes_agree`
-/

------------------------------------------------------------
-- Steps
------------------------------------------------------------

namespace PRacer

open Foundations

namespace WorkStealing

variable {Worker : Type} [DecidableEq Worker]
variable {main : Code} {L : Layout} {t : Tasks}
variable {s : State Worker} {a : Nat} {w w₀ : Worker}

namespace Simulates

theorem work_running
    (h : Simulates main L t s)
    (hPc : (s.workers w).pc = .running a) :
    ∃ s' L' t', s.work w = some s' ∧
      Simulates main L' t' s' := by
  rcases h.running hPc with
    ⟨act, x, f, fs, hAct, -, hGood, -, hGone, -⟩
  unfold State.work
  rw [hPc]
  simp only [hAct, Option.bind_some]
  cases hRest : act.rest with
  | code c =>
      cases c with
      | done =>
          rcases h.startSync hPc hAct
            (hRest ▸ Rest.Syncs.done) with ⟨s', t', hEq, h'⟩
          exact ⟨s', L, t', hEq, h'⟩
      | call body rest =>
          rcases h.call hPc hAct
            (hRest ▸ Rest.Calls.code body rest) with
            ⟨s', t', hEq, h'⟩
          exact ⟨s', L, t', hEq, h'⟩
      | spawn body rest => exact h.startDetach hPc hAct hRest
      | sync rest =>
          rcases h.startSync hPc hAct
            (hRest ▸ Rest.Syncs.sync rest) with
            ⟨s', t', hEq, h'⟩
          exact ⟨s', L, t', hEq, h'⟩
  | ret =>
      cases hParent : act.parent with
      | none =>
          rcases h.returnFromCall_root hPc hAct hRest hParent
            with ⟨s', t', hEq, h'⟩
          exact ⟨s', L, t', hEq, h'⟩
      | some b =>
          rcases h.returnFromCall_parent hPc hAct hRest hParent
            with ⟨s', t', hEq, h'⟩
          exact ⟨s', L, t', hEq, h'⟩
  | enter body =>
      rcases h.call hPc hAct
        (hRest ▸ Rest.Calls.enter body) with ⟨s', t', hEq, h'⟩
      exact ⟨s', L, t', hEq, h'⟩
  | leave =>
      by_cases hDeque : (s.workers w).deque = []
      · rcases h.leave_stolen hPc hAct hRest hDeque with
          ⟨s', t', hEq, h'⟩
        exact ⟨s', L, t', hEq, h'⟩
      · rcases h.leave_spawn hPc hAct hRest hDeque with
          ⟨s', t', hEq, h'⟩
        exact ⟨s', L, t', hEq, h'⟩
  | gone => exact absurd (hGood.rest.symm.trans hRest) hGone

theorem work_detaching
    (h : Simulates main L t s)
    {pc : DetachPc}
    (hPc : (s.workers w).pc = .detaching a pc) :
    ∃ s' L' t', s.work w = some s' ∧
      Simulates main L' t' s' := by
  rcases h.spawning_of hPc with ⟨act, x, hAct, -⟩
  unfold State.work
  rw [hPc]
  simp only [hAct, Option.bind_some]
  by_cases hLast : pc = .childHebrew
  · subst hLast
    exact h.detach_last hPc hAct
  · rcases h.detach_insert hPc hLast act with
      ⟨s', L', hEq, h'⟩
    exact ⟨s', L', t, hEq, h'⟩

/- No step fails, and all steps are steps of tasks. -/
theorem step
    (h : Simulates main L t s)
    {action : Action Worker}
    (hEnabled : enabled s action) :
    ∃ s' L' t', exec s action = some s' ∧
      Simulates main L' t' s' := by
  cases action with
  | work w =>
      rcases hEnabled with ⟨a, hPc⟩ | ⟨a, pc, hPc⟩
      · exact h.work_running hPc
      · exact h.work_detaching hPc
  | sync w master =>
      rcases hEnabled with ⟨⟨a, hPc⟩, hMaster⟩
      rcases h.sync hPc hMaster with ⟨s', t', hEq, h'⟩
      exact ⟨s', L, t', hEq, h'⟩
  | returnFromSpawn w master =>
      rcases hEnabled with ⟨⟨a, hPc⟩, hMaster⟩
      rcases h.returnFromSpawn hPc hMaster with
        ⟨s', t', hEq, h'⟩
      exact ⟨s', L, t', hEq, h'⟩
  | steal w v =>
      rcases h.steal hEnabled.1 hEnabled.2 with ⟨s', hEq, h'⟩
      exact ⟨s', L, t, hEq, h'⟩

theorem initial (w₀ : Worker) (main : Code) :
    Simulates main ShadowStack.baseLayout (Tasks.initial main)
      (WorkStealing.initial w₀ main) := by
  have hFirst : (WorkStealing.initial w₀ main).acts.get 0 =
      some
        { rest := .code main
          leaf := 0
          parent := none
          joinCounter := 1
          unsynched := false
          children := []
          control := .running w₀ } := rfl
  have hActs : ∀ a act,
      (WorkStealing.initial w₀ main).acts.get a = some act →
      a = 0 := by
    intro a act hAct
    have hLt := Heap.lt_next hAct
    simp [WorkStealing.initial, Heap.empty, Heap.alloc] at hLt
    exact hLt
  have hTask : (Tasks.initial main).get 0 =
      some (Task.first main) := rfl
  have hNoHelper : ∀ c,
      ¬ (Tasks.initial main).HelperOf c 0 := by
    rintro c ⟨x, hx, hParent, -⟩
    rcases Tasks.get_initial hx with ⟨-, rfl⟩
    cases hParent
  refine ⟨TransitionSystem.Reachable.of_init rfl,
    ⟨rfl, ?_, ?_⟩, ⟨?_, ?_⟩, ?_,
    ⟨Grown.singleton _ rfl, Grown.singleton _ rfl⟩, ?_,
    rfl, fun _ h => by cases h⟩
  · intro a act hAct
    obtain rfl := hActs a act hAct
    obtain rfl := Option.some.inj (hFirst.symm.trans hAct)
    exact ⟨Task.first main, hTask,
      { rest := rfl
        leaf := rfl
        parent := rfl
        status := rfl
        gone := by simp [Task.first]
        counter := rfl
        nodup := List.nodup_nil
        children := fun c => by simp [hNoHelper]
        spawned := fun _ _ hEq => by cases hEq
        stolen := fun hNe => absurd rfl hNe
        suspended := fun hEq => by cases hEq
        waiting := fun hEq => by cases hEq
        unsynched := fun hEq => by cases hEq }⟩
  · intro a x hx
    obtain ⟨rfl, -⟩ := Tasks.get_initial hx
    exact ⟨_, hFirst⟩
  · intro a act w hAct hHolder
    obtain rfl := hActs a act hAct
    obtain rfl := Option.some.inj (hFirst.symm.trans hAct)
    cases hHolder
    simp [WorkStealing.initial, WorkerPc.holds]
  · intro w a k hHolds
    by_cases hw : w = w₀
    · subst hw
      simp only [WorkStealing.initial, if_true,
        WorkerPc.holds, Option.some.injEq,
        Prod.mk.injEq] at hHolds
      rcases hHolds with ⟨rfl, rfl⟩
      exact ⟨_, hFirst, rfl⟩
    · simp [WorkStealing.initial, hw, WorkerPc.holds] at hHolds
  · intro w
    by_cases hw : w = w₀
    · subst hw
      have hWorker : (WorkStealing.initial w main).workers w =
          { frames := ShadowStack.initStrand.frames
            tail := 0
            deque := []
            pc := .running 0 } := by
        simp [WorkStealing.initial]
      rw [hWorker]
      refine ⟨Task.first main, _, [], hTask, rfl, ?_,
        View.Own.bottom (View.Below.root hTask rfl)⟩
      refine ⟨.node ?_, .empty, .empty, rfl⟩
      exact
        { mem_english := List.mem_singleton.mpr rfl
          mem_hebrew := List.mem_singleton.mpr rfl
          english := rfl
          hebrew := rfl }
    · simp [WorkStealing.initial, hw, View.Stack]
  · intro a x _
    exact ⟨fun _ _ _ _ h => h, fun _ _ _ _ h => h⟩

end Simulates

/- The workers simulate tasks in every run. -/
theorem exists_simulates
    (hReach : (workSystem w₀ main).Reachable s) :
    ∃ L t, Simulates main L t s := by
  refine hReach.invariant
    (P := fun s => ∃ L t, Simulates main L t s) ?_ ?_
  · rintro _ rfl
    exact ⟨_, _, Simulates.initial w₀ main⟩
  · rintro s action s' ⟨L, t, h⟩ ⟨hEnabled, hEq⟩
    rcases h.step hEnabled with ⟨s'', L', t', hEq', h'⟩
    obtain rfl := Option.some.inj (hEq.symm.trans hEq')
    exact ⟨L', t', h'⟩

------------------------------------------------------------
-- Runs
------------------------------------------------------------

def WorkerPc.isWorking : WorkerPc → Bool
| running _ => true
| detaching _ _ => true
| _ => false

def WorkerPc.isSyncing : WorkerPc → Bool
| syncing _ => true
| _ => false

def WorkerPc.isReturning : WorkerPc → Bool
| returning _ => true
| _ => false

omit [DecidableEq Worker] in
theorem enabled_work :
    (s.workers w).pc.isWorking = true ↔
      enabled s (.work w) := by
  unfold enabled
  cases hPc : (s.workers w).pc <;>
    simp [hPc, WorkerPc.isWorking]

omit [DecidableEq Worker] in
theorem enabled_sync {master : Option Worker} :
    ((s.workers w).pc.isSyncing = true ∧
      MasterWaits s w master) ↔
      enabled s (.sync w master) := by
  unfold enabled
  cases hPc : (s.workers w).pc <;>
    simp [hPc, WorkerPc.isSyncing]

omit [DecidableEq Worker] in
theorem enabled_returnFromSpawn {master : Option Worker} :
    ((s.workers w).pc.isReturning = true ∧
      MasterWaits s w master) ↔
      enabled s (.returnFromSpawn w master) := by
  unfold enabled
  cases hPc : (s.workers w).pc <;>
    simp [hPc, WorkerPc.isReturning]

instance (s : State Worker) (w : Worker)
    (master : Option Worker) :
    Decidable (MasterWaits s w master) :=
  inferInstanceAs (Decidable (∀ u ∈ master, _))

/- Runs can be checked. -/
instance (s : State Worker) (action : Action Worker) :
    Decidable (enabled s action) :=
  match action with
  | .work _ => decidable_of_iff _ enabled_work
  | .sync _ _ => decidable_of_iff _ enabled_sync
  | .returnFromSpawn _ _ =>
      decidable_of_iff _ enabled_returnFromSpawn
  | .steal w v =>
      inferInstanceAs (Decidable
        ((s.workers w).pc = .idle ∧ (s.workers v).deque ≠ []))

def perform (s : State Worker) (action : Action Worker) :
    Except Unit (State Worker) :=
  if enabled s action then
    (exec s action).elim (.error ()) .ok
  else .error ()

theorem reachable_of_perform
    (actions : List (Action Worker))
    (hRun : actions.foldlM perform (initial w₀ main) =
      Except.ok s) :
    (workSystem w₀ main).Reachable s := by
  refine TransitionSystem.Reachable.of_foldlM ?_
    (TransitionSystem.Reachable.of_init rfl) hRun
  intro s action s' hStep
  unfold perform at hStep
  split at hStep
  · next hEnabled =>
      cases hExec : exec s action with
      | none => simp [hExec] at hStep
      | some u =>
          simp only [hExec, Option.elim_some,
            Except.ok.injEq] at hStep
          exact ⟨hEnabled, hStep ▸ hExec⟩
  · cases hStep

/- What a run that was checked reaches. -/
theorem exists_of_run
    (w₀ : Worker) (main : Code)
    (actions : List (Action Worker))
    (check : State Worker → Bool)
    (hRun : (actions.foldlM perform
      (initial w₀ main)).toOption.map check = some true) :
    ∃ s, (workSystem w₀ main).Reachable s ∧
      check s = true := by
  rcases Option.map_eq_some_iff.mp hRun with
    ⟨s, hSome, hCheck⟩
  refine ⟨s, reachable_of_perform actions ?_, hCheck⟩
  cases hEq : actions.foldlM perform (initial w₀ main) with
  | error e =>
      rw [hEq] at hSome
      cases hSome
  | ok u =>
      rw [hEq] at hSome
      exact congrArg Except.ok (Option.some.inj hSome)

omit [DecidableEq Worker] in
theorem masterWaits_none :
    MasterWaits s w none := by
  intro u hu
  cases hu

/- Two spawns. -/
def spawnTwice : Code := .spawn .done (.spawn .done .done)

/- Three workers: both continuations are stolen. -/
def stealTwice (u v w : Worker) : List (Action Worker) :=
  List.replicate 7 (.work u) ++ [.steal v u] ++
    List.replicate 5 (.work v) ++ [.steal w v] ++
    List.replicate 4 (.work u) ++
    List.replicate 4 (.work v) ++ [.work w]

/- Both helpers have returned, and the frame is at its sync. -/
theorem exists_bothStolen :
    ∃ s, (workSystem (0 : Fin 3) spawnTwice).Reachable s ∧
      (s.workers 0).pc = .returning 1 ∧
      (s.workers 1).pc = .returning 2 ∧
      (s.workers 2).pc = .syncing 0 ∧
      (s.acts.get 1).map Activation.parent = some (some 0) ∧
      (s.acts.get 2).map Activation.parent = some (some 0) ∧
      s.strands.map Strand.leaf =
        [0, 5, 1, 2, 3, 4, 6, 7, 8, 9, 10] := by
  rcases exists_of_run (0 : Fin 3) spawnTwice
    (stealTwice 0 1 2)
    (fun s => decide ((s.workers 0).pc = .returning 1 ∧
      (s.workers 1).pc = .returning 2 ∧
      (s.workers 2).pc = .syncing 0 ∧
      (s.acts.get 1).map Activation.parent = some (some 0) ∧
      (s.acts.get 2).map Activation.parent = some (some 0) ∧
      s.strands.map Strand.leaf =
        [0, 5, 1, 2, 3, 4, 6, 7, 8, 9, 10]))
    (by decide +kernel) with
    ⟨s, hReach, hCheck⟩
  exact ⟨s, hReach, of_decide_eq_true hCheck⟩

/- The end of that run. -/
theorem exists_finished :
    ∃ s, (workSystem (0 : Fin 3) spawnTwice).Reachable s ∧
      ∀ a, s.acts.get a = none := by
  rcases exists_of_run (0 : Fin 3) spawnTwice
    (stealTwice 0 1 2 ++ [.sync 2 none, .returnFromSpawn 0 none,
      .returnFromSpawn 1 (some 2), .work 2])
    (fun s => decide (s.acts.next = 5 ∧ ∀ a ∈ List.range 5,
      (s.acts.get a).isNone = true))
    (by decide +kernel) with
    ⟨s, hReach, hCheck⟩
  rcases of_decide_eq_true hCheck with ⟨hNext, hNone⟩
  refine ⟨s, hReach, fun a => ?_⟩
  by_cases ha : a < 5
  · exact Option.isNone_iff_eq_none.mp
      (hNone a (List.mem_range.mpr ha))
  · exact Heap.get_eq_none (by omega)

/-
  The workers do what the tasks do: the activations are the
  tasks, and the strands are those in the log.
-/
theorem workers_refine_tasks
    (hReach : (workSystem w₀ main).Reachable s) :
    ∃ t, (taskSystem main).Reachable t ∧
      t.log = s.strands.map Strand.leaf ∧
      ∀ a, (s.acts.get a).map Activation.rest =
        (t.get a).map Task.rest := by
  rcases exists_simulates hReach with ⟨L, t, h⟩
  refine ⟨t, h.reach, h.log, fun a => ?_⟩
  cases hAct : s.acts.get a with
  | some act =>
      rcases h.acts.good a act hAct with ⟨x, hGet, hGood⟩
      rw [hGet, Option.map_some, Option.map_some, hGood.rest]
  | none =>
      cases hGet : t.get a with
      | none => rfl
      | some x =>
          rcases h.acts.live a x hGet with ⟨act, hSome⟩
          rw [hAct] at hSome
          cases hSome

theorem workers_refine_tasks_bothStolen :
    ∃ t, (taskSystem spawnTwice).Reachable t ∧
      t.log = [0, 5, 1, 2, 3, 4, 6, 7, 8, 9, 10] := by
  rcases exists_bothStolen with
    ⟨s, hReach, -, -, -, -, -, hLeaves⟩
  rcases workers_refine_tasks hReach with ⟨t, hTasks, hLog, -⟩
  exact ⟨t, hTasks, hLog.trans hLeaves⟩

/- No assertion fails, and no node is missing. -/
theorem steps_succeed
    (hReach : (workSystem w₀ main).Reachable s)
    {action : Action Worker}
    (hEnabled : enabled s action) :
    ∃ s', exec s action = some s' := by
  rcases exists_simulates hReach with ⟨L, t, h⟩
  rcases h.step hEnabled with ⟨s', -, -, hEq, -⟩
  exact ⟨s', hEq⟩

theorem steps_succeed_bothStolen :
    ∃ s s' : State (Fin 3), (s.workers 2).pc = .syncing 0 ∧
      exec s (.sync 2 none) = some s' := by
  rcases exists_bothStolen with ⟨s, hReach, -, -, hPc, -⟩
  have hEnabled : enabled s (.sync 2 none) :=
    ⟨⟨0, hPc⟩, masterWaits_none⟩
  rcases steps_succeed hReach hEnabled with ⟨s', hEq⟩
  exact ⟨s, s', hPc, hEq⟩

/-
  There is no deadlock: as long as an activation is left, one
  of the workers can go on without a theft.
-/
theorem some_worker_goes_on
    (hReach : (workSystem w₀ main).Reachable s)
    (hLive : ∃ a, s.acts.get a ≠ none) :
    ∃ w, enabled s (.work w) ∨ enabled s (.sync w none) ∨
      enabled s (.returnFromSpawn w none) := by
  rcases exists_simulates hReach with ⟨L, t, h⟩
  -- The youngest activation waits for nothing.
  obtain ⟨a, act, hAct, hYoungest⟩ :
      ∃ a act, s.acts.get a = some act ∧
        ∀ b, a < b → s.acts.get b = none := by
    rcases hLive with ⟨b, hb⟩
    rcases Option.ne_none_iff_exists'.mp hb with ⟨act, hAct⟩
    let P : Nat → Prop := fun a => (s.acts.get a).isSome = true
    have hSpec : P (Nat.findGreatest P s.acts.next) :=
      Nat.findGreatest_spec (Nat.le_of_lt (Heap.lt_next hAct))
        (by simp [P, hAct])
    rcases Option.isSome_iff_exists.mp hSpec with ⟨u, hu⟩
    refine ⟨_, u, hu, fun c hc => ?_⟩
    by_cases hLe : c ≤ s.acts.next
    · have hNot := Nat.findGreatest_is_greatest hc hLe
      simpa [P] using hNot
    · exact Heap.get_eq_none (by omega)
  rcases h.acts.good a act hAct with ⟨x, hGet, hGood⟩
  have hNone : ∀ c, a < c → t.get c = none := by
    intro c hc
    by_contra hSome
    rcases Option.ne_none_iff_exists'.mp hSome with ⟨z, hz⟩
    rcases h.acts.live c z hz with ⟨u, hu⟩
    rw [hYoungest c hc] at hu
    cases hu
  have hNoHelper : ∀ c, ¬ t.HelperOf c a := by
    rintro c ⟨z, hz, hParent, -⟩
    rcases h.sound.tree.child c z a hz hParent with
      ⟨_, -, hChild⟩
    rw [hNone c hChild.lt] at hz
    cases hz
  -- Who is busy with it can go on.
  have hBusy : ∀ w, act.control.holder = some w →
      ∃ w, enabled s (.work w) ∨ enabled s (.sync w none) ∨
        enabled s (.returnFromSpawn w none) := by
    intro w hHolder
    have hHolds := h.held.holder a act w hAct hHolder
    refine ⟨w, ?_⟩
    cases hPc : (s.workers w).pc with
    | idle =>
        rw [hPc] at hHolds
        cases hHolds
    | running b => exact Or.inl (Or.inl ⟨b, hPc⟩)
    | detaching b pc => exact Or.inl (Or.inr ⟨b, pc, hPc⟩)
    | syncing b => exact Or.inr (Or.inl ⟨⟨b, hPc⟩, masterWaits_none⟩)
    | returning b => exact Or.inr (Or.inr ⟨⟨b, hPc⟩, masterWaits_none⟩)
  cases hControl : act.control with
  | running w => exact hBusy w (by rw [hControl]; rfl)
  | detaching w => exact hBusy w (by rw [hControl]; rfl)
  | syncing w => exact hBusy w (by rw [hControl]; rfl)
  | returning w => exact hBusy w (by rw [hControl]; rfl)
  | calling c =>
      have hStatus := hGood.status
      rw [hControl] at hStatus
      rcases h.sound.tree.callee a x c hGet hStatus.symm with
        ⟨z, hz, hParent, -⟩
      rcases h.sound.tree.child c z a hz hParent with
        ⟨_, -, hChild⟩
      rw [hNone c hChild.lt] at hz
      cases hz
  | spawned c w =>
      exact absurd (hGood.spawned c w hControl) (hNoHelper c)
  | suspended =>
      rcases List.exists_mem_of_ne_nil _
        (hGood.suspended hControl) with ⟨c, hc⟩
      exact absurd ((hGood.children c).mp hc).1 (hNoHelper c)

theorem some_worker_goes_on_bothStolen :
    ∃ s : State (Fin 3), s.acts.get 1 ≠ none ∧
      ∃ w, enabled s (.work w) ∨ enabled s (.sync w none) ∨
        enabled s (.returnFromSpawn w none) := by
  rcases exists_bothStolen with
    ⟨s, hReach, -, -, -, hParent, -⟩
  have hLive : s.acts.get 1 ≠ none := by
    intro hNone
    rw [hNone] at hParent
    cases hParent
  exact ⟨s, hLive, some_worker_goes_on hReach ⟨1, hLive⟩⟩

/- Both orders decide how the executed strands are related. -/
theorem stolen_spOrder
    (hReach : (workSystem w₀ main).Reachable s) :
    ∀ x ∈ s.strands, ∀ y ∈ s.strands,
      (x.english, x.hebrew) ≠ (y.english, y.hebrew) →
      (main.spTree.Precedes x.leaf y.leaf ↔
        s.orders.PrecedesInEnglish
            (x.english, x.hebrew) (y.english, y.hebrew) ∧
          s.orders.PrecedesInHebrew
            (x.english, x.hebrew) (y.english, y.hebrew)) ∧
      (main.spTree.Parallel x.leaf y.leaf ↔
        (s.orders.PrecedesInEnglish
            (x.english, x.hebrew) (y.english, y.hebrew) ∧
          s.orders.PrecedesInHebrew
            (y.english, y.hebrew) (x.english, x.hebrew)) ∨
        (s.orders.PrecedesInEnglish
            (y.english, y.hebrew) (x.english, x.hebrew) ∧
          s.orders.PrecedesInHebrew
            (x.english, x.hebrew) (y.english, y.hebrew))) := by
  rcases exists_simulates hReach with ⟨L, t, h⟩
  intro x hx y hy hNe
  rcases h.strands x hx with ⟨p, hp, hxAt⟩
  rcases h.strands y hy with ⟨q, hq, hyAt⟩
  have hMatches := Code.matches_walk main []
  rcases lt_trichotomy x.leaf y.leaf with hij | hij | hij
  · have hOrders := ShadowStack.orders_of_compose h.fits hxAt
      hyAt hNe (hMatches.holds x.leaf y.leaf p q hij hp hq)
    simp [SpTree.Precedes, SpTree.Parallel, hij, hij.not_gt,
      hOrders]
  · rw [hij] at hp
    obtain rfl := Option.some.inj (hp.symm.trans hq)
    exact absurd rfl
      (ShadowStack.path_ne h.fits hxAt hyAt hNe)
  · have hOrders := ShadowStack.orders_of_compose h.fits hyAt
      hxAt hNe.symm
      (hMatches.holds y.leaf x.leaf q p hij hq hp)
    simp [SpTree.Precedes, SpTree.Parallel, hij, hij.not_gt,
      hOrders]

theorem stolen_spOrder_bothStolen :
    ∃ s : State (Fin 3),
      s.strands.map Strand.leaf =
        [0, 5, 1, 2, 3, 4, 6, 7, 8, 9, 10] ∧
      ∀ x ∈ s.strands, ∀ y ∈ s.strands,
        (x.english, x.hebrew) ≠ (y.english, y.hebrew) →
        (spawnTwice.spTree.Precedes x.leaf y.leaf ↔
          s.orders.PrecedesInEnglish
              (x.english, x.hebrew) (y.english, y.hebrew) ∧
            s.orders.PrecedesInHebrew
              (x.english, x.hebrew) (y.english, y.hebrew)) := by
  rcases exists_bothStolen with
    ⟨s, hReach, -, -, -, -, -, hLeaves⟩
  refine ⟨s, hLeaves, fun x hx y hy hNe => ?_⟩
  exact (stolen_spOrder hReach x hx y hy hNe).1

/-
  No strand is executed twice, and none after one that
  depends on it.
-/
theorem strands_in_order
    (hReach : (workSystem w₀ main).Reachable s) :
    (s.strands.map Strand.leaf).Nodup ∧
      s.strands.Pairwise fun x y =>
        ¬ main.spTree.Precedes y.leaf x.leaf := by
  rcases exists_simulates hReach with ⟨L, t, h⟩
  have hOrdered := h.sound.logged.ordered
  rw [h.log, List.pairwise_map] at hOrdered
  exact ⟨h.log ▸ h.sound.tallied.nodup, hOrdered⟩

theorem strands_in_order_bothStolen :
    ∃ s : State (Fin 3),
      s.strands.map Strand.leaf =
        [0, 5, 1, 2, 3, 4, 6, 7, 8, 9, 10] ∧
      s.strands.Pairwise fun x y =>
        ¬ spawnTwice.spTree.Precedes y.leaf x.leaf := by
  rcases exists_bothStolen with
    ⟨s, hReach, -, -, -, -, -, hLeaves⟩
  exact ⟨s, hLeaves, (strands_in_order hReach).2⟩

/- When no activation is left, every strand was executed. -/
theorem strands_complete
    (hReach : (workSystem w₀ main).Reachable s)
    (hDone : ∀ a, s.acts.get a = none) :
    ∀ i, i < main.spTree.size →
      ∃ x ∈ s.strands, x.leaf = i := by
  rcases exists_simulates hReach with ⟨L, t, h⟩
  intro i hi
  have hTasks : ∀ a, t.get a = none := by
    intro a
    by_contra hSome
    rcases Option.ne_none_iff_exists'.mp hSome with ⟨x, hx⟩
    rcases h.acts.live a x hx with ⟨act, hAct⟩
    rw [hDone a] at hAct
    cases hAct
  have hLength : (walkOf main).length = main.spTree.size :=
    (Code.matches_walk main []).length
  have hCount := h.sound.tallied.count_of_done hTasks
    (hLength.symm ▸ hi)
  rw [h.log] at hCount
  have hMem : i ∈ s.strands.map Strand.leaf :=
    List.count_pos_iff.mp (by omega)
  rcases List.mem_map.mp hMem with ⟨x, hx, hLeaf⟩
  exact ⟨x, hx, hLeaf⟩

theorem strands_complete_finished :
    ∃ s : State (Fin 3), ∃ x ∈ s.strands, x.leaf = 11 := by
  rcases exists_finished with ⟨s, hReach, hDone⟩
  exact ⟨s, strands_complete hReach hDone 11 (by decide)⟩

/-
  At a sync of a stolen frame, the join counter says whether
  an activation is left that the sync waits for.
-/
theorem sync_counts
    (hReach : (workSystem w₀ main).Reachable s)
    (hPc : (s.workers w).pc = .syncing a) :
    ∃ act, s.acts.get a = some act ∧
      (act.joinCounter = 1 ↔
        ∀ c child, s.acts.get c = some child →
          child.parent ≠ some a) := by
  rcases exists_simulates hReach with ⟨L, t, h⟩
  rcases h.held_by (w := w) (a := a) (k := .syncing w)
    (by rw [hPc]; rfl) with
    ⟨act, x, hAct, hControl, hGet, hGood⟩
  have hCounter := hGood.counter
  have hStatus := hGood.status
  rw [hControl] at hCounter hStatus
  refine ⟨act, hAct, ?_, ?_⟩
  · intro hOne c child hChild hParent
    have hEmpty : act.children = [] := by
      rw [hCounter] at hOne
      exact List.eq_nil_of_length_eq_zero (Nat.succ.inj hOne)
    rcases h.acts.good c child hChild with ⟨z, hz, hGoodC⟩
    exact h.childless hGet hGood (by rw [hControl]; simp)
      (by rw [← hStatus]; simp [Control.status]) hEmpty c z hz
      (hGoodC.parent.symm.trans hParent)
  · intro hNone
    have hEmpty : act.children = [] := by
      refine List.eq_nil_iff_forall_not_mem.mpr fun c hc => ?_
      rcases ((hGood.children c).mp hc).1 with
        ⟨z, hz, hParent, -⟩
      rcases h.acts.live c z hz with ⟨child, hChild⟩
      rcases h.acts.good c child hChild with ⟨y, hy, hGoodC⟩
      obtain rfl := Option.some.inj (hz.symm.trans hy)
      exact hNone c child hChild (hGoodC.parent.trans hParent)
    rw [hCounter, hEmpty]
    rfl

theorem sync_counts_bothStolen :
    ∃ s : State (Fin 3), (s.workers 2).pc = .syncing 0 ∧
      ∃ act, s.acts.get 0 = some act ∧
        (act.joinCounter = 1 ↔
          ∀ c child, s.acts.get c = some child →
            child.parent ≠ some 0) := by
  rcases exists_bothStolen with ⟨s, hReach, -, -, hPc, -⟩
  exact ⟨s, hPc, sync_counts hReach hPc⟩

------------------------------------------------------------
-- Copies of Frames
------------------------------------------------------------

/- Two copies of a frame have the same sync nodes. -/
structure SameSync (f g : FrameData) : Prop where
  english : f.syncEnglish = g.syncEnglish
  hebrew : f.syncHebrew = g.syncHebrew
  helper : f.helper = g.helper

/- The frames below the frame of a task, up to their copies. -/
inductive View.Syncs (V : View Worker) :
    Nat → List FrameData → Prop
| root {c : Nat} {x : Task}
    (hGet : V.tasks.get c = some x)
    (hRoot : x.parent = none) :
    Syncs V c []
| parent {c b : Nat} {y : Task} {f : FrameData}
    {fs : List FrameData} {helper : Bool}
    (hLink : V.Link c helper b y)
    (hSync : V.layout.NodesAt V.orders f.syncEnglish
      f.syncHebrew y.pending)
    (hHelper : f.helper = (!helper && y.rest.isHelper))
    (hBelow : Syncs V b fs) :
    Syncs V c (f :: fs)

omit [DecidableEq Worker] in
theorem View.Below.syncs
    {V : View Worker} {c : Nat} {fs : List FrameData}
    (h : V.Below c fs) :
    V.Syncs c fs := by
  induction h with
  | root hGet hRoot => exact .root hGet hRoot
  | caller hLink hFrame _ ih =>
      exact .parent hLink hFrame.sync hFrame.helper ih
  | spawner hLink _ hFrame _ ih =>
      exact .parent hLink hFrame.sync hFrame.helper ih

omit [DecidableEq Worker] in
theorem View.Own.syncs
    {V : View Worker} {c tail : Nat} {dq : List Nat}
    {fs : List FrameData}
    (h : V.Own w c dq tail fs) :
    V.Syncs c fs := by
  induction h with
  | bottom hBelow => exact hBelow.syncs
  | caller hLink _ _ _ _ hFrame _ ih =>
      exact .parent hLink hFrame.sync hFrame.helper ih
  | spawner hLink _ _ hFrame _ ih =>
      exact .parent hLink hFrame.sync hFrame.helper ih

/- At a path there is one node in each order. -/
theorem nodesAt_unique
    {o : ShadowStack} {e e' k k' : Option Nat}
    {q : Option Path}
    (hFits : L.Fits o)
    (h : L.NodesAt o e k q)
    (h' : L.NodesAt o e' k' q) :
    e = e' ∧ k = k' := by
  cases h with
  | empty =>
      cases h'
      exact ⟨rfl, rfl⟩
  | @node n m p hAt =>
      cases h' with
      | @node n' m' _ hAt' =>
          have hSame : (n, m) = (n', m') := by
            by_contra hNe
            exact ShadowStack.path_ne hFits hAt hAt' hNe rfl
          cases hSame
          exact ⟨rfl, rfl⟩

omit [DecidableEq Worker] in
/- Two stacks have the same frames below one task. -/
theorem View.Syncs.agree
    {V : View Worker} {c : Nat} {fs gs : List FrameData}
    (hFits : V.layout.Fits V.orders)
    (h : V.Syncs c fs)
    (h' : V.Syncs c gs) :
    List.Forall₂ SameSync fs gs := by
  induction h generalizing gs with
  | root hGet hRoot =>
      cases h' with
      | root _ _ => exact .nil
      | parent hLink _ _ _ =>
          have hParent := (hLink.eq hGet).1
          rw [hRoot] at hParent
          cases hParent
  | parent hLink hSync hHelper _ ih =>
      cases h' with
      | root hGet hRoot =>
          have hParent := (hLink.eq hGet).1
          rw [hRoot] at hParent
          cases hParent
      | parent hLink' hSync' hHelper' hBelow' =>
          rcases hLink.unique hLink' with ⟨rfl, rfl, rfl⟩
          rcases nodesAt_unique hFits hSync hSync' with
            ⟨hEnglish, hHebrew⟩
          exact .cons ⟨hEnglish, hHebrew,
            hHelper.trans hHelper'.symm⟩ (ih hBelow')

/-
  The worker stands behind a sync with the given nodes, and
  above copies of the given frames.
-/
def WorkerState.BehindSync
    (s : WorkerState) (e k : Option Nat)
    (fs : List FrameData) : Prop :=
  ∃ g gs, s.frames = g :: gs ∧ g.currentEnglish = e ∧
    g.currentHebrew = k ∧ List.Forall₂ SameSync fs gs

/- The same for a worker that has still to get there. -/
def WorkerState.BeforeSync
    (s : WorkerState) (e k : Option Nat)
    (fs : List FrameData) : Prop :=
  ∃ g gs, s.frames = g :: gs ∧ g.syncEnglish = e ∧
    g.syncHebrew = k ∧ List.Forall₂ SameSync fs gs

namespace Simulates

omit [DecidableEq Worker] in
/- A worker that has returned from a stolen parent's child. -/
theorem behind_of_returning
    {u : Worker} {c : Nat} {act : Activation Worker}
    (h : Simulates main L t s)
    (hPc : (s.workers u).pc = .returning c)
    (hAct : s.acts.get c = some act) :
    ∃ b x q f fs, act.parent = some b ∧
      t.get b = some x ∧ x.pending = some q ∧
      (s.workers u).frames = f :: fs ∧
      L.NodesAt s.orders f.currentEnglish f.currentHebrew
        (some q) ∧
      (s.see L t).Syncs b fs := by
  have hStack := h.shadows u
  unfold View.Stack at hStack
  rw [hPc] at hStack
  rcases hStack with
    ⟨b, x, q, f, fs, hLink, hPending, -, hBehind⟩
  rcases h.acts.good c act hAct with ⟨z, hz, hGood⟩
  exact ⟨b, x, q, f, fs, hGood.parent.trans (hLink.eq hz).1,
    hLink.2, hPending, hBehind.frames, hBehind.frame.current,
    hBehind.own.syncs⟩

omit [DecidableEq Worker] in
/- A worker at the sync of a task. -/
theorem behindSync_of_syncing
    {b : Nat} {x : Task} {q : Path} {e k : Option Nat}
    {fs : List FrameData}
    (h : Simulates main L t s)
    (hGet : t.get b = some x)
    (hPending : x.pending = some q)
    (hAt : L.NodesAt s.orders e k (some q))
    (hSyncs : (s.see L t).Syncs b fs)
    (hPc : (s.workers w).pc = .syncing b) :
    (s.workers w).BehindSync e k fs := by
  have hStack := h.shadows w
  unfold View.Stack at hStack
  rw [hPc] at hStack
  rcases hStack with ⟨y, g, gs, hy, hBehind⟩
  obtain rfl := Option.some.inj (hGet.symm.trans hy)
  rcases h.held_by (w := w) (a := b) (k := .syncing w)
    (by rw [hPc]; rfl) with
    ⟨act, z, -, hControl, hz, hGood⟩
  obtain rfl := Option.some.inj (hGet.symm.trans hz)
  have hWaiting : x.status = .waiting := by
    rw [← hGood.status, hControl]
    rfl
  have hWaits := (h.sound.tree.ok b x hGet).waits hWaiting
  have hCurrent := hBehind.frame.current
  rw [← hWaits, hPending] at hCurrent
  rcases nodesAt_unique h.fits hCurrent hAt with
    ⟨hEnglish, hHebrew⟩
  exact ⟨g, gs, hBehind.frames, hEnglish, hHebrew,
    hSyncs.agree h.fits hBehind.own.syncs⟩

omit [DecidableEq Worker] in
/- A worker that executes the task. -/
theorem beforeSync_of_running
    {b : Nat} {x : Task} {q : Path} {e k : Option Nat}
    {fs : List FrameData}
    (h : Simulates main L t s)
    (hGet : t.get b = some x)
    (hPending : x.pending = some q)
    (hAt : L.NodesAt s.orders e k (some q))
    (hSyncs : (s.see L t).Syncs b fs)
    (hPc : (s.workers w).pc = .running b) :
    (s.workers w).BeforeSync e k fs := by
  have hStack := h.shadows w
  unfold View.Stack at hStack
  rw [hPc] at hStack
  rcases hStack with ⟨y, g, gs, hRunning⟩
  obtain rfl := Option.some.inj (hGet.symm.trans hRunning.get)
  have hSync := hRunning.frame.sync
  rw [hPending] at hSync
  rcases nodesAt_unique h.fits hSync hAt with
    ⟨hEnglish, hHebrew⟩
  exact ⟨g, gs, hRunning.frames, hEnglish, hHebrew,
    hSyncs.agree h.fits hRunning.own.syncs⟩

end Simulates

/-
  Workers that return from helpers of one frame have the same
  current nodes, each in its own copy of the frame: those of
  the sync that a worker in that frame has before it or has
  reached.  The frames below have the same sync nodes.
-/
theorem sync_nodes_agree
    (hReach : (workSystem w₀ main).Reachable s)
    {u v : Worker} {c d : Nat}
    {actC actD : Activation Worker}
    (hPcU : (s.workers u).pc = .returning c)
    (hPcV : (s.workers v).pc = .returning d)
    (hActC : s.acts.get c = some actC)
    (hActD : s.acts.get d = some actD)
    (hParents : actC.parent = actD.parent) :
    ∃ f fs, (s.workers u).frames = f :: fs ∧
      f.currentEnglish ≠ none ∧ f.currentHebrew ≠ none ∧
      (s.workers v).BehindSync f.currentEnglish
        f.currentHebrew fs ∧
      ∀ b w, actC.parent = some b →
        ((s.workers w).pc = .syncing b →
          (s.workers w).BehindSync f.currentEnglish
            f.currentHebrew fs) ∧
        ((s.workers w).pc = .running b →
          (s.workers w).BeforeSync f.currentEnglish
            f.currentHebrew fs) := by
  rcases exists_simulates hReach with ⟨L, t, h⟩
  rcases h.behind_of_returning hPcU hActC with
    ⟨b, x, q, f, fs, hParent, hx, hq, hFrames, hAt, hSyncs⟩
  rcases h.behind_of_returning hPcV hActD with
    ⟨b', x', q', g, gs, hParent', hx', hq', hFrames', hAt',
      hSyncs'⟩
  rw [hParent, hParent'] at hParents
  obtain rfl := Option.some.inj hParents
  obtain rfl := Option.some.inj (hx.symm.trans hx')
  obtain rfl := Option.some.inj (hq.symm.trans hq')
  rcases nodesAt_unique h.fits hAt' hAt with
    ⟨hEnglish, hHebrew⟩
  rcases hAt.some with ⟨e, k, hE, hK, -⟩
  refine ⟨f, fs, hFrames, by simp [hE], by simp [hK],
    ⟨g, gs, hFrames', hEnglish, hHebrew,
      hSyncs.agree h.fits hSyncs'⟩, ?_⟩
  intro a w hSame
  rw [hParent] at hSame
  obtain rfl := Option.some.inj hSame
  exact ⟨h.behindSync_of_syncing hx hq hAt hSyncs,
    h.beforeSync_of_running hx hq hAt hSyncs⟩

/- Two workers return while a third is at the sync. -/
theorem sync_nodes_agree_bothStolen :
    ∃ s : State (Fin 3), (s.workers 0).pc = .returning 1 ∧
      (s.workers 1).pc = .returning 2 ∧
      (s.workers 2).pc = .syncing 0 ∧
      ∃ f fs, (s.workers 0).frames = f :: fs ∧
        f.currentEnglish ≠ none ∧ f.currentHebrew ≠ none ∧
        (s.workers 1).BehindSync f.currentEnglish
          f.currentHebrew fs ∧
        (s.workers 2).BehindSync f.currentEnglish
          f.currentHebrew fs := by
  rcases exists_bothStolen with
    ⟨s, hReach, hPcU, hPcV, hPc, hParent, hParent', -⟩
  rcases Option.map_eq_some_iff.mp hParent with
    ⟨actC, hActC, hC⟩
  rcases Option.map_eq_some_iff.mp hParent' with
    ⟨actD, hActD, hD⟩
  rcases sync_nodes_agree hReach hPcU hPcV hActC hActD
    (hC.trans hD.symm) with
    ⟨f, fs, hFrames, hE, hK, hBehind, hSync⟩
  exact ⟨s, hPcU, hPcV, hPc, f, fs, hFrames, hE, hK, hBehind,
    (hSync 0 2 hC).1 hPc⟩

end WorkStealing

end PRacer
