import PRacer.WorkStealing.Hooks
import PRacer.WorkStealing.TaskLog

/-
  The workers simulate the tasks: activations are tasks, the
  frames of a worker stand at the paths of tasks, and both
  orders list the nodes at their paths.

  Main declarations:
    * `Good`, `Acts`, `Held`, `Stack`
    * `Simulates`, `Simulates.sound`
    * `View.Touches`, `View.Touches.keeps`, `View.Stack.carry`
-/

------------------------------------------------------------
-- Activations and Tasks
------------------------------------------------------------

namespace PRacer

open Foundations

namespace WorkStealing

variable {Worker : Type}

namespace Control

/- What the control of an activation is for its task. -/
def status : Control Worker → Status
| running _ => .ready
| detaching _ => .spawning
| calling c => .calling c
| spawned _ _ => .ready
| syncing _ => .waiting
| suspended => .waiting
| returning _ => .ready

/- A frame counts itself, unless it is suspended. -/
def self : Control Worker → Nat
| suspended => 0
| _ => 1

/- The worker that is busy with the activation. -/
def holder : Control Worker → Option Worker
| running w => some w
| detaching w => some w
| syncing w => some w
| returning w => some w
| _ => none

end Control

/- What a worker is busy with. -/
def WorkerPc.holds (w : Worker) :
    WorkerPc → Option (Nat × Control Worker)
| idle => none
| running a => some (a, .running w)
| detaching a _ => some (a, .detaching w)
| syncing a => some (a, .syncing w)
| returning h => some (h, .returning w)

/- A spawn helper and its parent. -/
def Tasks.HelperOf (t : Tasks) (h a : Nat) : Prop :=
  ∃ x, t.get h = some x ∧ x.parent = some a ∧
    x.rest.isHelper = true

/- An activation and its task. -/
structure Good
    (t : Tasks) (a : Nat) (act : Activation Worker)
    (x : Task) : Prop where
  rest : act.rest = x.rest
  leaf : act.leaf = x.leaf
  parent : act.parent = x.parent
  status : act.control.status = x.status
  gone : x.rest = .gone ↔ ∃ w, act.control = .returning w
  counter :
    act.joinCounter =
      act.children.length + act.control.self
  nodup : act.children.Nodup
  children :
    ∀ h, h ∈ act.children ↔
      t.HelperOf h a ∧ ∀ v, act.control ≠ .spawned h v
  spawned :
    ∀ h v, act.control = .spawned h v → t.HelperOf h a
  stolen : act.children ≠ [] → act.unsynched = true
  suspended : act.control = .suspended → act.children ≠ []
  waiting : x.status = .waiting → act.unsynched = true
  unsynched : act.unsynched = true → x.pending ≠ none

structure Acts
    (t : Tasks) (acts : Heap (Activation Worker)) :
    Prop where
  next : acts.next = t.heap.next
  good :
    ∀ a act, acts.get a = some act →
      ∃ x, t.get a = some x ∧ Good t a act x
  live :
    ∀ a x, t.get a = some x →
      ∃ act, acts.get a = some act

/- Workers and activations agree on who is busy with what. -/
structure Held
    (acts : Heap (Activation Worker))
    (workers : Worker → WorkerState) : Prop where
  holder :
    ∀ a act w, acts.get a = some act →
      act.control.holder = some w →
      (workers w).pc.holds w = some (a, act.control)
  holds :
    ∀ w a k, (workers w).pc.holds w = some (a, k) →
      ∃ act, acts.get a = some act ∧ act.control = k

------------------------------------------------------------
-- The Frames of a Worker
------------------------------------------------------------

namespace DetachPc

/- The branches that english has so far. -/
def inEnglish : DetachPc → List Nat
| syncEnglish => []
| syncHebrew => [2]
| childEnglish => [2]
| contEnglish => [0, 2]
| contHebrew => [1, 0, 2]
| childHebrew => [1, 0, 2]

def inHebrew : DetachPc → List Nat
| syncEnglish => []
| syncHebrew => []
| childEnglish => [2]
| contEnglish => [2]
| contHebrew => [2]
| childHebrew => [0, 2]

end DetachPc

namespace View

/- The nodes that a spawn has inserted so far. -/
inductive Stage
    (V : View Worker) (x : Task) (child f : FrameData) :
    DetachPc → Prop
| syncEnglish
    (hFirst : x.pending = none) :
    Stage V x child f .syncEnglish
| syncHebrew {e : Nat}
    (hFirst : x.pending = none)
    (hSync : f.syncEnglish = some e)
    (hSyncAt : V.layout.EnglishAt V.orders e x.syncPath) :
    Stage V x child f .syncHebrew
| childEnglish
    (hSync : V.layout.NodesAt V.orders f.syncEnglish
      f.syncHebrew (some x.syncPath)) :
    Stage V x child f .childEnglish
| contEnglish {e : Nat}
    (hSync : V.layout.NodesAt V.orders f.syncEnglish
      f.syncHebrew (some x.syncPath))
    (hChild : child.currentEnglish = some e)
    (hChildAt : V.layout.EnglishAt V.orders e
      (x.path ++ [.child])) :
    Stage V x child f .contEnglish
| contHebrew {e e' : Nat}
    (hSync : V.layout.NodesAt V.orders f.syncEnglish
      f.syncHebrew (some x.syncPath))
    (hChild : child.currentEnglish = some e)
    (hChildAt : V.layout.EnglishAt V.orders e
      (x.path ++ [.child]))
    (hCont : f.contEnglish = some e')
    (hContAt : V.layout.EnglishAt V.orders e'
      (x.path ++ [.cont])) :
    Stage V x child f .contHebrew
| childHebrew {e e' h : Nat}
    (hSync : V.layout.NodesAt V.orders f.syncEnglish
      f.syncHebrew (some x.syncPath))
    (hChild : child.currentEnglish = some e)
    (hChildAt : V.layout.EnglishAt V.orders e
      (x.path ++ [.child]))
    (hCont : f.contEnglish = some e')
    (hContAt : V.layout.EnglishAt V.orders e'
      (x.path ++ [.cont]))
    (hHebrew : f.contHebrew = some h)
    (hHebrewAt : V.layout.HebrewAt V.orders h
      (x.path ++ [.cont])) :
    Stage V x child f .childHebrew

/- A worker in the middle of a spawn. -/
structure Detaching
    (V : View Worker) (w : Worker) (s : WorkerState)
    (a : Nat) (pc : DetachPc) (x : Task)
    (child f : FrameData) (fs : List FrameData) : Prop where
  get : V.tasks.get a = some x
  frames : s.frames = child :: f :: fs
  isChild : child.helper = true
  isParent : f.helper = false
  current :
    V.layout.NodesAt V.orders f.currentEnglish
      f.currentHebrew (some x.path)
  stage : V.Stage x child f pc
  room :
    V.layout.Room V.orders x.path pc.inEnglish pc.inHebrew
  own : V.Own w a s.deque.reverse s.tail fs

/- A worker that executes the code of a task. -/
structure Running
    (V : View Worker) (w : Worker) (s : WorkerState)
    (a : Nat) (x : Task) (f : FrameData)
    (fs : List FrameData) : Prop where
  get : V.tasks.get a = some x
  frames : s.frames = f :: fs
  frame :
    V.FrameAt f (some x.path) none x.pending x.rest.isHelper
  own : V.Own w a s.deque.reverse s.tail fs

/- A worker in the runtime, behind the sync of a task. -/
structure Behind
    (V : View Worker) (w : Worker) (s : WorkerState)
    (a : Nat) (q : Path) (f : FrameData) (fs : List FrameData) :
    Prop where
  frames : s.frames = f :: fs
  frame : V.FrameAt f (some q) none none false
  own : V.Own w a [] s.tail fs
  deque : s.deque = []

/- What the frames of a worker stand for. -/
def Stack
    (V : View Worker) (w : Worker) (s : WorkerState) : Prop :=
  match s.pc with
  | .idle => s.deque = []
  | .running a => ∃ x f fs, V.Running w s a x f fs
  | .detaching a pc =>
      ∃ x child f fs, V.Detaching w s a pc x child f fs
  | .syncing a =>
      ∃ x f fs, V.tasks.get a = some x ∧
        V.Behind w s a x.path f fs
  | .returning h =>
      ∃ a x q f fs, V.Link h true a x ∧
        x.pending = some q ∧
        (∀ act v, V.acts.get a = some act →
          act.control ≠ .spawned h v) ∧
        V.Behind w s a q f fs

end View

------------------------------------------------------------
-- Simulation
------------------------------------------------------------

/- What a task may still do needs room in the orders. -/
def Task.Opens (x : Task) (L : Layout) : Prop :=
  (∀ q, x.pending = some q → L.Open q) ∧
    (x.Runs → x.status = .ready → L.Open x.path)

def State.see
    (s : State Worker) (L : Layout) (t : Tasks) :
    View Worker where
  layout := L
  orders := s.orders
  acts := s.acts
  tasks := t

/- The state of the workers stands for tasks. -/
structure Simulates
    (main : Code) (L : Layout) (t : Tasks)
    (s : State Worker) : Prop where
  reach : (taskSystem main).Reachable t
  acts : Acts t s.acts
  held : Held s.acts s.workers
  shadows : ∀ w, (s.see L t).Stack w (s.workers w)
  fits : L.Fits s.orders
  opens : ∀ a x, t.get a = some x → x.Opens L
  log : t.log = s.strands.map Strand.leaf
  strands :
    ∀ x ∈ s.strands, ∃ p,
      (walkOf main)[x.leaf]? = some p ∧
        L.At s.orders (x.english, x.hebrew) p

theorem Simulates.sound
    {main : Code} {L : Layout} {t : Tasks} {s : State Worker}
    (h : Simulates main L t s) :
    t.Sound main :=
  Tasks.Sound.reachable h.reach

theorem Tasks.Step.reachable
    {main : Code} {t t' : Tasks}
    (hStep : Tasks.Step t t')
    (hReach : (taskSystem main).Reachable t) :
    (taskSystem main).Reachable t' :=
  TransitionSystem.Reachable.step (a := ()) hReach hStep

------------------------------------------------------------
-- Steps of Other Workers
------------------------------------------------------------

namespace View

variable {V V' : View Worker} {w : Worker}
variable {M : Worker → Prop} {i j a b c : Nat} {x : Task}
variable {child f : FrameData} {pc : DetachPc}

/- A step does not concern the activation. -/
def Same
    (V V' : View Worker) (b : Nat)
    (act : Activation Worker) : Prop :=
  ∃ act', V'.acts.get b = some act' ∧
    act'.control = act.control ∧
    act'.unsynched = act.unsynched ∧
    V'.tasks.get b = V.tasks.get b

/-
  A step of some workers concerns two activations.  These
  were not in the hands of other workers before, and are not
  after.
-/
structure Touches
    (V V' : View Worker) (M : Worker → Prop)
    (i j : Nat) : Prop where
  acts :
    ∀ b, b ≠ i → b ≠ j → V'.acts.get b = V.acts.get b
  tasks :
    ∀ b, b ≠ i → b ≠ j → V'.tasks.get b = V.tasks.get b
  old :
    ∀ b act, b = i ∨ b = j → V.acts.get b = some act →
      V.Same V' b act ∨
        ((∀ v, act.control.holder = some v → M v) ∧
          (∀ c v, act.control = .spawned c v → M v) ∧
          ∀ c, act.control = .calling c →
            V'.tasks.get c = none)
  new :
    ∀ b act', b = i ∨ b = j → V'.acts.get b = some act' →
      (∃ act, V.acts.get b = some act ∧
        act'.control = act.control) ∨
      ((∀ v, act'.control.holder = some v → M v) ∧
        ∀ c v, act'.control = .spawned c v →
          V.tasks.get c = none)

/- An activation that is not concerned. -/
theorem Touches.same
    (h : Touches V V' M i j)
    {act : Activation Worker}
    (hi : b ≠ i) (hj : b ≠ j)
    (hAct : V.acts.get b = some act) :
    V.Same V' b act :=
  ⟨act, (h.acts b hi hj).trans hAct, rfl, rfl,
    h.tasks b hi hj⟩

/- The frames of a worker, if the two are not among them. -/
theorem Touches.keeps_of
    (h : Touches V V' M i j)
    (hEnglish : ∀ n p, V.layout.EnglishAt V.orders n p →
      V'.layout.EnglishAt V'.orders n p)
    (hHebrew : ∀ n p, V.layout.HebrewAt V.orders n p →
      V'.layout.HebrewAt V'.orders n p)
    (hCarried : V.tasks.Carried V'.tasks)
    (hw : ∀ b c act, b = i ∨ b = j →
      V.acts.get b = some act →
      (act.control = .calling c ∨
        act.control = .spawned c w) →
      V'.tasks.get c ≠ none → V.Same V' b act) :
    Keeps V V' w := by
  -- The activations on the stack of `w` are not concerned.
  have hSame : ∀ b c act, V.acts.get b = some act →
      (act.control = .calling c ∨
        act.control = .spawned c w) →
      V'.tasks.get c ≠ none → V.Same V' b act := by
    intro b c act hAct hControl hLive
    by_cases hb : b = i ∨ b = j
    · exact hw b c act hb hAct hControl hLive
    · rw [not_or] at hb
      exact h.same hb.1 hb.2 hAct
  refine ⟨⟨hEnglish, hHebrew, hCarried, ?_⟩, ?_, ?_⟩
  · intro b c act v hAct hSpawned hLive
    by_cases hb : b = i ∨ b = j
    · rcases h.new b act hb hAct with
        ⟨act', hAct', hControl⟩ | ⟨-, hNew⟩
      · exact ⟨act', hAct', hControl.symm.trans hSpawned⟩
      · exact absurd (hNew c v hSpawned) hLive
    · rw [not_or] at hb
      exact ⟨act, (h.acts b hb.1 hb.2).symm.trans hAct,
        hSpawned⟩
  · intro b c act hAct hControl hLive
    rcases hSame b c act hAct hControl hLive with
      ⟨act', hAct', hControl', hUnsynched, -⟩
    exact ⟨act', hAct', hControl',
      fun hTrue => hUnsynched ▸ hTrue⟩
  · intro b c act y hAct hSpawned hLive hy
    rcases hSame b c act hAct (Or.inr hSpawned) hLive with
      ⟨-, -, -, -, hTask⟩
    exact ⟨y, hTask.trans hy, rfl⟩

theorem Touches.keeps
    (h : Touches V V' M i j)
    (hEnglish : ∀ n p, V.layout.EnglishAt V.orders n p →
      V'.layout.EnglishAt V'.orders n p)
    (hHebrew : ∀ n p, V.layout.HebrewAt V.orders n p →
      V'.layout.HebrewAt V'.orders n p)
    (hCarried : V.tasks.Carried V'.tasks)
    (hw : ¬ M w) :
    Keeps V V' w := by
  refine h.keeps_of hEnglish hHebrew hCarried ?_
  intro b c act hb hAct hControl hLive
  rcases h.old b act hb hAct with hSame | ⟨-, hSpawned, hCall⟩
  · exact hSame
  · rcases hControl with hControl | hControl
    · exact absurd (hCall c hControl) hLive
    · exact absurd (hSpawned c w hControl) hw

theorem Stage.keep
    (h : V.Stage x child f pc)
    (hCopies : Copies V V') :
    V'.Stage x child f pc := by
  have hNodes : ∀ {e k : Option Nat} {p : Option Path},
      V.layout.NodesAt V.orders e k p →
      V'.layout.NodesAt V'.orders e k p :=
    fun h => h.mono hCopies.nodes
  cases h with
  | syncEnglish hFirst => exact .syncEnglish hFirst
  | syncHebrew hFirst hSync hSyncAt =>
      exact .syncHebrew hFirst hSync
        (hCopies.english _ _ hSyncAt)
  | childEnglish hSync => exact .childEnglish (hNodes hSync)
  | contEnglish hSync hChild hChildAt =>
      exact .contEnglish (hNodes hSync) hChild
        (hCopies.english _ _ hChildAt)
  | contHebrew hSync hChild hChildAt hCont hContAt =>
      exact .contHebrew (hNodes hSync) hChild
        (hCopies.english _ _ hChildAt) hCont
        (hCopies.english _ _ hContAt)
  | childHebrew hSync hChild hChildAt hCont hContAt hHebrew
      hHebrewAt =>
      exact .childHebrew (hNodes hSync) hChild
        (hCopies.english _ _ hChildAt) hCont
        (hCopies.english _ _ hContAt) hHebrew
        (hCopies.hebrew _ _ hHebrewAt)

/- The frames of a worker that a step does not concern. -/
theorem Stack.carry
    {s : WorkerState}
    (h : V.Stack w s)
    (hKeeps : Keeps V V' w)
    (hActs : ∀ b, V'.tasks.get b ≠ none →
      V'.acts.get b ≠ none)
    (hHeld : ∀ a k, s.pc.holds w = some (a, k) →
      V'.tasks.get a = V.tasks.get a ∧ V.Stays V' a)
    (hRoom : ∀ a x pc, s.pc = .detaching a pc →
      V.tasks.get a = some x →
      V.layout.Room V.orders x.path pc.inEnglish
        pc.inHebrew →
      V'.layout.Room V'.orders x.path pc.inEnglish
        pc.inHebrew) :
    V'.Stack w s := by
  have hCopies := hKeeps.toCopies
  unfold Stack at *
  cases hPc : s.pc with
  | idle =>
      rw [hPc] at h
      exact h
  | running a =>
      rw [hPc] at h
      rcases h with ⟨x, f, fs, hGet, hFrames, hFrame, hOwn⟩
      rcases hHeld a _ (by rw [hPc]; rfl) with ⟨hTask, hStays⟩
      exact ⟨x, f, fs, hTask.trans hGet, hFrames,
        hFrame.keep hCopies, hOwn.carry hKeeps hStays⟩
  | detaching a pc =>
      rw [hPc] at h
      rcases h with ⟨x, child, f, fs, h⟩
      rcases hHeld a _ (by rw [hPc]; rfl) with ⟨hTask, hStays⟩
      exact ⟨x, child, f, fs, hTask.trans h.get, h.frames,
        h.isChild, h.isParent, h.current.mono hCopies.nodes,
        h.stage.keep hCopies, hRoom a x pc hPc h.get h.room,
        h.own.carry hKeeps hStays⟩
  | syncing a =>
      rw [hPc] at h
      rcases h with ⟨x, f, fs, hGet, h⟩
      rcases hHeld a _ (by rw [hPc]; rfl) with ⟨hTask, hStays⟩
      exact ⟨x, f, fs, hTask.trans hGet, h.frames,
        h.frame.keep hCopies, h.own.carry hKeeps hStays,
        h.deque⟩
  | returning d =>
      rw [hPc] at h
      rcases h with ⟨a, x, q, f, fs, hLink, hPending, hStolen,
        h⟩
      rcases hHeld d _ (by rw [hPc]; rfl) with ⟨-, hStays⟩
      rcases hLink.carry hKeeps.carried hStays.1 with
        ⟨x', hLink', hPending', -⟩
      refine ⟨a, x', q, f, fs, hLink',
        hPending'.trans hPending, ?_, h.frames,
        h.frame.keep hCopies,
        h.own.give hKeeps hLink'.parent_live ?_, h.deque⟩
      · intro act v hAct hSpawned
        rcases hKeeps.stolen a d act v hAct hSpawned
          hLink.live with ⟨act', hAct', hSpawned'⟩
        exact hStolen act' v hAct' hSpawned'
      · intro _ _
        exact hActs a hLink'.parent_live

end View

end WorkStealing

end PRacer
