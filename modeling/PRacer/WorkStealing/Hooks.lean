import PRacer.WorkStealing.Frames

/-
  What the hooks do to the frames of one worker.  None of
  them changes the orders.

  Main declarations:
    * `State.hook_enter`, `State.hook_sync`
    * `State.hook_leave_call`, `State.hook_leave_spawn`
    * `State.hook_leave_stolen`, `initStrand_spec`
-/

------------------------------------------------------------
-- Frames and Orders
------------------------------------------------------------

namespace PRacer

open Foundations

namespace Layout

variable {L : Layout} {s s' : ShadowStack}
variable {f : FrameData} {current cont sync : Option Path}
variable {helper : Bool} {n : Nat × Nat} {p : Path}

/- Only the orders matter. -/
theorem At.congr
    (h : L.At s n p)
    (hEnglish : s'.english = s.english)
    (hHebrew : s'.hebrew = s.hebrew) :
    L.At s' n p where
  mem_english := hEnglish ▸ h.mem_english
  mem_hebrew := hHebrew ▸ h.mem_hebrew
  english := h.english
  hebrew := h.hebrew

theorem FrameAt.congr
    (h : L.FrameAt s f current cont sync helper)
    (hEnglish : s'.english = s.english)
    (hHebrew : s'.hebrew = s.hebrew) :
    L.FrameAt s' f current cont sync helper :=
  h.mono fun _ _ hAt => hAt.congr hEnglish hHebrew

/- Nodes that stand at a path are there. -/
theorem NodesAt.some
    {e h : Option Nat}
    (hAt : L.NodesAt s e h (some p)) :
    ∃ m n, e = Option.some m ∧ h = Option.some n ∧
      L.At s (m, n) p := by
  cases hAt with
  | node hNode => exact ⟨_, _, rfl, rfl, hNode⟩

theorem NodesAt.none
    {e h : Option Nat}
    (hAt : L.NodesAt s e h none) :
    e = Option.none ∧ h = Option.none := by
  cases hAt
  exact ⟨rfl, rfl⟩

end Layout

------------------------------------------------------------
-- Hooks
------------------------------------------------------------

namespace WorkStealing

/- A thief takes over the continuation. -/
theorem initStrand_spec
    {L : Layout} {o : ShadowStack} {f : FrameData}
    {k : Path} {sync : Option Path}
    (fs : List FrameData)
    (hFrame : L.FrameAt o f none (some k) sync false) :
    ∃ g, initStrand (f :: fs) = some (g :: fs) ∧
      L.FrameAt o g (some k) none sync false := by
  have hNone := hFrame.current.none
  let g : FrameData :=
    { f with
      currentEnglish := f.contEnglish
      currentHebrew := f.contHebrew
      contEnglish := none
      contHebrew := none }
  refine ⟨g, ?_, hFrame.cont, .empty, hFrame.sync,
    hFrame.helper⟩
  simp [initStrand, hNone, hFrame.helper, g]

namespace State

section Strands

variable {Worker : Type} {s : State Worker} {w : Worker}
variable {L : Layout} {f : FrameData} {fs : List FrameData}
variable {p : Path} {cont sync : Option Path} {helper : Bool}

theorem strand_eq
    (act : Activation Worker)
    (hFrames : (s.workers w).frames = f :: fs)
    (hFrame : L.FrameAt s.orders f (some p) cont sync
      helper) :
    ∃ e h, L.At s.orders (e, h) p ∧
      s.strand w act = some { s with
        strands := s.strands ++ [⟨act.leaf, e, h⟩] } := by
  rcases hFrame.current.some with ⟨e, h, hE, hH, hAt⟩
  refine ⟨e, h, hAt, ?_⟩
  simp [strand, hFrames, hE, hH]

end Strands

variable {Worker : Type} [DecidableEq Worker]
variable {s : State Worker} {w : Worker} {L : Layout}
variable {f g : FrameData} {fs : List FrameData}
variable {p q : Path} {current cont sync : Option Path}
variable {helper : Bool}

/- The frames of one worker changed. -/
def setFrames
    (s : State Worker) (w : Worker) (fs : List FrameData) :
    State Worker :=
  s.setWorker w { s.workers w with frames := fs }

theorem hook_of_frames
    {run : ShadowStack → Option ShadowStack}
    (hRun : run (s.view w) =
      some { s.view w with frames := fs }) :
    s.hook w run = some (s.setFrames w fs) := by
  unfold hook
  rw [hRun]
  rfl

theorem hook_enter
    (hFrames : (s.workers w).frames = f :: fs)
    (hFrame : L.FrameAt s.orders f (some p) cont sync
      helper) :
    ∃ g, s.hook w ShadowStack.doEnterBegin =
        some (s.setFrames w (g :: f :: fs)) ∧
      L.FrameAt s.orders g (some p) none none false := by
  let g : FrameData :=
    { currentEnglish := f.currentEnglish
      currentHebrew := f.currentHebrew
      contEnglish := none
      contHebrew := none
      syncEnglish := none
      syncHebrew := none
      helper := false }
  refine ⟨g, hook_of_frames ?_, hFrame.current, .empty,
    .empty, rfl⟩
  simp [ShadowStack.doEnterBegin, view, hFrames, g]

theorem hook_sync
    (hFrames : (s.workers w).frames = f :: fs)
    (hFrame : L.FrameAt s.orders f (some p) none sync
      false) :
    ∃ g, s.hook w ShadowStack.doSyncBegin =
        some (s.setFrames w (g :: fs)) ∧
      L.FrameAt s.orders g (some (sync.getD p)) none none
        false := by
  have hCont := hFrame.cont.none
  rcases hFrame.current.some with ⟨e, h, hE, hH, -⟩
  cases sync with
  | none =>
      have hSync := hFrame.sync.none
      refine ⟨f, hook_of_frames ?_, hFrame⟩
      simp [ShadowStack.doSyncBegin, view, hFrames, hE, hH,
        hCont, hSync, hFrame.helper]
  | some q =>
      rcases hFrame.sync.some with ⟨m, n, hM, hN, hAt⟩
      let g : FrameData :=
        { f with
          currentEnglish := some m
          currentHebrew := some n
          syncEnglish := none
          syncHebrew := none }
      refine ⟨g, hook_of_frames ?_, .node hAt, hFrame.cont,
        .empty, hFrame.helper⟩
      simp [ShadowStack.doSyncBegin, view, hFrames, hE, hH,
        hCont, hM, hN, hFrame.helper, g]

/- The tail moves down with the head. -/
theorem popHook_of_hook
    {run : ShadowStack → Option ShadowStack}
    (hFrames : (s.workers w).frames = g :: f :: fs)
    (hTail : (s.workers w).tail ≤ fs.length + 1)
    {f' : FrameData}
    (hRun : s.hook w run =
      some (s.setFrames w (f' :: fs))) :
    s.popHook w run =
      some (s.setWorker w { s.workers w with
        frames := f' :: fs
        tail := min (s.workers w).tail fs.length }) := by
  have hPop : ({ s.workers w with frames := f' :: fs } :
      WorkerState).popTail =
      some { s.workers w with
        frames := f' :: fs
        tail := min (s.workers w).tail fs.length } := by
    unfold WorkerState.popTail
    dsimp only
    rw [List.length_cons, if_neg (by omega)]
    split
    · rw [show min (s.workers w).tail fs.length =
        (s.workers w).tail - 1 by omega]
    · rw [Nat.min_eq_left (by omega)]
  unfold popHook
  rw [hRun, Option.bind_some, if_neg (by simp [hFrames])]
  simp only [setFrames, setWorker, Function.update_self, hPop,
    Option.map_some, Function.update_idem]

/- A function returns to its caller. -/
theorem hook_leave_call
    (hFrames : (s.workers w).frames = g :: f :: fs)
    (hTop : L.FrameAt s.orders g (some p) none none false)
    (hFrame : L.FrameAt s.orders f current none sync
      helper) :
    ∃ f', s.hook w ShadowStack.doLeaveEnd =
        some (s.setFrames w (f' :: fs)) ∧
      L.FrameAt s.orders f' (some p) none sync helper := by
  have hCont := hFrame.cont.none
  let f' : FrameData :=
    { f with
      currentEnglish := g.currentEnglish
      currentHebrew := g.currentHebrew }
  refine ⟨f', hook_of_frames ?_, hTop.current, hFrame.cont,
    hFrame.sync, hFrame.helper⟩
  simp [ShadowStack.doLeaveEnd, view, hFrames, hCont,
    hTop.helper, f']

/- The first function returns. -/
theorem popHook_leave_last
    (hFrames : (s.workers w).frames = [g]) :
    s.popHook w ShadowStack.doLeaveEnd =
      some (s.setFrames w [g]) := by
  have hHook : s.hook w ShadowStack.doLeaveEnd =
      some (s.setFrames w [g]) := by
    refine hook_of_frames ?_
    simp [ShadowStack.doLeaveEnd, view, hFrames]
  unfold popHook
  rw [hHook, Option.bind_some, if_pos (by simp [hFrames])]

/- A helper returns to the continuation. -/
theorem hook_leave_spawn
    (hFrames : (s.workers w).frames = g :: f :: fs)
    (hTop : g.helper = true)
    (hFrame : L.FrameAt s.orders f none (some p) (some q)
      false) :
    ∃ f', s.hook w ShadowStack.doLeaveEnd =
        some (s.setFrames w (f' :: fs)) ∧
      L.FrameAt s.orders f' (some p) none (some q) false := by
  have hNone := hFrame.current.none
  rcases hFrame.cont.some with ⟨m, n, hM, hN, -⟩
  rcases hFrame.sync.some with ⟨m', n', hM', hN', -⟩
  let f' : FrameData :=
    { f with
      currentEnglish := f.contEnglish
      currentHebrew := f.contHebrew
      contEnglish := none
      contHebrew := none }
  refine ⟨f', hook_of_frames ?_, hFrame.cont, .empty,
    hFrame.sync, hFrame.helper⟩
  simp [ShadowStack.doLeaveEnd, view, hFrames, hNone, hTop,
    hM, hN, hM', hN', f']

/- A helper returns behind the sync of its parent. -/
theorem hook_leave_stolen
    (hFrames : (s.workers w).frames = g :: f :: fs)
    (hTop : g.helper = true)
    (hFrame : L.FrameAt s.orders f none (some p) (some q)
      false) :
    ∃ f', s.hook w doLeaveStolen =
        some (s.setFrames w (f' :: fs)) ∧
      L.FrameAt s.orders f' (some q) none none false := by
  have hNone := hFrame.current.none
  rcases hFrame.cont.some with ⟨m, n, hM, hN, -⟩
  rcases hFrame.sync.some with ⟨m', n', hM', hN', hAt⟩
  let f' : FrameData :=
    { f with
      currentEnglish := some m'
      currentHebrew := some n'
      contEnglish := none
      contHebrew := none
      syncEnglish := none
      syncHebrew := none }
  refine ⟨f', hook_of_frames ?_, .node hAt, .empty, .empty,
    hFrame.helper⟩
  simp [doLeaveStolen, view, hFrames, hNone, hTop, hM, hN,
    hM', hN', hFrame.helper, f']

end State

end WorkStealing

end PRacer
