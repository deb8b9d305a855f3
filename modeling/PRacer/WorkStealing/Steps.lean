import PRacer.WorkStealing.Simulation

/-
  What a step has to do so that the workers still simulate
  tasks, and how single steps of tasks change who is a helper
  of whom.

  Main declarations:
    * `Moves`, `Simulates.move`, `Simulates.stay`
    * `Tasks.helperOf_change`, `Tasks.helperOf_branch`
    * `Tasks.helperOf_join`
-/

------------------------------------------------------------
-- Helpers
------------------------------------------------------------

namespace PRacer

open Foundations

namespace WorkStealing

namespace Tasks

variable {main : Code} {t t' : Tasks} {a b c : Nat}
variable {x x' z : Task} {log : List Nat}

theorem helperOf_change
    (x' : Task)
    (hGet : t.get a = some x)
    (hParent : x'.parent = x.parent)
    (hHelper : x'.rest.isHelper = x.rest.isHelper) :
    (t.change a x' log).HelperOf c b ↔ t.HelperOf c b := by
  unfold HelperOf
  rw [get_change hGet]
  by_cases hc : c = a
  · subst hc
    simp [hGet, hParent, hHelper]
  · simp [hc]

theorem helperOf_branch
    (x' : Task)
    (hGet : t.get a = some x)
    (hParent : x'.parent = x.parent)
    (hHelper : x'.rest.isHelper = x.rest.isHelper)
    (hNew : z.parent = some a) :
    (t.branch a x' z log).HelperOf c b ↔
      (c = t.heap.next ∧ b = a ∧ z.rest.isHelper = true) ∨
        t.HelperOf c b := by
  have hNone : t.get t.heap.next = none :=
    Heap.get_eq_none (Nat.le_refl _)
  unfold HelperOf
  rw [get_branch hGet]
  by_cases hn : c = t.heap.next
  · subst hn
    simp [hNone, hNew, @eq_comm _ a b]
  · by_cases hc : c = a
    · subst hc
      simp [hGet, hn, hParent, hHelper]
    · simp [hn, hc]

theorem helperOf_join :
    (t.join a).HelperOf c b ↔ c ≠ a ∧ t.HelperOf c b := by
  unfold HelperOf
  rw [get_join]
  by_cases hc : c = a
  · simp [hc]
  · simp [hc]

/- A task that was never there has no helpers. -/
theorem not_helperOf_next
    (hTree : Tree main t) :
    ¬ t.HelperOf c t.heap.next := by
  rintro ⟨x, hGet, hParent, -⟩
  rcases hTree.child c x _ hGet hParent with ⟨y, hy, -⟩
  exact Nat.lt_irrefl _ (Heap.lt_next hy)

end Tasks

------------------------------------------------------------
-- Steps
------------------------------------------------------------

variable {Worker : Type}

theorem Good.congr
    {t t' : Tasks} {a : Nat} {act : Activation Worker}
    {x : Task}
    (h : Good t a act x)
    (hHelpers : ∀ c, t'.HelperOf c a ↔ t.HelperOf c a) :
    Good t' a act x :=
  { h with
    children := fun c => by
      rw [hHelpers c]
      exact h.children c
    spawned := fun c v hControl =>
      (hHelpers c).mpr (h.spawned c v hControl) }

/-
  A step of some workers concerns two activations.  The new
  strands are those that the tasks log.
-/
structure Moves
    (main : Code) (L : Layout) (t : Tasks) (s : State Worker)
    (L' : Layout) (t' : Tasks) (s' : State Worker)
    (M : Worker → Prop) (i j : Nat) : Prop where
  reach : (taskSystem main).Reachable t'
  touches : View.Touches (s.see L t) (s'.see L' t') M i j
  carried : t.Carried t'
  next : s'.acts.next = t'.heap.next
  good :
    ∀ b act, b = i ∨ b = j → s'.acts.get b = some act →
      ∃ x, t'.get b = some x ∧ Good t' b act x
  live :
    ∀ b x, b = i ∨ b = j → t'.get b = some x →
      ∃ act, s'.acts.get b = some act
  helpers :
    ∀ b c, b ≠ i → b ≠ j →
      (t'.HelperOf c b ↔ t.HelperOf c b)
  workers : ∀ w, ¬ M w → s'.workers w = s.workers w
  before :
    ∀ w b k, M w → (s.workers w).pc.holds w = some (b, k) →
      b = i ∨ b = j
  holder :
    ∀ b act w, b = i ∨ b = j → s'.acts.get b = some act →
      act.control.holder = some w →
      (s'.workers w).pc.holds w = some (b, act.control)
  holds :
    ∀ w b k, M w → (s'.workers w).pc.holds w = some (b, k) →
      ∃ act, s'.acts.get b = some act ∧ act.control = k
  shadows :
    ∀ w, M w → (s'.see L' t').Stack w (s'.workers w)
  opens :
    ∀ b x, b = i ∨ b = j → t'.get b = some x → x.Opens L'
  strands :
    ∃ new : List Strand, s'.strands = s.strands ++ new ∧
      t'.log = t.log ++ new.map Strand.leaf ∧
      ∀ y ∈ new, ∃ p, (walkOf main)[y.leaf]? = some p ∧
        L'.At s'.orders (y.english, y.hebrew) p

/- What a step does to the layout. -/
structure Grows
    (L : Layout) (t : Tasks) (s : State Worker)
    (L' : Layout) (s' : State Worker)
    (M : Worker → Prop) (i j : Nat) : Prop where
  fits : L'.Fits s'.orders
  english :
    ∀ n p, L.EnglishAt s.orders n p →
      L'.EnglishAt s'.orders n p
  hebrew :
    ∀ n p, L.HebrewAt s.orders n p →
      L'.HebrewAt s'.orders n p
  room :
    ∀ w b x pc, ¬ M w → (s.workers w).pc = .detaching b pc →
      t.get b = some x →
      L.Room s.orders x.path pc.inEnglish pc.inHebrew →
      L'.Room s'.orders x.path pc.inEnglish pc.inHebrew
  opens :
    ∀ b x, b ≠ i → b ≠ j → t.get b = some x → x.Opens L →
      x.Opens L'

variable {main : Code} {L L' : Layout} {t t' : Tasks}
variable {s s' : State Worker} {M : Worker → Prop}
variable {i j a : Nat} {w : Worker}

namespace Simulates

/- Everything but the frames. -/
private theorem move_acts
    (h : Simulates main L t s)
    (hMoves : Moves main L t s L' t' s' M i j) :
    Acts t' s'.acts := by
  refine ⟨hMoves.next, ?_, ?_⟩
  · intro b act hAct
    by_cases hb : b = i ∨ b = j
    · exact hMoves.good b act hb hAct
    · rw [not_or] at hb
      have hOld := hMoves.touches.acts b hb.1 hb.2
      rcases h.acts.good b act (hOld.symm.trans hAct) with
        ⟨x, hGet, hGood⟩
      exact ⟨x, (hMoves.touches.tasks b hb.1 hb.2).trans hGet,
        hGood.congr fun c => hMoves.helpers b c hb.1 hb.2⟩
  · intro b x hGet
    by_cases hb : b = i ∨ b = j
    · exact hMoves.live b x hb hGet
    · rw [not_or] at hb
      have hOld := hMoves.touches.tasks b hb.1 hb.2
      rcases h.acts.live b x (hOld.symm.trans hGet) with
        ⟨act, hAct⟩
      exact ⟨act,
        (hMoves.touches.acts b hb.1 hb.2).trans hAct⟩

private theorem move_held
    (h : Simulates main L t s)
    (hMoves : Moves main L t s L' t' s' M i j) :
    Held s'.acts s'.workers := by
  refine ⟨?_, ?_⟩
  · intro b act w hAct hHolder
    by_cases hb : b = i ∨ b = j
    · exact hMoves.holder b act w hb hAct hHolder
    · have hb' := not_or.mp hb
      have hOld := hMoves.touches.acts b hb'.1 hb'.2
      have hHolds := h.held.holder b act w
        (hOld.symm.trans hAct) hHolder
      by_cases hw : M w
      · exact absurd (hMoves.before w b _ hw hHolds) hb
      · rw [hMoves.workers w hw]
        exact hHolds
  · intro w b k hHolds
    by_cases hw : M w
    · exact hMoves.holds w b k hw hHolds
    · rw [hMoves.workers w hw] at hHolds
      rcases h.held.holds w b k hHolds with
        ⟨act, hAct, hControl⟩
      by_cases hb : b = i ∨ b = j
      · rcases hMoves.touches.old b act hb hAct with
          ⟨act', hAct', hControl', -⟩ | ⟨hHolder, -, -⟩
        · exact ⟨act', hAct', hControl'.trans hControl⟩
        · refine absurd (hHolder w ?_) hw
          rw [hControl]
          cases hPc : (s.workers w).pc <;>
            simp only [hPc, WorkerPc.holds, Option.some.injEq,
              Prod.mk.injEq, reduceCtorEq] at hHolds
          all_goals
            rw [← hHolds.2]
            rfl
      · rw [not_or] at hb
        exact ⟨act,
          (hMoves.touches.acts b hb.1 hb.2).trans hAct,
          hControl⟩

/- The workers that a step does not concern. -/
private theorem move_shadow
    (h : Simulates main L t s)
    (hMoves : Moves main L t s L' t' s' M i j)
    (hGrows : Grows L t s L' s' M i j)
    (hw : ¬ M w) :
    (s'.see L' t').Stack w (s'.workers w) := by
  have hKeeps := hMoves.touches.keeps hGrows.english
    hGrows.hebrew hMoves.carried hw
  rw [hMoves.workers w hw]
  refine (h.shadows w).carry hKeeps ?_ ?_ ?_
  · intro b hLive
    rcases Option.ne_none_iff_exists'.mp hLive with ⟨x, hGet⟩
    rcases (h.move_acts hMoves).live b x hGet with ⟨act, hAct⟩
    exact fun hNone => by simp [State.see, hAct] at hNone
  · intro b k hHolds
    rcases h.held.holds w b k hHolds with ⟨act, hAct, hControl⟩
    rcases h.acts.good b act hAct with ⟨x, hGet, -⟩
    by_cases hb : b = i ∨ b = j
    · rcases hMoves.touches.old b act hb hAct with
        ⟨act', hAct', hControl', hUnsynched, hTask⟩ |
        ⟨hHolder, -, -⟩
      · refine ⟨hTask, ?_, act, act', hAct, hAct',
          fun hTrue => hUnsynched ▸ hTrue⟩
        exact hTask ▸ (by simp [State.see, hGet])
      · have hMine := (h.move_held hMoves).holds w b k (by
          rw [hMoves.workers w hw]
          exact hHolds)
        refine absurd (hHolder w ?_) hw
        rw [hControl]
        cases hPc : (s.workers w).pc <;>
          simp only [hPc, WorkerPc.holds, Option.some.injEq,
            Prod.mk.injEq, reduceCtorEq] at hHolds
        all_goals
          rw [← hHolds.2]
          rfl
    · rw [not_or] at hb
      have hTask := hMoves.touches.tasks b hb.1 hb.2
      exact ⟨hTask, hTask ▸ (by simp [State.see, hGet]), act,
        act, hAct,
        (hMoves.touches.acts b hb.1 hb.2).trans hAct, id⟩
  · intro b x pc hPc hGet hRoom
    exact hGrows.room w b x pc hw hPc hGet hRoom

theorem move
    (h : Simulates main L t s)
    (hMoves : Moves main L t s L' t' s' M i j)
    (hGrows : Grows L t s L' s' M i j) :
    Simulates main L' t' s' where
  reach := hMoves.reach
  acts := h.move_acts hMoves
  held := h.move_held hMoves
  shadows w := by
    by_cases hw : M w
    · exact hMoves.shadows w hw
    · exact h.move_shadow hMoves hGrows hw
  fits := hGrows.fits
  opens b x hGet := by
    by_cases hb : b = i ∨ b = j
    · exact hMoves.opens b x hb hGet
    · rw [not_or] at hb
      have hOld := (hMoves.touches.tasks b hb.1 hb.2).symm.trans
        hGet
      exact hGrows.opens b x hb.1 hb.2 hOld
        (h.opens b x hOld)
  log := by
    rcases hMoves.strands with ⟨new, hStrands, hLog, -⟩
    rw [hLog, hStrands, List.map_append, h.log]
  strands y hy := by
    rcases hMoves.strands with ⟨new, hStrands, -, hNew⟩
    rw [hStrands, List.mem_append] at hy
    rcases hy with hy | hy
    · rcases h.strands y hy with ⟨p, hPath, hAt⟩
      exact ⟨p, hPath, Layout.At.of_halves
        (hGrows.english _ _ hAt.halves.1)
        (hGrows.hebrew _ _ hAt.halves.2)⟩
    · exact hNew y hy

/- The same, if the orders stay as they are. -/
theorem stay
    (h : Simulates main L t s)
    (hOrders : s'.orders = s.orders)
    (hMoves : Moves main L t s L t' s' M i j) :
    Simulates main L t' s' := by
  refine h.move hMoves ⟨?_, ?_, ?_, ?_, fun _ _ _ _ _ h => h⟩
  · rw [hOrders]
    exact h.fits
  · rw [hOrders]
    exact fun _ _ h => h
  · rw [hOrders]
    exact fun _ _ h => h
  · rw [hOrders]
    exact fun _ _ _ _ _ _ _ h => h

/- A worker that runs, and its activation. -/
theorem held_by
    (h : Simulates main L t s)
    {k : Control Worker}
    (hHolds : (s.workers w).pc.holds w = some (a, k)) :
    ∃ act x, s.acts.get a = some act ∧ act.control = k ∧
      t.get a = some x ∧ Good t a act x := by
  rcases h.held.holds w a k hHolds with ⟨act, hAct, hControl⟩
  rcases h.acts.good a act hAct with ⟨x, hGet, hGood⟩
  exact ⟨act, x, hAct, hControl, hGet, hGood⟩

end Simulates

end WorkStealing

end PRacer
