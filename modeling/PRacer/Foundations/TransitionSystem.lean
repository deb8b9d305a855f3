import Mathlib.Data.List.Induction

/-
  Labelled transition systems, their finite runs and the
  induction rules for invariants.

  Main declarations:
    * `TransitionSystem.Run` and its composition
    * `TransitionSystem.Reachable.invariant`,
      `TransitionSystem.Run.of_foldlM`
    * `TransitionSystem.restrict`,
      `TransitionSystem.Reachable.of_restrict` and
      `TransitionSystem.Run.holds_iff_restrict`
-/

------------------------------------------------------------
-- Systems and Runs
------------------------------------------------------------

namespace PRacer

namespace Foundations

/- Initial states together with labelled steps. -/
structure TransitionSystem
    (State : Type*) (Action : Type*) where
  init : State → Prop
  step : State → Action → State → Prop

namespace TransitionSystem

variable {State Action : Type*}
variable {T : TransitionSystem State Action}

/- A finite run, labelled by the actions it takes in order. -/
inductive Run (T : TransitionSystem State Action) :
    State → List Action → State → Prop
| refl (s : State) : Run T s [] s
| tail {s t u : State} {acts : List Action} {a : Action} :
    Run T s acts t → T.step t a u → Run T s (acts ++ [a]) u

/- The states that some run reaches from an initial state. -/
def Reachable
    (T : TransitionSystem State Action)
    (s : State) : Prop :=
  ∃ s₀ acts, T.init s₀ ∧ T.Run s₀ acts s

/- One step is a run of length one. -/
theorem Run.single
    {s t : State} {a : Action}
    (hStep : T.step s a t) :
    T.Run s [a] t := by
  simpa using Run.tail (Run.refl s) hStep

/- Runs compose, and so do their labels. -/
theorem Run.append
    {s t u : State} {first second : List Action}
    (hFirst : T.Run s first t)
    (hSecond : T.Run t second u) :
    T.Run s (first ++ second) u := by
  induction hSecond with
  | refl => simpa using hFirst
  | tail _ hStep ih =>
      rw [← List.append_assoc]
      exact Run.tail ih hStep

/- A run extends by a step in front. -/
theorem Run.head
    {s t u : State} {a : Action} {acts : List Action}
    (hStep : T.step s a t)
    (hRun : T.Run t acts u) :
    T.Run s (a :: acts) u := by
  simpa using (Run.single hStep).append hRun

/- Steps that were computed one after the other are a run. -/
theorem Run.of_foldlM
    {Error : Type*} {s t : State} {acts : List Action}
    {perform : State → Action → Except Error State}
    (hSound : ∀ s a t, perform s a = Except.ok t →
      T.step s a t)
    (hRun : acts.foldlM perform s = Except.ok t) :
    T.Run s acts t := by
  induction acts generalizing s with
  | nil =>
      cases hRun
      exact Run.refl _
  | cons a acts ih =>
      rw [List.foldlM_cons] at hRun
      cases hOne : perform s a with
      | error e =>
          rw [hOne] at hRun
          cases hRun
      | ok u =>
          rw [hOne] at hRun
          exact Run.head (hSound s a u hOne) (ih hRun)

/- A run passes through a state after each of its prefixes. -/
theorem Run.split
    {s u : State} {first second : List Action}
    (hRun : T.Run s (first ++ second) u) :
    ∃ t, T.Run s first t ∧ T.Run t second u := by
  induction second using List.reverseRecOn generalizing u with
  | nil =>
      rw [List.append_nil] at hRun
      exact ⟨u, hRun, Run.refl u⟩
  | append_singleton second a ih =>
      rw [← List.append_assoc] at hRun
      generalize hActs : first ++ second ++ [a] = acts at hRun
      cases hRun with
      | refl => simp at hActs
      | tail hBefore hStep =>
          obtain ⟨rfl, hLast⟩ := List.append_inj' hActs rfl
          cases hLast
          rcases ih hBefore with ⟨t, hFirst, hSecond⟩
          exact ⟨t, hFirst, hSecond.tail hStep⟩

/- The label of a step determines what it does. -/
def Deterministic (T : TransitionSystem State Action) : Prop :=
  ∀ s a t u, T.step s a t → T.step s a u → t = u

theorem Run.unique
    (hDet : T.Deterministic)
    {s t u : State} {acts : List Action}
    (hLeft : T.Run s acts t)
    (hRight : T.Run s acts u) :
    t = u := by
  induction hLeft generalizing u with
  | refl =>
      generalize hActs : [] = acts at hRight
      cases hRight with
      | refl => rfl
      | tail => simp at hActs
  | @tail t t' acts a _ hStep ih =>
      generalize hActs : acts ++ [a] = labels at hRight
      cases hRight with
      | refl => simp at hActs
      | tail hBefore hLast =>
          obtain ⟨rfl, hSame⟩ := List.append_inj' hActs rfl
          cases hSame
          obtain rfl := ih hBefore
          exact hDet _ _ _ _ hStep hLast

------------------------------------------------------------
-- Invariants
------------------------------------------------------------

theorem Reachable.of_init
    {s : State}
    (hInit : T.init s) :
    T.Reachable s :=
  ⟨s, [], hInit, Run.refl s⟩

theorem Reachable.step
    {s t : State} {a : Action}
    (hReach : T.Reachable s)
    (hStep : T.step s a t) :
    T.Reachable t := by
  rcases hReach with ⟨s₀, acts, hInit, hRun⟩
  exact ⟨s₀, acts ++ [a], hInit, hRun.tail hStep⟩

theorem Reachable.run
    {s t : State} {acts : List Action}
    (hReach : T.Reachable s)
    (hRun : T.Run s acts t) :
    T.Reachable t := by
  rcases hReach with ⟨s₀, first, hInit, hFirst⟩
  exact ⟨s₀, first ++ acts, hInit, hFirst.append hRun⟩

theorem Reachable.of_foldlM
    {Error : Type*} {s t : State} {acts : List Action}
    {perform : State → Action → Except Error State}
    (hSound : ∀ s a t, perform s a = Except.ok t →
      T.step s a t)
    (hReach : T.Reachable s)
    (hRun : acts.foldlM perform s = Except.ok t) :
    T.Reachable t :=
  hReach.run (Run.of_foldlM hSound hRun)

/- What a step preserves, a run preserves. -/
theorem Run.invariant
    {P : State → Prop}
    (hStep :
      ∀ s a t, P s → T.step s a t → P t)
    {s t : State} {acts : List Action}
    (hRun : T.Run s acts t)
    (hP : P s) :
    P t := by
  induction hRun with
  | refl => exact hP
  | tail _ hLast ih => exact hStep _ _ _ ih hLast

/-
  What holds initially and is preserved by every step holds
  in every reachable state.
-/
theorem Reachable.invariant
    {P : State → Prop}
    (hInit : ∀ s, T.init s → P s)
    (hStep :
      ∀ s a t, P s → T.step s a t → P t)
    {s : State}
    (hReach : T.Reachable s) :
    P s := by
  rcases hReach with ⟨s₀, acts, h₀, hRun⟩
  exact hRun.invariant hStep (hInit s₀ h₀)

------------------------------------------------------------
-- Restricted Systems
------------------------------------------------------------

/- The runs all of whose steps meet a condition. -/
def restrict
    (T : TransitionSystem State Action)
    (cond : State → Action → Prop) :
    TransitionSystem State Action where
  init := T.init
  step s a t := T.step s a t ∧ cond s a

theorem Run.of_restrict
    {cond : State → Action → Prop}
    {s t : State} {acts : List Action}
    (hRun : (T.restrict cond).Run s acts t) :
    T.Run s acts t := by
  induction hRun with
  | refl => exact Run.refl _
  | tail _ hStep ih => exact ih.tail hStep.1

theorem Reachable.of_restrict
    {cond : State → Action → Prop}
    {s : State}
    (hReach : (T.restrict cond).Reachable s) :
    T.Reachable s := by
  rcases hReach with ⟨s₀, acts, hInit, hRun⟩
  exact ⟨s₀, acts, hInit, hRun.of_restrict⟩

/- A run whose labels always meet the condition. -/
theorem Run.to_restrict
    {cond : State → Action → Prop}
    {s t : State} {acts : List Action}
    (hRun : T.Run s acts t)
    (hMeets : ∀ s, ∀ a ∈ acts, cond s a) :
    (T.restrict cond).Run s acts t := by
  induction hRun with
  | refl => exact Run.refl _
  | @tail t _ acts a _ hStep ih =>
      have hBefore := ih fun s b hb =>
        hMeets s b (List.mem_append_left _ hb)
      have hLast := hMeets t a
        (List.mem_append_right _ (List.mem_singleton_self a))
      exact hBefore.tail ⟨hStep, hLast⟩

/-
  Where runs that meet a condition keep a property, and a step
  that does not meet it breaks the property, the property
  holds all along a run exactly if the run meets the
  condition.
-/
theorem Run.holds_iff_restrict
    {cond : State → Action → Prop} {P : State → Prop}
    {s₀ s : State} {acts : List Action}
    (hDet : T.Deterministic)
    (hKeeps : ∀ acts s,
      (T.restrict cond).Run s₀ acts s → P s)
    (hBreaks : ∀ acts s a t,
      T.Run s₀ acts s → T.step s a t → ¬ cond s a → ¬ P t)
    (hRun : T.Run s₀ acts s) :
    (∀ first t, first <+: acts → T.Run s₀ first t → P t) ↔
      (T.restrict cond).Run s₀ acts s := by
  constructor
  · intro hAll
    induction hRun with
    | refl => exact Run.refl _
    | @tail s t acts a hBefore hStep ih =>
        have hMet := ih fun first u hPrefix =>
          hAll first u (hPrefix.trans (List.prefix_append _ _))
        by_cases hCond : cond s a
        · exact hMet.tail ⟨hStep, hCond⟩
        · have hHolds := hAll _ t (List.prefix_refl _)
            (hBefore.tail hStep)
          exact absurd hHolds
            (hBreaks _ _ _ _ hBefore hStep hCond)
  · intro hMet first t hPrefix hFirst
    rcases hPrefix with ⟨rest, rfl⟩
    rcases hMet.split with ⟨u, hStart, -⟩
    obtain rfl := hStart.of_restrict.unique hDet hFirst
    exact hKeeps first _ hStart

end TransitionSystem

end Foundations

end PRacer
