import Mathlib.Order.Bounds.Basic
import PRacer.Pipeline.Correctness

/-
  The left dependencies that the waits of a pipeline find,
  when the stage numbers of an iteration may repeat, as the
  macros for stages allow (`piper.h`).

  Main declarations:
    * `stagingSystem`
    * `WaitCall.Found`, `Dependencies`
    * `dependencies_iff_single`
-/

------------------------------------------------------------
-- Stages and Waits
------------------------------------------------------------

namespace PRacer

open Foundations

/- A call of `getLeftDependency` and the list it looks at. -/
structure WaitCall where
  iterNum : Nat
  stage : Nat
  left : List Nat
  cursor : Nat
  result : Nat
  cursorAfter : Nat
deriving DecidableEq, Repr

namespace PiperState

/- The stage numbers of an iteration so far. -/
def numbers (s : PiperState) (i : Nat) : List Nat :=
  (s.iterations i).frames.map StageFrame.stageNum

/- The call that a wait of an iteration makes. -/
def waitCall (s : PiperState) (i n : Nat) : WaitCall :=
  let r := s.getLeftDependency i n
  { iterNum := i
    stage := n
    left := s.numbers (i - 1)
    cursor := (s.iterations i).index
    result := r.1
    cursorAfter := (r.2.iterations i).index }

end PiperState

/- The hooks' state and the calls so far, the last first. -/
structure StagingState where
  piper : PiperState
  calls : List WaitCall

namespace StagingState

/-
  The number is not below the last one of the iteration, and
  every wait of the next iteration for it has yet to come.
-/
def Admits (s : StagingState) (i n : Nat) : Prop :=
  (∃ last, (s.piper.numbers i).getLast? = some last ∧
    last ≤ n) ∧
  ∀ c ∈ s.calls, c.iterNum = i + 1 → c.stage < n

end StagingState

inductive StagingAction where
| first (i : Nat)
| stage (i n : Nat)
| wait (i n : Nat)
deriving DecidableEq, Repr

/- The hooks of all iterations, in any order. -/
def stagingStep
    (s : StagingState) (a : StagingAction)
    (t : StagingState) : Prop :=
  match a with
  | .first i =>
      1 ≤ i ∧ s.piper.numbers i = [] ∧
        s.piper.cilkStageFirst i = some t.piper ∧
        t.calls = s.calls
  | .stage i n =>
      s.Admits i n ∧ s.piper.cilkStage i n = some t.piper ∧
        t.calls = s.calls
  | .wait i n =>
      s.Admits i n ∧
        s.piper.cilkStageWait i n = some t.piper ∧
        t.calls =
          if 1 < i then s.piper.waitCall i n :: s.calls
          else s.calls

def stagingSystem :
    TransitionSystem StagingState StagingAction where
  init s := s = { piper := .cilkPipeWhileBegin, calls := [] }
  step := stagingStep

------------------------------------------------------------
-- What a Call Should Find
------------------------------------------------------------

namespace WaitCall

/- A left stage that the wait depends on. -/
def UpTo (c : WaitCall) (k : Nat) : Prop :=
  ∃ n, c.left[k]? = some n ∧ n ≤ c.stage

/-
  The result is the last left stage from the cursor on that
  the wait depends on, or 0, and the cursor is moved past
  all of these stages.
-/
structure Found (c : WaitCall) : Prop where
  result :
    IsGreatest { k | c.cursor ≤ k ∧ c.UpTo k } c.result ∨
      c.result = 0 ∧ ∀ k, c.cursor ≤ k → ¬ c.UpTo k
  bound : c.cursorAfter ≤ c.left.length
  past : ∀ k, k < c.left.length →
    (k < c.cursorAfter ↔ c.UpTo k)

/- No two left stages after the first have the number. -/
def Single (c : WaitCall) : Prop :=
  ∀ k l, 1 ≤ k → k < l →
    c.left[k]? = some c.stage → c.left[l]? ≠ some c.stage

end WaitCall

/-
  All calls find their dependency, no left stage is found by
  two of them, and every left stage that a wait depends on is
  up to one that was found by then.
-/
structure Dependencies (calls : List WaitCall) : Prop where
  found : ∀ c ∈ calls, c.Found
  once : calls.Pairwise fun c d =>
    c.iterNum = d.iterNum → c.result ≠ 0 →
      c.result ≠ d.result
  covered : ∀ c earlier, c :: earlier <:+ calls →
    ∀ k, c.UpTo k →
      ∃ d ∈ c :: earlier, d.iterNum = c.iterNum ∧
        k ≤ d.result

------------------------------------------------------------
-- The Search Among Repeated Numbers
------------------------------------------------------------

namespace PiperState

/-
  The loop passes the frames numbered below `stage` and at
  most one frame numbered `stage`.
-/
theorem leftLoop_passes
    (stage : Nat) (rest : List StageFrame)
    (hSorted :
      (rest.map StageFrame.stageNum).Pairwise (· ≤ ·))
    (index iPre : Nat) (hPre : iPre ≤ index) :
    ∃ m, m ≤ rest.length ∧
      (leftLoop stage rest index iPre).2.1 = index + m ∧
      max (leftLoop stage rest index iPre).1
        (leftLoop stage rest index iPre).2.2 =
          (if m = 0 then iPre else index + m - 1) ∧
      ∀ j n : Nat,
        (rest.map StageFrame.stageNum)[j]? = some n →
        (j < m → n ≤ stage) ∧
        (j + 1 < m → n < stage) ∧
        (m ≤ j → stage ≤ n) ∧
        (m ≤ j → n = stage → 1 ≤ m ∧
          (rest.map StageFrame.stageNum)[m - 1]? =
            some stage) := by
  induction rest generalizing index iPre with
  | nil => exact ⟨0, by simp [leftLoop]⟩
  | cons first rest ih =>
      rw [List.map_cons, List.pairwise_cons] at hSorted
      have hAbove : ∀ j n : Nat,
          (rest.map StageFrame.stageNum)[j]? = some n →
          first.stageNum ≤ n := by
        intro j n hn
        exact hSorted.1 n (List.mem_of_getElem? hn)
      unfold leftLoop
      rcases Nat.lt_trichotomy first.stageNum stage with
        hLt | hEq | hGt
      · rcases ih hSorted.2 (index + 1) index
          (Nat.le_succ index) with
          ⟨m, hm, hIndex, hMax, hRest⟩
        refine ⟨m + 1, by simpa using hm, ?_, ?_, ?_⟩
        · simp only [if_neg hLt.ne, if_pos hLt, hIndex]
          omega
        · simp only [if_neg hLt.ne, if_pos hLt, hMax,
            if_neg (Nat.succ_ne_zero m)]
          split <;> omega
        · intro j n hn
          cases j with
          | zero =>
              obtain rfl : first.stageNum = n := by
                simpa using hn
              omega
          | succ j =>
              rw [List.map_cons, List.getElem?_cons_succ] at hn
              rcases hRest j n hn with
                ⟨hBelow, hBefore, hAfter, hAgain⟩
              refine ⟨by omega, by omega, by omega, ?_⟩
              intro hj hnEq
              rcases hAgain (by omega) hnEq with
                ⟨hPos, hLast⟩
              refine ⟨by omega, ?_⟩
              obtain ⟨m', rfl⟩ : ∃ m', m = m' + 1 :=
                ⟨m - 1, by omega⟩
              simpa using hLast
      · refine ⟨1, by simp, ?_, ?_, ?_⟩
        · simp [hEq]
        · simp [hEq, hPre]
        · intro j n hn
          cases j with
          | zero =>
              obtain rfl : first.stageNum = n := by
                simpa using hn
              omega
          | succ j =>
              rw [List.map_cons, List.getElem?_cons_succ] at hn
              have hLe := hAbove j n hn
              refine ⟨by omega, by omega, by omega, ?_⟩
              intro _ _
              exact ⟨le_refl 1, by simp [hEq]⟩
      · refine ⟨0, Nat.zero_le _, ?_, ?_, ?_⟩
        · simp [hGt.ne', hGt.not_gt]
        · simp [hGt.ne', hGt.not_gt]
        · intro j n hn
          have hLe : first.stageNum ≤ n := by
            cases j with
            | zero =>
                obtain rfl : first.stageNum = n := by
                  simpa using hn
                exact le_refl _
            | succ j =>
                rw [List.map_cons, List.getElem?_cons_succ]
                  at hn
                exact hAbove j n hn
          omega

------------------------------------------------------------
-- What the Hooks Do to the Lists
------------------------------------------------------------

theorem numbers_enter
    (s : PiperState) (i n right down index j : Nat) :
    (s.enter i n right down index).numbers j =
      if j = i then s.numbers i ++ [n] else s.numbers j := by
  unfold numbers enter
  by_cases hj : j = i
  · subst hj
    simp [createOrder]
  · simp [hj]

theorem index_enter
    (s : PiperState) (i n right down index j : Nat) :
    ((s.enter i n right down index).iterations j).index =
      if j = i then index else (s.iterations j).index := by
  unfold enter
  by_cases hj : j = i
  · subst hj
    simp
  · simp [hj]

/- The first frame of an iteration starts its list. -/
theorem insertStageFrameList_createOrder
    {s : PiperState} {i : Nat}
    (hNil : s.numbers i = [])
    (n right down : Nat) :
    (s.createOrder i n right down).2.insertStageFrameList i
        (s.createOrder i n right down).1 =
      s.enter i n right down 1 := by
  have hFrames : (s.iterations i).frames = [] :=
    List.map_eq_nil_iff.mp hNil
  unfold enter insertStageFrameList
  rw [hFrames]
  rfl

theorem exists_enter_of_cilkStageFirst
    {s t : PiperState} {i : Nat}
    (hNil : s.numbers i = [])
    (hRun : s.cilkStageFirst i = some t) :
    (1 < i → s.numbers (i - 1) ≠ []) ∧
      ∃ right down, t = s.enter i 0 right down 1 := by
  unfold cilkStageFirst at hRun
  split at hRun
  · split at hRun
    · cases hRun
    · rename_i sibling hSibling
      refine ⟨?_, sibling.rightFirst.rightCont,
        sibling.downFirst.rightCont, ?_⟩
      · intro _ hLeft
        rw [List.map_eq_nil_iff.mp hLeft] at hSibling
        cases hSibling
      · rw [← insertStageFrameList_createOrder hNil]
        exact (Option.some.inj hRun).symm
  · rename_i hFirst
    refine ⟨fun hLater => absurd hLater hFirst,
      getBase, getBase, ?_⟩
    rw [← insertStageFrameList_createOrder hNil]
    exact (Option.some.inj hRun).symm

theorem exists_enter_of_cilkStage
    {s t : PiperState} {i n : Nat}
    (hRun : s.cilkStage i n = some t) :
    ∃ right down,
      t = s.enter i n right down (s.iterations i).index := by
  unfold cilkStage at hRun
  split at hRun
  · cases hRun
  · rename_i parent hParent
    have hAppend := append_createOrder s i n
      parent.rightFirst.downCont parent.downFirst.downCont
      (s.iterations i).index
    rw [Function.update_eq_self] at hAppend
    refine ⟨parent.rightFirst.downCont,
      parent.downFirst.downCont, ?_⟩
    rw [← hAppend]
    exact (Option.some.inj hRun).symm

/- Only the cursor moves in the search. -/
theorem getLeftDependency_eq (s : PiperState) (i n : Nat) :
    s.getLeftDependency i n =
      ((s.waitCall i n).result,
        { s with
          iterations := Function.update s.iterations i
            { frames := (s.iterations i).frames
              index := (s.waitCall i n).cursorAfter } }) := by
  unfold waitCall getLeftDependency
  simp

theorem exists_enter_of_cilkStageWait
    {s t : PiperState} {i n : Nat}
    (hRun : s.cilkStageWait i n = some t) :
    ∃ right down,
      t = s.enter i n right down
        (if 1 < i then (s.waitCall i n).cursorAfter
          else (s.iterations i).index) := by
  unfold cilkStageWait at hRun
  split at hRun
  · cases hRun
  · rename_i parent hParent
    by_cases hPos : 1 < i
    · rw [if_pos hPos]
      simp only [if_pos hPos, getLeftDependency_eq] at hRun
      split at hRun
      · split at hRun
        · cases hRun
        · rename_i sibling hSibling
          refine ⟨sibling.rightFirst.rightCont,
            parent.downFirst.downCont, ?_⟩
          rw [← append_createOrder]
          exact (Option.some.inj hRun).symm
      · refine ⟨parent.rightFirst.downCont,
          parent.downFirst.downCont, ?_⟩
        rw [← append_createOrder]
        exact (Option.some.inj hRun).symm
    · have hAppend := append_createOrder s i n
        parent.rightFirst.downCont parent.downFirst.downCont
        (s.iterations i).index
      rw [Function.update_eq_self] at hAppend
      rw [if_neg hPos]
      rw [if_neg hPos] at hRun
      refine ⟨parent.rightFirst.downCont,
        parent.downFirst.downCont, ?_⟩
      rw [← hAppend]
      exact (Option.some.inj hRun).symm

end PiperState

------------------------------------------------------------
-- The Lists and the Calls of a Run
------------------------------------------------------------

/-
  A call saw all left stages up to its number, and the later
  stages of its own iteration are not numbered below it.
-/
structure WaitCall.Saw
    (c : WaitCall) (s : PiperState) : Prop where
  later : 1 < c.iterNum
  nonempty : c.left ≠ []
  left : ∃ rest, s.numbers (c.iterNum - 1) = c.left ++ rest ∧
    ∀ n ∈ rest, c.stage < n
  own : ∃ last, (s.numbers c.iterNum).getLast? = some last ∧
    c.stage ≤ last

namespace StagingState

/- What holds of every run. -/
structure Inv (s : StagingState) : Prop where
  sorted : ∀ i, (s.piper.numbers i).Pairwise (· ≤ ·)
  zero : ∀ i n, (s.piper.numbers i)[0]? = some n → n = 0
  started : ∀ i, 1 < i → s.piper.numbers i ≠ [] →
    s.piper.numbers (i - 1) ≠ []
  saw : ∀ c ∈ s.calls, c.Saw s.piper

/-
  The number can be appended to the iteration: a first stage
  has none before it, and other stages are admitted.
-/
structure Appends (s : StagingState) (i n : Nat) : Prop where
  last : ∀ last, (s.piper.numbers i).getLast? = some last →
    last ≤ n
  first : s.piper.numbers i = [] → n = 0
  neighbour : s.piper.numbers i = [] → 1 < i →
    s.piper.numbers (i - 1) ≠ []
  left : ∀ c ∈ s.calls, c.iterNum = i + 1 → c.stage < n

theorem Admits.appends
    {s : StagingState} {i n : Nat}
    (h : s.Admits i n) :
    s.Appends i n := by
  rcases h.1 with ⟨last, hLast, hLe⟩
  refine ⟨?_, ?_, ?_, h.2⟩
  · intro other hOther
    rw [hLast] at hOther
    cases hOther
    exact hLe
  · intro hNil
    rw [hNil] at hLast
    cases hLast
  · intro hNil
    rw [hNil] at hLast
    cases hLast

theorem Inv.appends_first
    {s : StagingState} {i : Nat}
    (h : s.Inv)
    (hNil : s.piper.numbers i = [])
    (hLeft : 1 < i → s.piper.numbers (i - 1) ≠ []) :
    s.Appends i 0 := by
  refine ⟨?_, fun _ => rfl, fun _ => hLeft, ?_⟩
  · intro last hLast
    rw [hNil] at hLast
    cases hLast
  · intro c hc hIter
    have hSaw := h.saw c hc
    rcases hSaw.left with ⟨rest, hLeft, -⟩
    rw [hIter, Nat.add_sub_cancel, hNil] at hLeft
    exact absurd (List.append_eq_nil_iff.mp hLeft.symm).1
      hSaw.nonempty

/- A new stage is not numbered below the others. -/
theorem Inv.sorted_append
    {s : StagingState} {i n : Nat}
    (h : s.Inv)
    (hAppends : s.Appends i n) :
    (s.piper.numbers i ++ [n]).Pairwise (· ≤ ·) := by
  rw [List.pairwise_append]
  refine ⟨h.sorted i, List.pairwise_singleton _ _, ?_⟩
  intro a ha b hb
  rw [List.mem_singleton] at hb
  subst hb
  rcases List.eq_nil_or_concat (s.piper.numbers i) with
    hNil | ⟨init, last, hInit⟩
  · rw [hNil] at ha
    cases ha
  · have hLast := hAppends.last last (by simp [hInit])
    have hSorted := h.sorted i
    rw [hInit] at ha hSorted
    rw [List.concat_eq_append] at ha hSorted
    rcases List.mem_append.mp ha with hOld | hNew
    · have := (List.pairwise_append.mp hSorted).2.2 a hOld
        last (List.mem_singleton_self last)
      omega
    · rw [List.mem_singleton] at hNew
      omega

theorem saw_enter
    {s : StagingState} {i n right down index : Nat}
    {c : WaitCall}
    (hAppends : s.Appends i n)
    (hMem : c ∈ s.calls)
    (hSaw : c.Saw s.piper) :
    c.Saw (s.piper.enter i n right down index) := by
  refine ⟨hSaw.later, hSaw.nonempty, ?_, ?_⟩
  · rcases hSaw.left with ⟨rest, hLeft, hRest⟩
    rw [PiperState.numbers_enter]
    split
    · rename_i hIter
      have hLater := hSaw.later
      have hNew := hAppends.left c hMem (by omega)
      refine ⟨rest ++ [n], ?_, ?_⟩
      · rw [← hIter, hLeft, List.append_assoc]
      · intro m hm
        rcases List.mem_append.mp hm with hOld | hLast
        · exact hRest m hOld
        · rw [List.mem_singleton] at hLast
          omega
    · exact ⟨rest, hLeft, hRest⟩
  · rcases hSaw.own with ⟨last, hLast, hLe⟩
    rw [PiperState.numbers_enter]
    split
    · rename_i hIter
      rw [hIter] at hLast
      have := hAppends.last last hLast
      exact ⟨n, by simp, by omega⟩
    · exact ⟨last, hLast, hLe⟩

/- The call of a wait has seen what it is compared with. -/
theorem saw_waitCall
    {s : StagingState} {i n right down index : Nat}
    (hLater : 1 < i)
    (hLeft : s.piper.numbers (i - 1) ≠ []) :
    (s.piper.waitCall i n).Saw
      (s.piper.enter i n right down index) := by
  refine ⟨hLater, hLeft, ⟨[], ?_, ?_⟩, ⟨n, ?_, le_refl n⟩⟩
  · have hOther : ¬ i - 1 = i := by omega
    rw [List.append_nil, PiperState.numbers_enter]
    exact if_neg hOther
  · intro m hm
    cases hm
  · rw [PiperState.numbers_enter]
    show (if i = i then _ else _ : List Nat).getLast? = some n
    rw [if_pos rfl]
    simp

/- What a step does. -/
inductive Entered (s t : StagingState) : Prop
| stage (i n right down index : Nat) :
    s.Appends i n →
    t.piper = s.piper.enter i n right down index →
    (index = if s.piper.numbers i = [] then 1
      else (s.piper.iterations i).index) →
    t.calls = s.calls → Entered s t
| wait (i n right down : Nat) :
    1 < i → s.Admits i n →
    t.piper = s.piper.enter i n right down
      (s.piper.waitCall i n).cursorAfter →
    t.calls = s.piper.waitCall i n :: s.calls → Entered s t

theorem Admits.ne_nil
    {s : StagingState} {i n : Nat}
    (h : s.Admits i n) :
    s.piper.numbers i ≠ [] := by
  rcases h.1 with ⟨last, hLast, -⟩
  intro hNil
  rw [hNil] at hLast
  cases hLast

theorem Inv.entered
    {s t : StagingState} {a : StagingAction}
    (h : s.Inv)
    (hStep : stagingStep s a t) :
    Entered s t := by
  cases a with
  | first i =>
      rcases hStep with ⟨hPos, hNil, hRun, hCalls⟩
      rcases PiperState.exists_enter_of_cilkStageFirst hNil
        hRun with ⟨hLeft, right, down, hEnter⟩
      exact Entered.stage i 0 right down 1
        (h.appends_first hNil hLeft) hEnter
        (if_pos hNil).symm hCalls
  | stage i n =>
      rcases hStep with ⟨hAdmits, hRun, hCalls⟩
      rcases PiperState.exists_enter_of_cilkStage hRun with
        ⟨right, down, hEnter⟩
      exact Entered.stage i n right down _ hAdmits.appends
        hEnter (if_neg hAdmits.ne_nil).symm hCalls
  | wait i n =>
      rcases hStep with ⟨hAdmits, hRun, hCalls⟩
      rcases PiperState.exists_enter_of_cilkStageWait hRun
        with ⟨right, down, hEnter⟩
      by_cases hLater : 1 < i
      · rw [if_pos hLater] at hEnter hCalls
        exact Entered.wait i n right down hLater hAdmits
          hEnter hCalls
      · rw [if_neg hLater] at hEnter hCalls
        exact Entered.stage i n right down _ hAdmits.appends
          hEnter (if_neg hAdmits.ne_nil).symm hCalls

theorem Inv.enter
    {s t : StagingState} {i n right down index : Nat}
    (h : s.Inv)
    (hAppends : s.Appends i n)
    (hEnter : t.piper = s.piper.enter i n right down index)
    (hSaw : ∀ c ∈ t.calls, c.Saw t.piper) :
    t.Inv := by
  refine ⟨?_, ?_, ?_, hSaw⟩
  · intro j
    rw [hEnter, PiperState.numbers_enter]
    split
    · exact h.sorted_append hAppends
    · exact h.sorted j
  · intro j m hm
    rw [hEnter, PiperState.numbers_enter] at hm
    split at hm
    · cases hNumbers : s.piper.numbers i with
      | nil =>
          rw [hNumbers] at hm
          have := hAppends.first hNumbers
          have : n = m := by simpa using hm
          omega
      | cons first rest =>
          apply h.zero i m
          rw [hNumbers] at hm ⊢
          simpa using hm
    · exact h.zero j m hm
  · intro j hLater hStarted
    rw [hEnter, PiperState.numbers_enter] at hStarted
    have hLeft : s.piper.numbers (j - 1) ≠ [] := by
      split at hStarted
      · rename_i hj
        subst hj
        by_cases hNil : s.piper.numbers j = []
        · exact hAppends.neighbour hNil hLater
        · exact h.started j hLater hNil
      · exact h.started j hLater hStarted
    rw [hEnter, PiperState.numbers_enter]
    split
    · simp
    · exact hLeft

theorem Inv.step
    {s t : StagingState} {a : StagingAction}
    (h : s.Inv)
    (hStep : stagingStep s a t) :
    t.Inv := by
  rcases h.entered hStep with
    ⟨i, n, right, down, index, hAppends, hEnter, -, hCalls⟩ |
    ⟨i, n, right, down, hLater, hAdmits, hEnter, hCalls⟩
  · apply h.enter hAppends hEnter
    intro c hc
    rw [hCalls] at hc
    rw [hEnter]
    exact saw_enter hAppends hc (h.saw c hc)
  · apply h.enter hAdmits.appends hEnter
    intro c hc
    rw [hCalls] at hc
    rw [hEnter]
    rcases List.mem_cons.mp hc with rfl | hOld
    · exact saw_waitCall hLater
        (h.started i hLater hAdmits.ne_nil)
    · exact saw_enter hAdmits.appends hOld (h.saw c hOld)

end StagingState

------------------------------------------------------------
-- What a Call Finds
------------------------------------------------------------

namespace WaitCall

/- How far the search of a call goes. -/
structure Passes (c : WaitCall) : Prop where
  grows : c.cursor ≤ c.cursorAfter
  bound : c.cursor ≤ c.left.length →
    c.cursorAfter ≤ c.left.length
  result : c.result =
    if c.cursor < c.cursorAfter then c.cursorAfter - 1 else 0
  upTo : ∀ k n, c.cursor ≤ k → k < c.cursorAfter →
    c.left[k]? = some n → n ≤ c.stage
  below : ∀ k n, c.cursor ≤ k → k + 1 < c.cursorAfter →
    c.left[k]? = some n → n < c.stage
  above : ∀ k n, c.cursorAfter ≤ k →
    c.left[k]? = some n → c.stage ≤ n
  again : ∀ k, c.cursorAfter ≤ k →
    c.left[k]? = some c.stage →
    c.cursor < c.cursorAfter ∧
      c.left[c.cursorAfter - 1]? = some c.stage

end WaitCall

theorem PiperState.waitCall_passes
    {s : PiperState} {i : Nat}
    (hSorted : (s.numbers (i - 1)).Pairwise (· ≤ ·))
    (n : Nat) :
    (s.waitCall i n).Passes := by
  have hDrop : (((s.iterations (i - 1)).frames.drop
      (s.iterations i).index).map
        StageFrame.stageNum).Pairwise (· ≤ ·) := by
    rw [List.map_drop]
    exact hSorted.sublist (List.drop_sublist _ _)
  rcases leftLoop_passes n _ hDrop (s.iterations i).index 0
    (Nat.zero_le _) with ⟨m, hm, hIndex, hMax, hPassed⟩
  have hAfter : (s.waitCall i n).cursorAfter =
      (s.iterations i).index + m := by
    rw [← hIndex]
    unfold waitCall getLeftDependency
    simp
  have hResult : (s.waitCall i n).result =
      if m = 0 then 0 else (s.iterations i).index + m - 1 :=
    hMax
  have hCursor : (s.waitCall i n).cursor =
      (s.iterations i).index := rfl
  have hStage : (s.waitCall i n).stage = n := rfl
  have hLeft : ∀ j : Nat,
      (((s.iterations (i - 1)).frames.drop
        (s.iterations i).index).map StageFrame.stageNum)[j]? =
      (s.waitCall i n).left[(s.iterations i).index + j]? := by
    intro j
    rw [List.map_drop, List.getElem?_drop]
    rfl
  have hLength : (s.waitCall i n).left.length =
      (s.iterations (i - 1)).frames.length :=
    List.length_map _
  rw [List.length_drop] at hm
  constructor
  · omega
  · omega
  · rw [hResult, hAfter, hCursor]
    split <;> split <;> omega
  · intro k number hCursorLe hk hGet
    have := hPassed (k - (s.iterations i).index) number (by
      rw [hLeft, Nat.add_sub_cancel' (by omega)]
      exact hGet)
    have := this.1 (by omega)
    omega
  · intro k number hCursorLe hk hGet
    have := hPassed (k - (s.iterations i).index) number (by
      rw [hLeft, Nat.add_sub_cancel' (by omega)]
      exact hGet)
    have := this.2.1 (by omega)
    omega
  · intro k number hk hGet
    have := hPassed (k - (s.iterations i).index) number (by
      rw [hLeft, Nat.add_sub_cancel' (by omega)]
      exact hGet)
    have := this.2.2.1 (by omega)
    omega
  · intro k hk hGet
    have := hPassed (k - (s.iterations i).index) n (by
      rw [hLeft, Nat.add_sub_cancel' (by omega)]
      exact hGet)
    rcases this.2.2.2 (by omega) rfl with ⟨hPos, hLast⟩
    rw [hLeft] at hLast
    refine ⟨by omega, ?_⟩
    rw [hAfter, hStage, ← hLast]
    congr 1
    omega

------------------------------------------------------------
-- Where the Cursor Stands
------------------------------------------------------------

/-
  The cursor of an iteration: at its first position before
  any call, and then past the stages of the last call.
-/
structure CursorAt
    (left : List Nat) (index : Nat)
    (calls : List WaitCall) : Prop where
  bound : index ≤ left.length
  position : index = 1 ∧ calls = [] ∨
    ∃ a ∈ calls, ∀ k n, left[k]? = some n →
      (k < index ↔ n ≤ a.stage)
  results : ∀ c ∈ calls, c.result < index
  covered : ∀ k, 1 ≤ k → k < index →
    ∃ c ∈ calls, k ≤ c.result

/- The left list may grow by a stage not yet waited for. -/
theorem CursorAt.append
    {left : List Nat} {index n : Nat}
    {calls : List WaitCall}
    (h : CursorAt left index calls)
    (hNew : ∀ c ∈ calls, c.stage < n) :
    CursorAt (left ++ [n]) index calls := by
  have hBound := h.bound
  refine ⟨?_, ?_, h.results, h.covered⟩
  · rw [List.length_append]
    omega
  · rcases h.position with hFirst | ⟨a, ha, hPast⟩
    · exact Or.inl hFirst
    · refine Or.inr ⟨a, ha, ?_⟩
      intro k m hGet
      by_cases hk : k < left.length
      · rw [List.getElem?_append_left hk] at hGet
        exact hPast k m hGet
      · rw [List.getElem?_append_right (by omega)] at hGet
        rcases List.getElem?_eq_some_iff.mp hGet with
          ⟨hLast, hEq⟩
        rw [List.getElem_singleton] at hEq
        have := hNew a ha
        omega

/- What the earlier calls of an iteration tell about a call. -/
structure WaitCall.After
    (c : WaitCall) (calls : List WaitCall) : Prop where
  zero : c.left[0]? = some 0
  stage : ∀ d ∈ calls, d.stage ≤ c.stage
  left : ∀ d ∈ calls, ∃ rest, c.left = d.left ++ rest ∧
    ∀ n ∈ rest, d.stage < n

/- All left stages before the cursor are passed. -/
theorem CursorAt.le_stage
    {c : WaitCall} {calls : List WaitCall} {k n : Nat}
    (h : CursorAt c.left c.cursor calls)
    (hAfter : c.After calls)
    (hk : k < c.cursor)
    (hGet : c.left[k]? = some n) :
    n ≤ c.stage := by
  rcases h.position with ⟨hFirst, -⟩ | ⟨a, ha, hPast⟩
  · obtain rfl : k = 0 := by omega
    rw [hAfter.zero] at hGet
    cases hGet
    exact Nat.zero_le _
  · have := (hPast k n hGet).mp hk
    have := hAfter.stage a ha
    omega

/-
  A left stage with the number of the call stands before the
  cursor only if an earlier call had the number, too.
-/
theorem CursorAt.exists_same
    {c : WaitCall} {calls : List WaitCall} {k : Nat}
    (h : CursorAt c.left c.cursor calls)
    (hAfter : c.After calls)
    (hPos : 1 ≤ k) (hk : k < c.cursor)
    (hGet : c.left[k]? = some c.stage) :
    ∃ a ∈ calls, a.stage = c.stage := by
  rcases h.position with ⟨hFirst, -⟩ | ⟨a, ha, hPast⟩
  · omega
  · have := (hPast k _ hGet).mp hk
    have := hAfter.stage a ha
    exact ⟨a, ha, by omega⟩

/- An earlier call with the number has seen its stages. -/
theorem WaitCall.After.single
    {c a : WaitCall} {calls : List WaitCall}
    (hAfter : c.After calls)
    (ha : a ∈ calls)
    (hStage : a.stage = c.stage)
    (hSingle : a.Single) :
    c.Single := by
  rcases hAfter.left a ha with ⟨rest, hLeft, hRest⟩
  have hSeen : ∀ k : Nat, c.left[k]? = some c.stage →
      a.left[k]? = some a.stage := by
    intro k hGet
    rw [hLeft] at hGet
    by_cases hk : k < a.left.length
    · rw [List.getElem?_append_left hk] at hGet
      rw [hGet, hStage]
    · rw [List.getElem?_append_right (by omega)] at hGet
      have := hRest _ (List.mem_of_getElem? hGet)
      omega
  intro k l hPos hkl hk hl
  exact hSingle k l hPos hkl (hSeen k hk) (hSeen l hl)

/-
  A call finds its dependency if and only if no stage number
  it waits for is repeated.
-/
theorem WaitCall.found_iff_single
    {c : WaitCall} {calls : List WaitCall}
    (hPasses : c.Passes)
    (hCursor : CursorAt c.left c.cursor calls)
    (hAfter : c.After calls)
    (hSingle : ∀ d ∈ calls, d.Single) :
    c.Found ↔ c.Single := by
  have hBound := hPasses.bound hCursor.bound
  have hGrows := hPasses.grows
  constructor
  · intro hFound k l hPos hkl hk hl
    have hlLength : l < c.left.length := by
      rcases List.getElem?_eq_some_iff.mp hl with ⟨h, -⟩
      exact h
    have hlPast : l < c.cursorAfter :=
      (hFound.past l hlLength).mpr ⟨_, hl, le_refl _⟩
    by_cases hkCursor : k < c.cursor
    · rcases hCursor.exists_same hAfter hPos hkCursor hk with
        ⟨a, ha, hStage⟩
      exact hAfter.single ha hStage (hSingle a ha) k l hPos
        hkl hk hl
    · have := hPasses.below k _ (by omega) (by omega) hk
      omega
  · intro hOnly
    -- A stage with the number behind the new cursor would
    -- be a second one.
    have hAbove : ∀ k n, c.cursorAfter ≤ k →
        c.left[k]? = some n → c.stage < n := by
      intro k n hk hGet
      have hLe := hPasses.above k n hk hGet
      by_contra hNot
      obtain rfl : n = c.stage := by omega
      rcases hPasses.again k hk hGet with ⟨hMoved, hLast⟩
      by_cases hPos : 1 ≤ c.cursorAfter - 1
      · exact hOnly (c.cursorAfter - 1) k hPos (by omega)
          hLast hGet
      · rcases hCursor.position with ⟨hFirst, -⟩ |
          ⟨a, ha, hPast⟩
        · omega
        · have := (hPast 0 0 hAfter.zero).mpr (Nat.zero_le _)
          omega
    have hPast : ∀ k, k < c.left.length →
        (k < c.cursorAfter ↔ c.UpTo k) := by
      intro k hk
      have hGet := List.getElem?_eq_getElem hk
      constructor
      · intro hLt
        refine ⟨_, hGet, ?_⟩
        by_cases hCursorLe : c.cursor ≤ k
        · exact hPasses.upTo k _ hCursorLe hLt hGet
        · exact hCursor.le_stage hAfter (by omega) hGet
      · rintro ⟨n, hn, hLe⟩
        by_contra hNot
        have := hAbove k n (by omega) hn
        omega
    refine ⟨?_, hBound, hPast⟩
    have hUpToLt : ∀ k, c.UpTo k → k < c.cursorAfter := by
      intro k hk
      rcases hk with ⟨n, hn, hLe⟩
      rcases List.getElem?_eq_some_iff.mp hn with ⟨hLt, -⟩
      exact (hPast k hLt).mpr ⟨n, hn, hLe⟩
    by_cases hMoved : c.cursor < c.cursorAfter
    · left
      rw [hPasses.result, if_pos hMoved]
      constructor
      · exact ⟨by omega, (hPast _ (by omega)).mp (by omega)⟩
      · intro k hk
        have := hUpToLt k hk.2
        omega
    · right
      rw [hPasses.result, if_neg hMoved]
      refine ⟨rfl, ?_⟩
      intro k hk hUpTo
      have := hUpToLt k hUpTo
      omega

/- The cursor after a call that finds its dependency. -/
theorem CursorAt.call
    {c : WaitCall} {calls : List WaitCall}
    (h : CursorAt c.left c.cursor calls)
    (hPasses : c.Passes)
    (hAfter : c.After calls)
    (hFound : c.Found) :
    CursorAt c.left c.cursorAfter (c :: calls) := by
  have hGrows := hPasses.grows
  have hLength : 0 < c.left.length := by
    rcases List.getElem?_eq_some_iff.mp hAfter.zero with ⟨h, -⟩
    exact h
  have hPos : 0 < c.cursorAfter :=
    (hFound.past 0 hLength).mpr
      ⟨0, hAfter.zero, Nat.zero_le _⟩
  have hResult := hPasses.result
  refine ⟨hFound.bound, Or.inr ⟨c, List.mem_cons_self, ?_⟩,
    ?_, ?_⟩
  · intro k n hGet
    rcases List.getElem?_eq_some_iff.mp hGet with ⟨hk, -⟩
    rw [hFound.past k hk]
    constructor
    · rintro ⟨m, hm, hLe⟩
      rw [hGet] at hm
      cases hm
      exact hLe
    · intro hLe
      exact ⟨n, hGet, hLe⟩
  · intro d hd
    rcases List.mem_cons.mp hd with rfl | hOld
    · split at hResult <;> omega
    · have := h.results d hOld
      omega
  · intro k hk hLt
    by_cases hOld : k < c.cursor
    · rcases h.covered k hk hOld with ⟨d, hd, hLe⟩
      exact ⟨d, List.mem_cons_of_mem _ hd, hLe⟩
    · refine ⟨c, List.mem_cons_self, ?_⟩
      split at hResult <;> omega

------------------------------------------------------------
-- All Runs
------------------------------------------------------------

namespace StagingState

/- The calls of an iteration. -/
def callsOf (s : StagingState) (i : Nat) : List WaitCall :=
  s.calls.filter fun c => c.iterNum = i

theorem mem_callsOf
    {s : StagingState} {i : Nat} {c : WaitCall} :
    c ∈ s.callsOf i ↔ c ∈ s.calls ∧ c.iterNum = i := by
  simp [callsOf]

/- The cursors of all iterations that have started. -/
def Settled (s : StagingState) : Prop :=
  ∀ i, 1 < i → s.piper.numbers i ≠ [] →
    CursorAt (s.piper.numbers (i - 1))
      (s.piper.iterations i).index (s.callsOf i)

/- The left list of an iteration grows, or stays. -/
theorem cursorAt_enter
    {s : StagingState} {i j n right down index index' : Nat}
    (hAppends : s.Appends i n)
    (hLater : 1 < j)
    (hCursor : CursorAt (s.piper.numbers (j - 1)) index'
      (s.callsOf j)) :
    CursorAt
      ((s.piper.enter i n right down index).numbers (j - 1))
      index' (s.callsOf j) := by
  rw [PiperState.numbers_enter]
  split
  · rename_i hLeft
    rw [← hLeft]
    apply hCursor.append
    intro c hc
    rcases mem_callsOf.mp hc with ⟨hIn, hIter⟩
    exact hAppends.left c hIn (by omega)
  · exact hCursor

/- A stage whose hook does not look to the left. -/
theorem Settled.stage
    {s t : StagingState} {i n right down index : Nat}
    (hInv : s.Inv)
    (h : s.Settled)
    (hAppends : s.Appends i n)
    (hEnter : t.piper = s.piper.enter i n right down index)
    (hIndex : index = if s.piper.numbers i = [] then 1
      else (s.piper.iterations i).index)
    (hCalls : t.calls = s.calls) :
    t.Settled := by
  intro j hLater hStarted
  have hSame : t.callsOf j = s.callsOf j := by
    unfold callsOf
    rw [hCalls]
  rw [hSame, hEnter, PiperState.index_enter]
  rw [hEnter, PiperState.numbers_enter] at hStarted
  apply cursorAt_enter hAppends hLater
  by_cases hj : j = i
  · subst hj
    rw [if_pos rfl, hIndex]
    split
    · rename_i hNil
      have hNone : s.callsOf j = [] := by
        rw [List.eq_nil_iff_forall_not_mem]
        intro c hc
        rcases mem_callsOf.mp hc with ⟨hIn, hIter⟩
        rcases (hInv.saw c hIn).own with ⟨last, hLast, -⟩
        rw [hIter, hNil] at hLast
        cases hLast
      have hLength := List.length_pos_iff.mpr
        (hAppends.neighbour hNil hLater)
      refine ⟨hLength, Or.inl ⟨rfl, hNone⟩, ?_, ?_⟩
      · intro c hc
        rw [hNone] at hc
        cases hc
      · intro k hk hLt
        omega
    · rename_i hOld
      exact h j hLater hOld
  · rw [if_neg hj] at hStarted ⊢
    exact h j hLater hStarted

/- What the invariant tells about the next call. -/
theorem Inv.after
    {s : StagingState} {i n : Nat}
    (h : s.Inv)
    (hLater : 1 < i)
    (hAdmits : s.Admits i n) :
    (s.piper.waitCall i n).After (s.callsOf i) := by
  refine ⟨?_, ?_, ?_⟩
  · have hLeft := h.started i hLater hAdmits.ne_nil
    show (s.piper.numbers (i - 1))[0]? = some 0
    cases hNumbers : s.piper.numbers (i - 1) with
    | nil => exact absurd hNumbers hLeft
    | cons first rest =>
        have := h.zero (i - 1) first (by rw [hNumbers]; rfl)
        rw [this]
        rfl
  · intro d hd
    rcases mem_callsOf.mp hd with ⟨hIn, hIter⟩
    rcases (h.saw d hIn).own with ⟨last, hLast, hLe⟩
    rw [hIter] at hLast
    have := hAdmits.appends.last last hLast
    show d.stage ≤ n
    omega
  · intro d hd
    rcases mem_callsOf.mp hd with ⟨hIn, hIter⟩
    rcases (h.saw d hIn).left with ⟨rest, hLeft, hRest⟩
    rw [hIter] at hLeft
    exact ⟨rest, hLeft, hRest⟩

/- A wait whose call finds its dependency. -/
theorem Settled.wait
    {s t : StagingState} {i n right down : Nat}
    (hInv : s.Inv)
    (h : s.Settled)
    (hLater : 1 < i)
    (hAdmits : s.Admits i n)
    (hFound : (s.piper.waitCall i n).Found)
    (hEnter : t.piper = s.piper.enter i n right down
      (s.piper.waitCall i n).cursorAfter)
    (hCalls : t.calls = s.piper.waitCall i n :: s.calls) :
    t.Settled := by
  intro j hLaterJ hStarted
  rw [hEnter, PiperState.numbers_enter] at hStarted
  rw [hEnter, PiperState.index_enter]
  by_cases hj : j = i
  · subst hj
    have hNew : t.callsOf j =
        s.piper.waitCall j n :: s.callsOf j := by
      unfold callsOf
      rw [hCalls]
      exact List.filter_cons_of_pos
        (by simp [PiperState.waitCall])
    have hOther : ¬ j - 1 = j := by omega
    rw [if_pos rfl, hNew, PiperState.numbers_enter,
      if_neg hOther]
    have hCursor := h j hLater hAdmits.ne_nil
    exact CursorAt.call hCursor
      (PiperState.waitCall_passes (hInv.sorted (j - 1)) n)
      (hInv.after hLater hAdmits) hFound
  · have hSame : t.callsOf j = s.callsOf j := by
      unfold callsOf
      rw [hCalls]
      exact List.filter_cons_of_neg
        (by simp [PiperState.waitCall, Ne.symm hj])
    rw [if_neg hj] at hStarted ⊢
    rw [hSame]
    apply cursorAt_enter hAdmits.appends hLaterJ
    exact h j hLaterJ hStarted

end StagingState

/- The dependencies after one more call. -/
theorem Dependencies.call
    {calls : List WaitCall} {c : WaitCall}
    (h : Dependencies calls)
    (hPasses : c.Passes)
    (hFound : c.Found)
    (hCursor : CursorAt c.left c.cursor
      (calls.filter fun d => d.iterNum = c.iterNum)) :
    Dependencies (c :: calls) := by
  have hResult := hPasses.result
  refine ⟨?_, ?_, ?_⟩
  · intro d hd
    rcases List.mem_cons.mp hd with rfl | hOld
    · exact hFound
    · exact h.found d hOld
  · refine List.pairwise_cons.mpr ⟨?_, h.once⟩
    intro d hd hIter hNonzero
    have := hCursor.results d
      (List.mem_filter.mpr ⟨hd, by simp [hIter]⟩)
    split at hResult <;> omega
  · intro d earlier hSuffix k hk
    rcases List.suffix_cons_iff.mp hSuffix with hWhole | hOld
    · cases hWhole
      rcases hk with ⟨n, hn, hLe⟩
      rcases List.getElem?_eq_some_iff.mp hn with ⟨hLt, -⟩
      have hPast := (hFound.past k hLt).mpr ⟨n, hn, hLe⟩
      by_cases hNew : k = 0 ∨ c.cursor ≤ k
      · refine ⟨c, List.mem_cons_self, rfl, ?_⟩
        split at hResult <;> omega
      · rcases hCursor.covered k (by omega) (by omega) with
          ⟨e, he, hLe⟩
        rcases List.mem_filter.mp he with ⟨hIn, hIter⟩
        refine ⟨e, List.mem_cons_of_mem _ hIn, ?_, hLe⟩
        simpa using hIter
    · exact h.covered d earlier hOld k hk

/- The calls before the last one. -/
theorem Dependencies.tail
    {calls : List WaitCall} {c : WaitCall}
    (h : Dependencies (c :: calls)) :
    Dependencies calls := by
  refine ⟨?_, (List.pairwise_cons.mp h.once).2, ?_⟩
  · intro d hd
    exact h.found d (List.mem_cons_of_mem _ hd)
  · intro d earlier hSuffix
    exact h.covered d earlier
      (hSuffix.trans (List.suffix_cons c calls))

namespace StagingState

/-
  Every run without repeated numbers keeps the cursors and
  finds the dependencies; the first repeated number that a
  wait meets leads to a wrong one.
-/
structure Sound (s : StagingState) : Prop where
  inv : s.Inv
  settled : (∀ c ∈ s.calls, c.Single) → s.Settled
  found : (∀ c ∈ s.calls, c.Single) → Dependencies s.calls
  single : Dependencies s.calls → ∀ c ∈ s.calls, c.Single

theorem sound_init :
    Sound { piper := .cilkPipeWhileBegin, calls := [] } := by
  have hNone : ∀ i,
      PiperState.cilkPipeWhileBegin.numbers i = [] :=
    fun _ => rfl
  refine ⟨⟨?_, ?_, ?_, ?_⟩, ?_, ?_, ?_⟩
  · intro i
    exact List.Pairwise.nil
  · intro i n hn
    cases hn
  · intro i _ hStarted
    exact absurd (hNone i) hStarted
  · intro c hc
    cases hc
  · intro _ i _ hStarted
    exact absurd (hNone i) hStarted
  · intro _
    refine ⟨fun c hc => (by cases hc), List.Pairwise.nil, ?_⟩
    intro c earlier hSuffix
    cases List.suffix_nil.mp hSuffix
  · intro _ c hc
    cases hc

theorem Sound.step
    {s t : StagingState} {a : StagingAction}
    (h : s.Sound)
    (hStep : stagingStep s a t) :
    t.Sound := by
  have hInv := h.inv.step hStep
  rcases h.inv.entered hStep with
    ⟨i, n, right, down, index, hAppends, hEnter, hIndex,
      hCalls⟩ |
    ⟨i, n, right, down, hLater, hAdmits, hEnter, hCalls⟩
  · refine ⟨hInv, ?_, ?_, ?_⟩
    · intro hSingle
      rw [hCalls] at hSingle
      exact (h.settled hSingle).stage h.inv hAppends hEnter
        hIndex hCalls
    · rw [hCalls]
      exact h.found
    · rw [hCalls]
      exact h.single
  · -- Up to this call, the number decides what is found.
    have hPasses := PiperState.waitCall_passes
      (h.inv.sorted (i - 1)) n
    have hCursor : (∀ c ∈ s.calls, c.Single) →
        CursorAt (s.piper.waitCall i n).left
          (s.piper.waitCall i n).cursor (s.callsOf i) :=
      fun hSingle => h.settled hSingle i hLater hAdmits.ne_nil
    have hIff : (∀ c ∈ s.calls, c.Single) →
        ((s.piper.waitCall i n).Found ↔
          (s.piper.waitCall i n).Single) := by
      intro hSingle
      apply WaitCall.found_iff_single hPasses
        (hCursor hSingle) (h.inv.after hLater hAdmits)
      intro d hd
      exact hSingle d (mem_callsOf.mp hd).1
    refine ⟨hInv, ?_, ?_, ?_⟩
    · intro hSingle
      rw [hCalls, List.forall_mem_cons] at hSingle
      exact (h.settled hSingle.2).wait h.inv hLater hAdmits
        ((hIff hSingle.2).mpr hSingle.1) hEnter hCalls
    · intro hSingle
      rw [hCalls, List.forall_mem_cons] at hSingle
      rw [hCalls]
      exact (h.found hSingle.2).call hPasses
        ((hIff hSingle.2).mpr hSingle.1) (hCursor hSingle.2)
    · intro hDeps
      rw [hCalls] at hDeps ⊢
      have hOld := h.single hDeps.tail
      rw [List.forall_mem_cons]
      exact ⟨(hIff hOld).mp
        (hDeps.found _ List.mem_cons_self), hOld⟩

end StagingState

/-
  The waits of a run find their left dependencies if and only
  if none of them waits for a number that two later left
  stages have.
-/
theorem dependencies_iff_single
    (s : StagingState)
    (hReach : stagingSystem.Reachable s) :
    Dependencies s.calls ↔ ∀ c ∈ s.calls, c.Single := by
  have hSound : s.Sound := by
    apply hReach.invariant
    · intro s hInit
      cases hInit
      exact StagingState.sound_init
    · intro s a t h hStep
      exact h.step hStep
  exact ⟨hSound.single, hSound.found⟩

/- Stage 0 and a stage 1 of the first iteration. -/
def oneStage : PiperState :=
  (PiperState.cilkPipeWhileBegin.enter 1 0 0 0 1).enter
    1 1 2 1 1

private theorem oneStage_reachable :
    stagingSystem.Reachable { piper := oneStage, calls := [] } := by
  have hInit : stagingSystem.Reachable
      { piper := .cilkPipeWhileBegin, calls := [] } :=
    TransitionSystem.Reachable.of_init rfl
  have hFirst : stagingSystem.Reachable
      { piper := PiperState.cilkPipeWhileBegin.enter 1 0 0 0 1
        calls := [] } :=
    hInit.step (a := .first 1)
      ⟨le_refl 1, rfl, rfl, rfl⟩
  exact hFirst.step (a := .stage 1 1)
    ⟨⟨⟨0, rfl, by decide⟩, fun c hc => by cases hc⟩,
      rfl, rfl⟩

/- The next iteration waits for the only stage 1. -/
theorem dependencies_oneStage :
    ∃ s, stagingSystem.Reachable s ∧
      s.calls.map WaitCall.result = [1] ∧
      Dependencies s.calls := by
  have hSecond : stagingSystem.Reachable
      { piper := oneStage.enter 2 0 1 2 1, calls := [] } :=
    oneStage_reachable.step (a := .first 2)
      ⟨by decide, rfl, rfl, rfl⟩
  obtain ⟨t, ht⟩ : ∃ t,
      (oneStage.enter 2 0 1 2 1).cilkStageWait 2 1 = some t :=
    ⟨_, rfl⟩
  have hWait : stagingSystem.Reachable
      { piper := t
        calls :=
          [(oneStage.enter 2 0 1 2 1).waitCall 2 1] } :=
    hSecond.step (a := .wait 2 1)
      ⟨⟨⟨0, rfl, by decide⟩, fun c hc => by cases hc⟩,
        ht, rfl⟩
  refine ⟨_, hWait, rfl,
    (dependencies_iff_single _ hWait).mpr ?_⟩
  intro c hc k l hPos hkl hk hl
  rw [List.mem_singleton] at hc
  subst hc
  have hLeft :
      ((oneStage.enter 2 0 1 2 1).waitCall 2 1).left =
        [0, 1] := rfl
  rw [hLeft] at hl
  rcases List.getElem?_eq_some_iff.mp hl with ⟨hLength, -⟩
  have : l < 2 := hLength
  omega

/-
  Two left stages 1: the wait for stage 1 finds the first of
  them, and leaves the cursor before the second.
-/
theorem missed_left_stage :
    ¬ ∀ s, stagingSystem.Reachable s →
      Dependencies s.calls := by
  intro hAll
  have hAgain : stagingSystem.Reachable
      { piper := oneStage.enter 1 1 4 3 1, calls := [] } :=
    oneStage_reachable.step (a := .stage 1 1)
      ⟨⟨⟨1, rfl, le_refl 1⟩, fun c hc => by cases hc⟩,
        rfl, rfl⟩
  have hSecond : stagingSystem.Reachable
      { piper :=
          (oneStage.enter 1 1 4 3 1).enter 2 0 1 2 1
        calls := [] } :=
    hAgain.step (a := .first 2)
      ⟨by decide, rfl, rfl, rfl⟩
  obtain ⟨t, ht⟩ : ∃ t,
      ((oneStage.enter 1 1 4 3 1).enter
        2 0 1 2 1).cilkStageWait 2 1 = some t :=
    ⟨_, rfl⟩
  have hWait : stagingSystem.Reachable
      { piper := t
        calls :=
          [((oneStage.enter 1 1 4 3 1).enter
            2 0 1 2 1).waitCall 2 1] } :=
    hSecond.step (a := .wait 2 1)
      ⟨⟨⟨0, rfl, by decide⟩, fun c hc => by cases hc⟩,
        ht, rfl⟩
  have hFound := (hAll _ hWait).found _
    (List.mem_singleton_self _)
  have hPast := (hFound.past 2 (by decide)).mpr
    ⟨1, rfl, le_refl 1⟩
  exact absurd hPast (by decide)

end PRacer
