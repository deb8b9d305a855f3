import PRacer.Pipeline.RingSteps

/-
  The ring never mixes up the lists of two iterations, and a
  hook that reads the left list reads it as far as the hooks
  of the left iteration have got.

  Main declarations:
    * `RingState.Serves`
    * `lookups_serve`
-/

------------------------------------------------------------
-- Lists That Are Found
------------------------------------------------------------

namespace PRacer

open Foundations

namespace RingState

variable {s : RingState} {K n i : Nat}

/-
  The ring has this list for an iteration, and the list has
  the frames of the iteration as far as its own hook has got.
-/
structure Serves (s : RingState) (k list : Nat) : Prop where
  slot : s.ring.getStageFrameList k = some list
  frames : ∃ l, s.lists.get list = some l ∧
    l.Keeps (s.piper.iterations k).frames (s.pc k).appending
  numbers : ∀ f ∈ (s.piper.iterations k).frames,
    f.iterNum = k

namespace Inv

variable {addr : Nat → Nat}

theorem serves_own
    (h : s.Inv K n addr) (hK : 2 ≤ K)
    (hLive : (s.phase i).isLive = true)
    (hListed : (s.phase i).isListed = true) :
    s.Serves i (addr (i - 1)) := by
  rcases h.own hK hLive hListed with ⟨hSlot, l, -, hGet, hList⟩
  exact ⟨hSlot, ⟨l, hGet, hList.keeps⟩, h.kept.numbers i⟩

theorem serves_left
    (h : s.Inv K n addr) (hK : 2 ≤ K)
    (hLive : (s.phase i).isLive = true)
    (hLater : 1 < i) :
    s.Serves (i - 1) (addr (i - 1 - 1)) := by
  rcases h.left hK hLive hLater with ⟨hSlot, l, hGet, hList, -⟩
  exact ⟨hSlot, ⟨l, hGet, hList.keeps⟩, h.kept.numbers _⟩

/- Stage 0 of the iterations that are looked up is over. -/
theorem lookups_entered
    {k : Nat}
    (h : s.Inv K n addr) (hK : 2 ≤ K)
    (hk : k ∈ (s.pc i).lookups i) :
    (∃ list, s.Serves k list) ∧
      (s.piper.iterations k).frames ≠ [] := by
  have hRead := h.hooks i
  have hOwn : (s.phase i).isLive = true →
      (s.phase i).isEntered = true →
        (∃ list, s.Serves i list) ∧
          (s.piper.iterations i).frames ≠ [] :=
    fun hLive hEntered =>
      ⟨⟨_, h.serves_own hK hLive
        (IterationPhase.isListed_of_isEntered hEntered)⟩,
        (h.frames i).mp hEntered⟩
  have hLeft : (s.phase i).isLive = true → 1 < i →
      (∃ list, s.Serves (i - 1) list) ∧
        (s.piper.iterations (i - 1)).frames ≠ [] :=
    fun hLive hLater =>
      ⟨⟨_, h.serves_left hK hLive hLater⟩,
        (h.frames _).mp (h.phases.entered_left hLive hLater)⟩
  cases hPc : s.pc i with
  | stageFirst =>
      rw [hPc] at hk
      change k ∈ if 1 < i then [i - 1] else [] at hk
      split at hk
      · rename_i hLater
        rw [List.mem_singleton.mp hk]
        exact hLeft (by rw [phase_eq hPc]; rfl) hLater
      · cases hk
  | stage userStage waits =>
      rw [hPc] at hk
      rw [List.mem_singleton.mp hk]
      exact hOwn (by rw [phase_eq hPc]; rfl)
        (by rw [phase_eq hPc]; rfl)
  | leftDependency e =>
      rw [hPc] at hk hRead
      rcases List.mem_pair.mp hk with rfl | rfl
      · exact hOwn (by rw [phase_eq hPc]; rfl)
          (by rw [phase_eq hPc]; rfl)
      · exact hLeft (by rw [phase_eq hPc]; rfl) hRead.2
  | leftSibling e leftIndex =>
      rw [hPc] at hk hRead
      rw [List.mem_singleton.mp hk]
      exact hLeft (by rw [phase_eq hPc]; rfl) hRead.2.1
  | _ =>
      rw [hPc] at hk
      cases hk

/- The own list that a hook holds. -/
theorem holds_own
    {list : Nat}
    (h : s.Inv K n addr) (hK : 2 ≤ K)
    (hList : list ∈ (s.pc i).own) :
    s.Serves i list := by
  rw [(h.hooks i).own hList]
  have hPhase : ((s.pc i).phase.isLive = true) ∧
      (s.pc i).phase.isListed = true := by
    revert hList
    cases s.pc i <;> simp [IterationPc.own,
      IterationPc.phase, IterationPhase.isLive, IterationPhase.isListed]
  exact h.serves_own hK hPhase.1 hPhase.2

/- The left list that a hook holds. -/
theorem holds_left
    {pre : Nat}
    (h : s.Inv K n addr) (hK : 2 ≤ K)
    (hPre : (s.pc i).pre? = some pre) :
    1 < i ∧ s.Serves (i - 1) pre := by
  rcases (h.hooks i).pre hPre with ⟨hLater, rfl⟩
  have hLive : (s.pc i).phase.isLive = true := by
    revert hPre
    cases s.pc i <;> simp [IterationPc.pre?,
      IterationPc.phase, IterationPhase.isLive]
  exact ⟨hLater, h.serves_left hK hLive hLater⟩

/- The position that a hook reads is in the left list. -/
theorem reads_lt
    {pre index array : Nat}
    (h : s.Inv K n addr) (hK : 2 ≤ K)
    (hReads : (s.pc i).reads = some (pre, index, array)) :
    (s.pc i).pre? = some pre ∧
      ∀ l, s.lists.get pre = some l → index < l.length := by
  have hRead := h.hooks i
  cases hPc : s.pc i with
  | firstSibling pre' get =>
      rw [hPc] at hReads hRead
      have hLive : (s.phase i).isLive = true := by
        rw [phase_eq hPc]
        rfl
      cases get with
      | entry array' =>
          cases hReads
          refine ⟨rfl, fun l hGet => ?_⟩
          rw [hRead.2] at hGet
          exact h.leftHas_one hK hLive hRead.1 l hGet
      | _ => cases hReads
  | leftTest x test get =>
      rw [hPc] at hReads hRead
      cases get with
      | entry array' =>
          cases hReads
          refine ⟨rfl, fun l hGet => ?_⟩
          rw [hRead.1.pre] at hGet
          exact hRead.2.trans_le (hRead.1.length l hGet)
      | _ => cases hReads
  | sibling e leftIndex pre' get =>
      rw [hPc] at hReads hRead
      cases get with
      | entry array' =>
          cases hReads
          refine ⟨rfl, fun l hGet => ?_⟩
          rw [hRead.2.2.1] at hGet
          exact hRead.2.2.2 l hGet
      | _ => cases hReads
  | _ =>
      rw [hPc] at hReads
      cases hReads

end Inv

end RingState

open RingState in
/-
  In every execution a new list goes into the slot where the
  lookups search it, and every list that a hook looks up or
  holds is the one of the iteration it is meant for, with the
  frames of that iteration.  No hook gets stuck, whatever
  values its disturbed reads give.  A read through a pointer
  to the present array gives the frame that is there if the
  left iteration is not inside `append`.
-/
theorem lookups_serve
    {s : RingState} {K : Nat}
    (hK : 2 ≤ K)
    (hReach : (ringSystem K).Reachable s) (i : Nat) :
    (∀ sf, s.pc i = .insertList sf →
      ∃ it, s.ring.advance =
        some (((s.ring.getIndex i : Nat) : Int), it)) ∧
    (∀ index sf, s.pc i = .newList index sf →
      index = s.ring.getIndex i) ∧
    (∀ k ∈ (s.pc i).lookups i,
      (∃ list, s.Serves k list) ∧
        (s.piper.iterations k).frames ≠ []) ∧
    (∀ list ∈ (s.pc i).own, s.Serves i list) ∧
    (∀ pre, (s.pc i).pre? = some pre →
      1 < i ∧ s.Serves (i - 1) pre) ∧
    ((s.pc i).inHook = true → ∀ anything,
      ∃ t, s.hookStep i anything = some t) ∧
    (∀ pre index array,
      (s.pc i).reads = some (pre, index, array) →
        ∃ l, s.lists.get pre = some l ∧
          index < l.length ∧
          (array = l.array →
            (s.pc (i - 1)).appending = none →
              ∃ frame,
                (s.piper.iterations (i - 1)).frames[index]? =
                    some frame ∧
                  ∀ anything,
                    l.read array index anything = frame)) := by
  rcases exists_inv_of_reachable hK hReach with ⟨n, addr, h⟩
  refine ⟨?_, ?_, ?_, ?_, ?_, ?_, ?_⟩
  · intro sf hPc
    have hPhase := phase_eq hPc
    have hNext :=
      (h.phases.starting i (by rw [hPhase]; rfl)).1
    have hMoves : s.moves n = n := by
      apply if_neg
      rw [← hNext, hPhase]
      exact IterationPhase.noConfusion
    have hCursor := h.kept.cursor
    rw [hMoves] at hCursor
    rw [hNext, Iterations.getIndex_succ]
    exact ⟨_, hCursor.advance (by rw [h.limit]; omega)⟩
  · intro index sf hPc
    have hRead := h.hooks i
    rw [hPc] at hRead
    exact hRead.1
  · exact fun k hk => h.lookups_entered hK hk
  · exact fun list hList => h.holds_own hK hList
  · exact fun pre hPre => h.holds_left hK hPre
  · intro hHook anything
    rcases h.hookStep hK hHook anything with ⟨t, hRun, -⟩
    exact ⟨t, hRun⟩
  · intro pre index array hReads
    rcases h.reads_lt hK hReads with ⟨hPre, hLt⟩
    rcases (h.holds_left hK hPre).2.frames with
      ⟨l, hGet, hKeeps⟩
    refine ⟨l, hGet, hLt l hGet, ?_⟩
    intro hArray hOutside
    rw [hOutside] at hKeeps
    have hIndex := hLt l hGet
    rw [show l.length = _ from hKeeps.length] at hIndex
    have hFrame := List.getElem?_eq_getElem hIndex
    refine ⟨_, hFrame, ?_⟩
    intro anything
    rw [hArray]
    exact hKeeps.read (hKeeps.live.mpr (by simp)) hFrame

------------------------------------------------------------
-- Computed Runs
------------------------------------------------------------

/- One step, or an error where it cannot be taken. -/
def RingState.perform
    (s : RingState) : RingAction → Except Unit RingState
| .start i =>
    if s.MayStart i then .ok (s.setPc i .stageFirst)
    else .error ()
| .enter i userStage waits =>
    if s.pc i = .running then
      .ok (s.setPc i (.stage userStage waits))
    else .error ()
| .hook i anything =>
    match s.hookStep i anything with
    | none => .error ()
    | some t => .ok t
| .finish i =>
    if s.pc i = .running then .ok (s.setPc i .finished)
    else .error ()

theorem ringStep_of_perform
    (s : RingState) (a : RingAction) (t : RingState)
    (hRun : s.perform a = Except.ok t) :
    ringStep s a t := by
  cases a with
  | start i =>
      unfold RingState.perform at hRun
      dsimp only at hRun
      split at hRun
      · rename_i hStart
        cases hRun
        exact ⟨hStart, rfl⟩
      · cases hRun
  | enter i userStage waits =>
      unfold RingState.perform at hRun
      dsimp only at hRun
      split at hRun
      · rename_i hPc
        cases hRun
        exact ⟨hPc, rfl⟩
      · cases hRun
  | hook i anything =>
      unfold RingState.perform at hRun
      dsimp only at hRun
      split at hRun
      · cases hRun
      · rename_i hStep
        cases hRun
        exact hStep
  | finish i =>
      unfold RingState.perform at hRun
      dsimp only at hRun
      split at hRun
      · rename_i hPc
        cases hRun
        exact ⟨hPc, rfl⟩
      · cases hRun

/- A computed run whose last state passes a test. -/
theorem exists_reachable_of_test
    {K : Nat} {acts : List RingAction}
    {test : RingState → Bool}
    (hTest :
      (acts.foldlM RingState.perform (.init K)).toOption.any
        test = true) :
    ∃ s, (ringSystem K).Reachable s ∧ test s = true := by
  cases hRun : acts.foldlM RingState.perform (.init K) with
  | error e =>
      rw [hRun] at hTest
      cases hTest
  | ok s =>
      rw [hRun] at hTest
      exact ⟨s, TransitionSystem.Reachable.of_foldlM
        ringStep_of_perform (.of_init rfl) hRun, hTest⟩

/- Steps of a hook. -/
def hookSteps (i : Nat) (count : Nat) : List RingAction :=
  List.replicate count
    (.hook i
      { iterNum := 0
        stageNum := 0
        downFirst :=
          { current := 0, rightCont := 0, downCont := 0 }
        rightFirst :=
          { current := 0, rightCont := 0, downCont := 0 } })

/- Three iterations finish, and the next two enter stage 0. -/
def fiveIterations : List RingAction :=
  [.start 1] ++ hookSteps 1 7 ++ [.finish 1] ++
  [.start 2] ++ hookSteps 2 10 ++ [.finish 2] ++
  [.start 3] ++ hookSteps 3 10 ++ [.finish 3] ++
  [.start 4] ++ hookSteps 4 10 ++ [.start 5] ++ hookSteps 5 10

/-
  The fifth iteration searches the list of the fourth, which
  has counted a frame that it has not written yet.
-/
def searchDuringAppend : List RingAction :=
  fiveIterations ++ [.enter 4 1 false] ++ hookSteps 4 4 ++
  [.enter 5 1 true] ++ hookSteps 5 6

/-
  The fifth list is in the slot that the first one had.  Its
  iteration has read the length of the fourth list while the
  last frame there was not written, and now reads that frame.
-/
theorem lookups_serve_searchDuringAppend :
    ∃ s frame,
      (ringSystem 3).Reachable s ∧
        s.ring.getIndex 5 = s.ring.getIndex 1 ∧
        (s.pc 5).reads = some (3, 1, 0) ∧ s.Serves 4 3 ∧
        (s.piper.iterations 4).frames[1]? = some frame ∧
        ∃ l, s.lists.get 3 = some l ∧
          ∀ anything, l.read 0 1 anything = frame := by
  have hTest :
      ((searchDuringAppend ++ hookSteps 4 1).foldlM
        RingState.perform (.init 3)).toOption.any (fun s =>
          s.ring.getIndex 5 = s.ring.getIndex 1 ∧
            (s.pc 5).reads = some (3, 1, 0) ∧
            (s.pc 5).pre? = some 3 ∧
            (s.pc 4).appending = none ∧
            (s.lists.get 3).any (fun l => l.array = 0)) =
      true := by
    decide +kernel
  rcases exists_reachable_of_test hTest with
    ⟨s, hReach, hState⟩
  rw [decide_eq_true_iff] at hState
  rcases hState with ⟨hIndex, hReads, hPre, hOutside, hArray⟩
  rcases lookups_serve (Nat.le_succ 2) hReach 5 with
    ⟨-, -, -, -, hLeft, -, hFrame⟩
  rcases hFrame 3 1 0 hReads with ⟨l, hGet, -, hRead⟩
  rw [hGet] at hArray
  have hSame : l.array = 0 := of_decide_eq_true hArray
  rcases hRead hSame.symm hOutside with ⟨frame, hAt, hAll⟩
  exact ⟨s, frame, hReach, hIndex, hReads, (hLeft 3 hPre).2,
    hAt, l, hGet, hAll⟩

/-
  Inside `append` a read is not safe: the hook of the fifth
  iteration may read the frame that the fourth one has
  counted and not written, and gets anything.  A comment of
  the source says that a check for this is needed, and the
  source makes none.
-/
theorem unwritten_frame_read :
    ∃ s l,
      (ringSystem 3).Reachable s ∧
        (s.pc 5).reads = some (3, 1, 0) ∧ s.Serves 4 3 ∧
        s.lists.get 3 = some l ∧
        ∀ anything, l.read 0 1 anything = anything := by
  have hTest :
      (searchDuringAppend.foldlM RingState.perform
        (.init 3)).toOption.any (fun s =>
          (s.pc 5).reads = some (3, 1, 0) ∧
            (s.pc 5).pre? = some 3 ∧
            (s.lists.get 3).any
              (fun l => l.p[1]? = some none)) =
      true := by
    decide +kernel
  rcases exists_reachable_of_test hTest with
    ⟨s, hReach, hState⟩
  rw [decide_eq_true_iff] at hState
  rcases hState with ⟨hReads, hPre, hUnwritten⟩
  rcases RingState.exists_inv_of_reachable (Nat.le_succ 2)
    hReach with ⟨n, addr, h⟩
  have hServes := (h.holds_left (Nat.le_succ 2) hPre).2
  rcases hServes.frames with ⟨l, hGet, -⟩
  rw [hGet] at hUnwritten
  have hNone : l.p[1]? = some none :=
    of_decide_eq_true hUnwritten
  refine ⟨s, l, hReach, hReads, hServes, hGet, ?_⟩
  intro anything
  unfold SharedList.read
  rw [hNone]
  split <;> rfl

end PRacer
