import PRacer.Pipeline.RingInvariant

/-
  Every step of a hook on the ring of stage lists can be
  taken and keeps the invariant.

  Main declarations:
    * `RingState.Inv.goOn`, `RingState.Inv.setList`
    * `RingState.Inv.hookStep`
    * `RingState.exists_inv_of_reachable`
-/

------------------------------------------------------------
-- Kinds of Steps
------------------------------------------------------------

namespace PRacer

open Foundations

namespace RingState

variable {s t : RingState} {K n i : Nat}

theorem phase_eq
    {pc : IterationPc}
    (hPc : s.pc i = pc) :
    s.phase i = pc.phase :=
  congrArg IterationPc.phase hPc

variable {addr : Nat → Nat} {old : IterationPc}

/- An iteration goes on, and no slot is being filled. -/
theorem Kept.setPc
    {pc : IterationPc}
    (h : s.Kept n addr)
    (hPc : s.pc i = old)
    (hOld : old.phase ≠ .storing)
    (hNew : pc.phase ≠ .storing)
    (hAppending : pc.appending = old.appending) :
    (s.setPc i pc).Kept n addr := by
  have hPcs : (s.setPc i pc).pc = Function.update s.pc i pc :=
    rfl
  apply h.congr (t := s.setPc i pc) rfl rfl rfl
  · rw [phase_of_pc hPcs]
    by_cases hi : n + 1 = i
    · rw [hi, Function.update_self, phase_eq hPc]
      exact ⟨fun hSame => absurd hSame hNew,
        fun hSame => absurd hSame hOld⟩
    · rw [Function.update_of_ne hi]
  · intro k
    by_cases hk : k = i
    · rw [hk, hPcs, Function.update_self, hPc, hAppending]
      exact fun _ _ => id
    · rw [hPcs, Function.update_of_ne hk]
      exact fun _ _ => id

namespace Inv

/- Only the iteration's place and the orders change. -/
theorem goOn_keeps
    {pc : IterationPc} {piper : PiperState}
    (h : s.Inv K n addr)
    (hPc : s.pc i = old)
    (hLive : old.phase.isLive = true)
    (hPhase : pc.phase = old.phase)
    (hKeeps : ∀ (l : SharedList StageFrame) fs,
      l.Keeps fs old.appending → l.Keeps fs pc.appending)
    (hPiper : piper.iterations = s.piper.iterations)
    (hHook : s.HookOk addr i pc) :
    ({ s with piper := piper }.setPc i pc).Inv K n addr := by
  have hOld := phase_eq hPc
  generalize ht : { s with piper := piper }.setPc i pc = t
  have hNew : t.pc = Function.update s.pc i pc := by
    rw [← ht]
    rfl
  have hLists : t.lists = s.lists := by
    rw [← ht]
    rfl
  have hIterations :
      t.piper.iterations = s.piper.iterations := by
    rw [← ht]
    exact hPiper
  have hRing : t.ring = s.ring := by
    rw [← ht]
    rfl
  have hSame : t.phase = s.phase := by
    rw [phase_of_pc hNew, hPhase, ← hOld,
      Function.update_eq_self]
  apply h.move (hOld ▸ hLive) hNew
  · rw [hPhase, hOld]
  · rw [hPhase, hOld]
  · rw [hPhase, hOld]
    exact id
  · rw [hRing]
  · apply h.kept.congr hRing hLists hIterations
    · rw [hSame]
    · intro k
      by_cases hki : k = i
      · rw [hki, hNew, Function.update_self, hPc]
        exact hKeeps
      · rw [hNew, Function.update_of_ne hki]
        exact fun _ _ => id
  · intro k _
    rw [hIterations]
  · exact grows_of_eq hLists
  · exact hHook.of_others (by rw [hRing]) (fun _ => rfl)
      (fun _ => rfl)
      (fun _ _ hHas => hHas.of_grows (grows_of_eq hLists))
  · rw [hIterations, hPhase, ← hOld]
    exact h.frames i

theorem goOn
    {pc : IterationPc} {piper : PiperState}
    (h : s.Inv K n addr)
    (hPc : s.pc i = old)
    (hLive : old.phase.isLive = true)
    (hPhase : pc.phase = old.phase)
    (hAppending : pc.appending = old.appending)
    (hPiper : piper.iterations = s.piper.iterations)
    (hHook : s.HookOk addr i pc) :
    ({ s with piper := piper }.setPc i pc).Inv K n addr := by
  apply h.goOn_keeps hPc hLive hPhase _ hPiper hHook
  rw [hAppending]
  exact fun _ _ => id

/- The iteration changes its own list. -/
theorem setList
    {pc : IterationPc} {l l' : SharedList StageFrame}
    (h : s.Inv K n addr)
    (hPc : s.pc i = old)
    (hLive : old.phase.isLive = true)
    (hOld : old.phase.isListed = true)
    (hListed : pc.phase.isListed = true)
    (hEntered :
      old.phase.isEntered = true → pc.phase.isEntered = true)
    (hNew : t.pc = Function.update s.pc i pc)
    (hRing : t.ring = s.ring)
    (hLists :
      t.lists = s.lists.modify (addr (i - 1)) fun _ => l')
    (hPiper : ∀ k, k ≠ i →
      t.piper.iterations k = s.piper.iterations k)
    (hGet : s.lists.get (addr (i - 1)) = some l)
    (hLe : l.length ≤ l'.length)
    (hList : t.Faithful i l')
    (hNumbers : ∀ f ∈ (t.piper.iterations i).frames,
      f.iterNum = i)
    (hHook : s.HookOk addr i pc)
    (hFrames : pc.phase.isEntered = true ↔
      (t.piper.iterations i).frames ≠ []) :
    t.Inv K n addr := by
  have hPhase := phase_eq hPc
  have hPos := h.phases.one_le (hPhase ▸ hLive)
  have hi := (h.phases.listed i hPos).mp (hPhase ▸ hOld)
  have hGrows := grows_of_modify hLists hGet hLe
  apply h.move (hPhase ▸ hLive) hNew
  · rw [hListed, hPhase, hOld]
  · rw [IterationPhase.not_isStarting hListed, hPhase,
      IterationPhase.not_isStarting hOld]
  · rw [hPhase]
    exact hEntered
  · rw [hRing]
  · exact h.kept.setList hPos hi hRing hLists hPiper
      (fun k hk => by rw [hNew, Function.update_of_ne hk])
      hList hNumbers
  · exact hPiper
  · exact hGrows
  · exact hHook.of_others (by rw [hRing]) (fun _ => rfl)
      (fun _ => rfl) (fun _ _ hHas => hHas.of_grows hGrows)
  · exact hFrames

------------------------------------------------------------
-- Lookups and Reads
------------------------------------------------------------

theorem hook_stageFirst
    (h : s.Inv K n addr) (hK : 2 ≤ K)
    (hPc : s.pc i = .stageFirst) (anything : StageFrame) :
    ∃ t, s.hookStep i anything = some t ∧ t.Inv K n addr := by
  unfold hookStep
  rw [hPc]
  dsimp only
  by_cases hLater : 1 < i
  · rcases h.left hK (by rw [phase_eq hPc]; rfl) hLater with
      ⟨hSlot, -⟩
    rw [if_pos hLater, hSlot]
    exact ⟨_, rfl, h.goOn hPc rfl rfl rfl rfl ⟨hLater, rfl⟩⟩
  · rw [if_neg hLater]
    exact ⟨_, rfl, h.goOn hPc rfl rfl rfl rfl True.intro⟩

theorem hook_leftDependency
    {e : StageEntry}
    (h : s.Inv K n addr) (hK : 2 ≤ K)
    (hPc : s.pc i = .leftDependency e)
    (anything : StageFrame) :
    ∃ t, s.hookStep i anything = some t ∧ t.Inv K n addr := by
  have hRead := h.hooks i
  rw [hPc] at hRead
  rcases hRead with ⟨hOwn, hLater⟩
  have hLive : (s.phase i).isLive = true := by
    rw [phase_eq hPc]
    rfl
  rcases h.own hK hLive (by rw [phase_eq hPc]; rfl) with
    ⟨hSelf, -⟩
  rcases h.left hK hLive hLater with ⟨hSlot, -⟩
  unfold hookStep
  rw [hPc]
  dsimp only
  rw [hSelf, hSlot]
  exact ⟨_, rfl, h.goOn hPc rfl rfl rfl rfl
    ⟨hOwn, rfl, hLater, rfl⟩⟩

theorem hook_leftSibling
    {e : StageEntry} {leftIndex : Nat}
    (h : s.Inv K n addr) (hK : 2 ≤ K)
    (hPc : s.pc i = .leftSibling e leftIndex)
    (anything : StageFrame) :
    ∃ t, s.hookStep i anything = some t ∧ t.Inv K n addr := by
  have hRead := h.hooks i
  rw [hPc] at hRead
  rcases hRead with ⟨hOwn, hLater, hHas⟩
  rcases h.left hK (by rw [phase_eq hPc]; rfl) hLater with
    ⟨hSlot, -⟩
  unfold hookStep
  rw [hPc]
  dsimp only
  rw [hSlot]
  exact ⟨_, rfl, h.goOn hPc rfl rfl rfl rfl
    ⟨hOwn, hLater, rfl, hHas⟩⟩

theorem hook_leftLength
    {e : StageEntry} {cur pre : Nat}
    (h : s.Inv K n addr) (hK : 2 ≤ K)
    (hPc : s.pc i = .leftLength e cur pre)
    (anything : StageFrame) :
    ∃ t, s.hookStep i anything = some t ∧ t.Inv K n addr := by
  have hRead := h.hooks i
  rw [hPc] at hRead
  rcases hRead with ⟨hOwn, rfl, hLater, rfl⟩
  have hLive : (s.phase i).isLive = true := by
    rw [phase_eq hPc]
    rfl
  rcases h.own hK hLive (by rw [phase_eq hPc]; rfl) with
    ⟨-, l, -, hGet, -⟩
  rcases h.left hK hLive hLater with ⟨-, pre, hPre, -⟩
  unfold hookStep
  rw [hPc]
  dsimp only
  rw [hGet, hPre]
  refine ⟨_, rfl, h.goOn hPc rfl rfl rfl rfl ?_⟩
  exact
    { own := hOwn
      cur := rfl
      later := hLater
      pre := rfl
      length := by
        intro l' hGet'
        rw [Option.some.inj (hPre.symm.trans hGet')]
      iPre := h.leftHas_one hK hLive hLater }

/- One step of a call of `get` on the left list. -/
theorem getFrame
    {index : Nat} {get : SharedList.GetPc}
    {going : SharedList.GetPc → IterationPc}
    {next : StageFrame → IterationPc}
    (h : s.Inv K n addr) (hK : 2 ≤ K)
    (hPc : s.pc i = old)
    (hLive : old.phase.isLive = true)
    (hAppending : old.appending = none)
    (hLater : 1 < i)
    (hIndex : s.LeftHas addr i (index + 1))
    (hGoing : ∀ get, (going get).phase = old.phase ∧
      (going get).appending = none ∧
      s.HookOk addr i (going get))
    (hNext : ∀ sf, (next sf).phase = old.phase ∧
      (next sf).appending = none ∧
      s.HookOk addr i (next sf))
    (anything : StageFrame) :
    ∃ t,
      s.getFrame i (addr (i - 1 - 1)) index get anything
          going next = some t ∧
        t.Inv K n addr := by
  rcases h.left hK (phase_eq hPc ▸ hLive) hLater with
    ⟨-, l, hGet, -⟩
  have hGo : ∀ pc : IterationPc, pc.phase = old.phase ∧
      pc.appending = none ∧ s.HookOk addr i pc →
        (s.setPc i pc).Inv K n addr :=
    fun pc hOk => h.goOn hPc hLive hOk.1
      (hOk.2.1.trans hAppending.symm) rfl hOk.2.2
  unfold RingState.getFrame
  rw [hGet]
  dsimp only
  cases get with
  | length =>
      unfold SharedList.getStep
      dsimp only
      rw [if_pos (Nat.lt_of_succ_le (hIndex l hGet))]
      exact ⟨_, rfl, hGo _ (hGoing _)⟩
  | array => exact ⟨_, rfl, hGo _ (hGoing _)⟩
  | entry array => exact ⟨_, rfl, hGo _ (hNext _)⟩

theorem hook_firstSibling
    {pre : Nat} {get : SharedList.GetPc}
    (h : s.Inv K n addr) (hK : 2 ≤ K)
    (hPc : s.pc i = .firstSibling pre get)
    (anything : StageFrame) :
    ∃ t, s.hookStep i anything = some t ∧ t.Inv K n addr := by
  have hRead := h.hooks i
  rw [hPc] at hRead
  rcases hRead with ⟨hLater, rfl⟩
  have hFirst := h.leftHas_one hK
    (by rw [phase_eq hPc]; rfl) hLater
  unfold hookStep
  rw [hPc]
  refine h.getFrame hK hPc rfl rfl hLater hFirst ?_ ?_ anything
  · intro get'
    exact ⟨rfl, rfl, hLater, rfl⟩
  · intro sf
    exact ⟨rfl, rfl, True.intro⟩

theorem hook_sibling
    {e : StageEntry} {leftIndex pre : Nat}
    {get : SharedList.GetPc}
    (h : s.Inv K n addr) (hK : 2 ≤ K)
    (hPc : s.pc i = .sibling e leftIndex pre get)
    (anything : StageFrame) :
    ∃ t, s.hookStep i anything = some t ∧ t.Inv K n addr := by
  have hRead := h.hooks i
  rw [hPc] at hRead
  rcases hRead with ⟨hOwn, hLater, rfl, hHas⟩
  unfold hookStep
  rw [hPc]
  refine h.getFrame hK hPc rfl rfl hLater hHas ?_ ?_ anything
  · intro get'
    exact ⟨rfl, rfl, hOwn, hLater, rfl, hHas⟩
  · intro sf
    exact ⟨rfl, rfl, hOwn⟩

------------------------------------------------------------
-- The Search
------------------------------------------------------------

theorem hook_leftLoop
    {x : LeftSearch}
    (h : s.Inv K n addr) (hK : 2 ≤ K)
    (hPc : s.pc i = .leftLoop x) (anything : StageFrame) :
    ∃ t, s.hookStep i anything = some t ∧ t.Inv K n addr := by
  have hRead := h.hooks i
  rw [hPc] at hRead
  have hFirst := h.leftHas_one hK
    (by rw [phase_eq hPc]; rfl) (SearchOk.later hRead)
  unfold hookStep
  rw [hPc]
  dsimp only
  split
  · rename_i hIndex
    exact ⟨_, rfl, h.goOn hPc rfl rfl rfl rfl
      ⟨hRead, hIndex⟩⟩
  · exact ⟨_, rfl, h.goOn hPc rfl rfl rfl rfl
      ⟨hRead, hFirst⟩⟩

/- The search stays in the left list, whatever it reads. -/
theorem tested_ok
    {x : LeftSearch}
    (hSearch : s.SearchOk addr i x)
    (hIndex : x.index < x.length)
    (stageNum : Nat) (test : LeftTest) :
    (x.tested stageNum test).phase = .entered ∧
      (x.tested stageNum test).appending = none ∧
      s.HookOk addr i (x.tested stageNum test) := by
  have hHas : s.LeftHas addr i (x.index + 1) :=
    hSearch.length.mono hIndex
  unfold LeftSearch.tested
  cases test with
  | equal =>
      dsimp only
      split
      · exact ⟨rfl, rfl,
          { own := hSearch.own
            cur := hSearch.cur
            later := hSearch.later
            pre := hSearch.pre
            length := hSearch.length
            iPre := hSearch.iPre }, hHas⟩
      · exact ⟨rfl, rfl, hSearch, hIndex⟩
  | less =>
      dsimp only
      split
      · exact ⟨rfl, rfl,
          { own := hSearch.own
            cur := hSearch.cur
            later := hSearch.later
            pre := hSearch.pre
            length := hSearch.length
            iPre := hHas }⟩
      · exact ⟨rfl, rfl, hSearch, hIndex⟩
  | greater =>
      dsimp only
      split
      · exact ⟨rfl, rfl, hSearch, hSearch.iPre⟩
      · exact ⟨rfl, rfl, hSearch⟩

theorem hook_leftTest
    {x : LeftSearch} {test : LeftTest}
    {get : SharedList.GetPc}
    (h : s.Inv K n addr) (hK : 2 ≤ K)
    (hPc : s.pc i = .leftTest x test get)
    (anything : StageFrame) :
    ∃ t, s.hookStep i anything = some t ∧ t.Inv K n addr := by
  have hRead := h.hooks i
  rw [hPc] at hRead
  rcases hRead with ⟨hSearch, hIndex⟩
  unfold hookStep
  rw [hPc]
  dsimp only
  rw [hSearch.pre]
  refine h.getFrame hK hPc rfl rfl hSearch.later
    (hSearch.length.mono hIndex) ?_ ?_ anything
  · intro get'
    exact ⟨rfl, rfl, hSearch, hIndex⟩
  · intro sf
    exact tested_ok hSearch hIndex sf.stageNum test

theorem hook_leftEnd
    {x : LeftSearch} {ret : Nat}
    (h : s.Inv K n addr) (hK : 2 ≤ K)
    (hPc : s.pc i = .leftEnd x ret) (anything : StageFrame) :
    ∃ t, s.hookStep i anything = some t ∧ t.Inv K n addr := by
  have hRead := h.hooks i
  rw [hPc] at hRead
  rcases hRead with ⟨hSearch, hRet⟩
  have hPhase := phase_eq hPc
  rcases h.own hK (by rw [hPhase]; rfl) (by rw [hPhase]; rfl)
    with ⟨-, l, -, hGet, hList⟩
  have hHas : s.LeftHas addr i (max ret x.iPre + 1) := by
    intro l' hGet'
    have hLeft := hRet l' hGet'
    have hRight := hSearch.iPre l' hGet'
    omega
  generalize hNext :
    (if max ret x.iPre ≠ 0 then
      IterationPc.leftSibling x.entry (max ret x.iPre)
    else IterationPc.create x.entry) = pc
  have hPcOk : pc.phase = .entered ∧ pc.appending = none ∧
      s.HookOk addr i pc := by
    rw [← hNext]
    split
    · exact ⟨rfl, rfl, hSearch.own, hSearch.later, hHas⟩
    · exact ⟨rfl, rfl, hSearch.own⟩
  unfold hookStep
  rw [hPc]
  dsimp only
  rw [hSearch.cur, hGet]
  dsimp only
  rw [hNext]
  have hIteration :
      (s.piper.setIndex i x.index).iterations i =
        { s.piper.iterations i with index := x.index } :=
    Function.update_self ..
  refine ⟨_, rfl, h.setList hPc rfl rfl
    (by rw [hPcOk.1]; rfl) (fun _ => by rw [hPcOk.1]; rfl)
    rfl rfl rfl ?_ hGet le_rfl ?_ ?_ hPcOk.2.2 ?_⟩
  · intro k hk
    exact Function.update_of_ne hk ..
  · constructor
    · change SharedList.Keeps _
        ((s.piper.setIndex i x.index).iterations i).frames
        (Function.update s.pc i pc i).appending
      rw [hIteration, Function.update_self, hPcOk.2.1]
      have hKeeps := hList.keeps
      rw [hPc] at hKeeps
      exact hKeeps.setIndex x.index
    · change x.index =
        ((s.piper.setIndex i x.index).iterations i).index
      rw [hIteration]
  · change ∀ f ∈
      ((s.piper.setIndex i x.index).iterations i).frames, _
    rw [hIteration]
    exact h.kept.numbers i
  · change _ ↔
      ((s.piper.setIndex i x.index).iterations i).frames ≠ []
    rw [hIteration, hPcOk.1, ← h.frames i, hPhase]
    rfl

------------------------------------------------------------
-- New Frames
------------------------------------------------------------

theorem hook_createFirst
    {right down : Nat}
    (h : s.Inv K n addr)
    (hPc : s.pc i = .createFirst right down)
    (anything : StageFrame) :
    ∃ t, s.hookStep i anything = some t ∧ t.Inv K n addr := by
  unfold hookStep
  rw [hPc]
  exact ⟨_, rfl, h.goOn hPc rfl rfl rfl rfl rfl⟩

theorem hook_stage
    {userStage : Nat} {waits : Bool}
    (h : s.Inv K n addr) (hK : 2 ≤ K)
    (hPc : s.pc i = .stage userStage waits)
    (anything : StageFrame) :
    ∃ t, s.hookStep i anything = some t ∧ t.Inv K n addr := by
  have hPhase := phase_eq hPc
  rcases h.own hK (by rw [hPhase]; rfl) (by rw [hPhase]; rfl)
    with ⟨-, l, hLookup, -, hList⟩
  have hNe := (h.frames i).mp (by rw [hPhase]; rfl)
  have hKeeps := hList.keeps
  rw [hPc] at hKeeps
  have hParent :=
    SharedList.Keeps.get_last hKeeps hNe anything
  unfold hookStep
  rw [hPc]
  dsimp only
  rw [hLookup]
  dsimp only
  rw [hParent]
  dsimp only
  split
  · rename_i hWaits
    exact ⟨_, rfl, h.goOn hPc rfl rfl rfl rfl
      ⟨rfl, hWaits.2⟩⟩
  · exact ⟨_, rfl, h.goOn hPc rfl rfl rfl rfl rfl⟩

theorem hook_create
    {e : StageEntry}
    (h : s.Inv K n addr)
    (hPc : s.pc i = .create e) (anything : StageFrame) :
    ∃ t, s.hookStep i anything = some t ∧ t.Inv K n addr := by
  have hOwn := h.hooks i
  rw [hPc] at hOwn
  unfold hookStep
  rw [hPc]
  exact ⟨_, rfl, h.goOn_keeps hPc rfl rfl
    (fun _ _ hKeeps => hKeeps.append) rfl
    ⟨hOwn, rfl⟩⟩

/- A step of `append`, in one or the other hook. -/
theorem hook_append
    {list : Nat} {sf : StageFrame} {pc : SharedList.AppendPc}
    (h : s.Inv K n addr) (hK : 2 ≤ K)
    (hPc : s.pc i = .append list sf pc)
    (anything : StageFrame) :
    ∃ t, s.hookStep i anything = some t ∧ t.Inv K n addr := by
  have hRead := h.hooks i
  rw [hPc] at hRead
  rcases hRead with ⟨rfl, hNum⟩
  have hPhase := phase_eq hPc
  have hNe := (h.frames i).mp (by rw [hPhase]; rfl)
  rcases h.own hK (by rw [hPhase]; rfl) (by rw [hPhase]; rfl)
    with ⟨-, l, -, hGet, hList⟩
  have hKeeps := hList.keeps
  rw [hPc] at hKeeps
  rcases SharedList.Keeps.appendStep hKeeps sf with
    ⟨l', pc', hStep, hKeeps', hLe, hIndex, -⟩
  have hCursor := hIndex.trans hList.index
  unfold hookStep
  rw [hPc]
  dsimp only
  rw [hGet]
  dsimp only
  rw [hStep]
  cases pc' with
  | some pc' =>
      refine ⟨_, rfl, h.setList hPc rfl rfl rfl
        (fun _ => rfl) rfl rfl rfl
        (fun _ _ => rfl) hGet hLe ?_ (h.kept.numbers i)
        ⟨rfl, hNum⟩ ?_⟩
      · constructor
        · change SharedList.Keeps _ _
            (Function.update s.pc i _ i).appending
          rw [Function.update_self]
          exact hKeeps'
        · exact hCursor
      · exact ⟨fun _ => hNe, fun _ => rfl⟩
  | none =>
      have hFrames :
          (s.piper.append i sf).iterations i =
            { s.piper.iterations i with
              frames :=
                (s.piper.iterations i).frames ++ [sf] } :=
        Function.update_self ..
      refine ⟨_, rfl, h.setList hPc rfl rfl rfl
        (fun _ => rfl) rfl rfl rfl
        (fun k hk => Function.update_of_ne hk ..) hGet hLe ?_
        ?_ True.intro ?_⟩
      · constructor
        · change SharedList.Keeps _
            ((s.piper.append i sf).iterations i).frames
            (Function.update s.pc i _ i).appending
          rw [hFrames, Function.update_self]
          exact hKeeps'
        · change _ =
            ((s.piper.append i sf).iterations i).index
          rw [hFrames]
          exact hCursor
      · change ∀ f ∈
          ((s.piper.append i sf).iterations i).frames, _
        rw [hFrames]
        intro f hf
        rcases List.mem_append.mp hf with hOld | hNew
        · exact h.kept.numbers i f hOld
        · rw [List.mem_singleton.mp hNew]
          exact hNum
      · change _ ↔
          ((s.piper.append i sf).iterations i).frames ≠ []
        rw [hFrames]
        exact ⟨fun _ => List.append_ne_nil_of_right_ne_nil _
          (List.cons_ne_nil _ _), fun _ => rfl⟩

theorem hook_appendFirst
    {list : Nat} {sf : StageFrame} {pc : SharedList.AppendPc}
    (h : s.Inv K n addr) (hK : 2 ≤ K)
    (hPc : s.pc i = .appendFirst list sf pc)
    (anything : StageFrame) :
    ∃ t, s.hookStep i anything = some t ∧ t.Inv K n addr := by
  have hRead := h.hooks i
  rw [hPc] at hRead
  rcases hRead with ⟨rfl, hNum⟩
  have hPhase := phase_eq hPc
  have hNil : (s.piper.iterations i).frames = [] := by
    by_contra hNe
    have hEntered := (h.frames i).mpr hNe
    rw [hPhase] at hEntered
    cases hEntered
  rcases h.own hK (by rw [hPhase]; rfl) (by rw [hPhase]; rfl)
    with ⟨-, l, -, hGet, hList⟩
  have hKeeps := hList.keeps
  rw [hPc] at hKeeps
  rcases SharedList.Keeps.appendStep hKeeps sf with
    ⟨l', pc', hStep, hKeeps', hLe, hIndex, -⟩
  unfold hookStep
  rw [hPc]
  dsimp only
  rw [hGet]
  dsimp only
  rw [hStep]
  cases pc' with
  | some pc' =>
      refine ⟨_, rfl, h.setList hPc rfl rfl rfl
        (by intro hEntered; cases hEntered) rfl rfl rfl
        (fun _ _ => rfl) hGet hLe ?_ (h.kept.numbers i)
        ⟨rfl, hNum⟩ ?_⟩
      · constructor
        · change SharedList.Keeps _ _
            (Function.update s.pc i _ i).appending
          rw [Function.update_self]
          exact hKeeps'
        · exact hIndex.trans hList.index
      · constructor
        · intro hEntered
          cases hEntered
        · exact fun hNe => absurd hNil hNe
  | none =>
      have hFrames :
          (s.piper.insertStageFrameList i sf).iterations i =
            { frames := [sf], index := 1 } :=
        Function.update_self ..
      refine ⟨_, rfl, h.setList hPc rfl rfl rfl
        (fun _ => rfl) rfl rfl rfl
        (fun k hk => Function.update_of_ne hk ..) hGet hLe ?_
        ?_ True.intro ?_⟩
      · constructor
        · change SharedList.Keeps _
            ((s.piper.insertStageFrameList i
              sf).iterations i).frames
            (Function.update s.pc i _ i).appending
          rw [hFrames, Function.update_self]
          rw [hNil] at hKeeps'
          exact hKeeps'.setIndex 1
        · change _ = ((s.piper.insertStageFrameList i
            sf).iterations i).index
          rw [hFrames]
      · change ∀ f ∈ ((s.piper.insertStageFrameList i
          sf).iterations i).frames, _
        rw [hFrames]
        intro f hf
        rw [List.mem_singleton.mp hf]
        exact hNum
      · change _ ↔ ((s.piper.insertStageFrameList i
          sf).iterations i).frames ≠ []
        rw [hFrames]
        exact ⟨fun _ => List.cons_ne_nil _ _, fun _ => rfl⟩

------------------------------------------------------------
-- New Lists
------------------------------------------------------------

theorem hook_insertList
    {sf : StageFrame}
    (h : s.Inv K n addr) (hK : 2 ≤ K)
    (hPc : s.pc i = .insertList sf) (anything : StageFrame) :
    ∃ t, s.hookStep i anything = some t ∧ t.Inv K n addr := by
  have hPhase := phase_eq hPc
  have hNum := h.hooks i
  rw [hPc] at hNum
  obtain rfl :=
    (h.phases.starting i (by rw [hPhase]; rfl)).1
  rcases h.kept.insertList (by rw [h.limit]; omega)
    (by rw [hPhase]; exact IterationPhase.noConfusion) sf with
    ⟨u, hRun, hPiper, hPcs, hLimit, hGrows, hKept⟩
  unfold hookStep
  rw [hPc]
  dsimp only
  rw [hRun]
  refine ⟨_, rfl, ?_⟩
  have hNew :
      (u.setPc (n + 1)
          (.newList (s.ring.getIndex (n + 1)) sf)).pc =
        Function.update s.pc (n + 1)
          (.newList (s.ring.getIndex (n + 1)) sf) := by
    rw [← hPcs]
    rfl
  apply h.move (by rw [hPhase]; rfl) hNew
  · rw [hPhase]
    rfl
  · rw [hPhase]
    rfl
  · rw [hPhase]
    intro hEntered
    cases hEntered
  · exact hLimit
  · exact hKept
  · intro k _
    change u.piper.iterations k = _
    rw [hPiper]
  · exact hGrows
  · refine ⟨?_, hNum⟩
    unfold Iterations.getIndex
    change _ = if (n + 1) % (u.ring.throttleLimit + 1) = 0
      then u.ring.throttleLimit
      else (n + 1) % (u.ring.throttleLimit + 1) - 1
    rw [hLimit]
  · change _ ↔ (u.piper.iterations (n + 1)).frames ≠ []
    rw [hPiper, ← h.frames (n + 1), hPhase]
    rfl

theorem hook_newList
    {index : Nat} {sf : StageFrame}
    (h : s.Inv K n addr)
    (hPc : s.pc i = .newList index sf)
    (anything : StageFrame) :
    ∃ t, s.hookStep i anything = some t ∧
      t.Inv K (n + 1)
        (Function.update addr n s.lists.next) := by
  have hPhase := phase_eq hPc
  have hRead := h.hooks i
  rw [hPc] at hRead
  rcases hRead with ⟨rfl, hNum⟩
  have hStarting : (s.phase i).isStarting = true := by
    rw [hPhase]
    rfl
  obtain rfl := (h.phases.starting i hStarting).1
  have hAlone : s.phase (n + 1 + 1) ≠ .storing := by
    intro hNext
    have := (h.phases.starting (n + 1 + 1)
      (by rw [hNext]; rfl)).1
    omega
  have hKept := h.kept.newList hPhase hAlone sf
  unfold hookStep
  rw [hPc]
  refine ⟨_, rfl, ?_⟩
  generalize ht :
    (s.newList (s.ring.getIndex (n + 1)) (n + 1)).setPc
      (n + 1) (.appendFirst s.lists.next sf .room) = t
    at hKept
  have hNew : t.pc = Function.update s.pc (n + 1)
      (.appendFirst s.lists.next sf .room) := by
    rw [← ht]
    rfl
  have hPiper : t.piper = s.piper := by
    rw [← ht]
    rfl
  have hLimit :
      t.ring.throttleLimit = s.ring.throttleLimit := by
    rw [← ht]
    rfl
  have hLists : t.lists = s.lists.alloc .new := by
    rw [← ht]
    rfl
  constructor
  · exact hLimit.trans h.limit
  · rw [phase_of_pc hNew]
    exact h.phases.insert hStarting
  · exact hKept
  · intro k
    by_cases hk : k = n + 1
    · subst hk
      rw [hNew, Function.update_self]
      have hAddr :
          Function.update addr n s.lists.next (n + 1 - 1) =
            s.lists.next :=
        Function.update_self ..
      exact ⟨hAddr.symm, hNum⟩
    · rw [hNew, Function.update_of_ne hk]
      by_cases hLive : (s.phase k).isLive = true
      · have hPos := h.phases.one_le hLive
        have hLast := h.phases.le_succ hLive
        apply (h.hooks k).of_others hLimit
        · intro _
          exact Function.update_of_ne (by omega) ..
        · intro _
          exact Function.update_of_ne (by omega) ..
        · intro hLater m hHas l hGet
          rw [Function.update_of_ne (by omega), hLists,
            Heap.get_alloc_of_ne _
              (h.kept.fresh _ (by omega)).ne] at hGet
          exact hHas l hGet
      · unfold RingState.phase at hLive
        revert hLive
        cases s.pc k <;> intro hLive <;> first
          | exact True.intro
          | exact absurd rfl hLive
  · intro k
    rw [phase_of_pc hNew, hPiper]
    by_cases hk : k = n + 1
    · rw [hk, Function.update_self,
        h.kept.empty (n + 1) (Nat.lt_succ_self n)]
      constructor
      · intro hEntered
        cases hEntered
      · intro hNe
        exact absurd rfl hNe
    · rw [Function.update_of_ne hk]
      exact h.frames k

------------------------------------------------------------
-- Every Step
------------------------------------------------------------

/- No hook gets stuck, and every step keeps the invariant. -/
theorem hookStep
    (h : s.Inv K n addr) (hK : 2 ≤ K)
    (hHook : (s.pc i).inHook = true) (anything : StageFrame) :
    ∃ t, s.hookStep i anything = some t ∧
      ∃ n' addr', t.Inv K n' addr' := by
  have hSame :
      (∃ t, s.hookStep i anything = some t ∧
        t.Inv K n addr) →
      ∃ t, s.hookStep i anything = some t ∧
        ∃ n' addr', t.Inv K n' addr' := by
    intro ⟨t, hRun, hInv⟩
    exact ⟨t, hRun, n, addr, hInv⟩
  cases hPc : s.pc i with
  | stageFirst => exact hSame (h.hook_stageFirst hK hPc _)
  | firstSibling pre get =>
      exact hSame (h.hook_firstSibling hK hPc _)
  | createFirst right down =>
      exact hSame (h.hook_createFirst hPc _)
  | insertList sf => exact hSame (h.hook_insertList hK hPc _)
  | newList index sf =>
      rcases h.hook_newList hPc anything with ⟨t, hRun, hInv⟩
      exact ⟨t, hRun, n + 1, _, hInv⟩
  | appendFirst list sf pc =>
      exact hSame (h.hook_appendFirst hK hPc _)
  | stage userStage waits =>
      exact hSame (h.hook_stage hK hPc _)
  | leftDependency e =>
      exact hSame (h.hook_leftDependency hK hPc _)
  | leftLength e cur pre =>
      exact hSame (h.hook_leftLength hK hPc _)
  | leftLoop x => exact hSame (h.hook_leftLoop hK hPc _)
  | leftTest x test get =>
      exact hSame (h.hook_leftTest hK hPc _)
  | leftEnd x ret => exact hSame (h.hook_leftEnd hK hPc _)
  | leftSibling e leftIndex =>
      exact hSame (h.hook_leftSibling hK hPc _)
  | sibling e leftIndex pre get =>
      exact hSame (h.hook_sibling hK hPc _)
  | create e => exact hSame (h.hook_create hPc _)
  | append list sf pc =>
      exact hSame (h.hook_append hK hPc _)
  | notStarted | running | finished =>
      rw [hPc] at hHook
      cases hHook

theorem start
    (h : s.Inv K n addr)
    (hStart : s.MayStart i) :
    (s.setPc i .stageFirst).Inv K n addr := by
  rcases hStart with ⟨hPos, hPc, hBefore, hOwn, hRight⟩
  have hPhase : s.phase i = .notStarted := phase_eq hPc
  have hNew : (s.setPc i .stageFirst).pc =
      Function.update s.pc i .stageFirst := rfl
  rw [h.limit] at hOwn hRight
  constructor
  · exact h.limit
  · rw [phase_of_pc hNew]
    exact h.phases.start hPos hPhase hBefore
      (fun hFar => phase_eq (hOwn hFar))
      (fun hFar => phase_eq (hRight hFar))
  · exact h.kept.setPc hPc IterationPhase.noConfusion
      IterationPhase.noConfusion rfl
  · intro k
    by_cases hk : k = i
    · rw [hk, hNew, Function.update_self]
      exact True.intro
    · rw [hNew, Function.update_of_ne hk]
      exact (h.hooks k).of_others rfl (fun _ => rfl)
        (fun _ => rfl) (fun _ _ => id)
  · intro k
    rw [phase_of_pc hNew]
    by_cases hk : k = i
    · rw [hk, Function.update_self]
      have hOld := h.frames i
      rw [hPhase] at hOld
      exact hOld
    · rw [Function.update_of_ne hk]
      exact h.frames k

/- An iteration enters its next stage. -/
theorem enter
    {userStage : Nat} {waits : Bool}
    (h : s.Inv K n addr)
    (hPc : s.pc i = .running) :
    (s.setPc i (.stage userStage waits)).Inv K n addr :=
  h.goOn hPc rfl rfl rfl rfl True.intro

theorem finish
    (h : s.Inv K n addr)
    (hPc : s.pc i = .running) :
    (s.setPc i .finished).Inv K n addr := by
  have hPhase : s.phase i = .entered := phase_eq hPc
  have hNew : (s.setPc i .finished).pc =
      Function.update s.pc i .finished := rfl
  apply h.move (by rw [hPhase]; rfl) hNew
  · rw [hPhase]
    rfl
  · rw [hPhase]
    rfl
  · exact fun _ => rfl
  · rfl
  · exact h.kept.setPc hPc IterationPhase.noConfusion
      IterationPhase.noConfusion rfl
  · exact fun _ _ => rfl
  · exact grows_of_eq rfl
  · exact True.intro
  · have hOld := h.frames i
    rw [hPhase] at hOld
    exact hOld

end Inv

theorem inHook_of_hookStep
    {anything : StageFrame}
    (hStep : s.hookStep i anything = some t) :
    (s.pc i).inHook = true := by
  cases hPc : s.pc i with
  | notStarted | running | finished =>
      unfold hookStep at hStep
      rw [hPc] at hStep
      cases hStep
  | _ => rfl

theorem exists_inv_of_reachable
    (hK : 2 ≤ K)
    (hReach : (ringSystem K).Reachable s) :
    ∃ n addr, s.Inv K n addr := by
  apply hReach.invariant (P := fun s => ∃ n addr,
    s.Inv K n addr)
  · intro s hInit
    rw [show s = .init K from hInit]
    exact ⟨0, fun _ => 0, inv_init K _⟩
  · intro s a t ⟨n, addr, h⟩ hStep
    cases a with
    | start i =>
        rcases hStep with ⟨hStart, rfl⟩
        exact ⟨n, addr, h.start hStart⟩
    | enter i userStage waits =>
        rcases hStep with ⟨hPc, rfl⟩
        exact ⟨n, addr, h.enter hPc⟩
    | finish i =>
        rcases hStep with ⟨hPc, rfl⟩
        exact ⟨n, addr, h.finish hPc⟩
    | hook i anything =>
        change s.hookStep i anything = some t at hStep
        rcases h.hookStep hK (inHook_of_hookStep hStep)
          anything with ⟨t', hRun, hInv⟩
        obtain rfl := Option.some.inj (hStep.symm.trans hRun)
        exact hInv

end RingState

end PRacer
