import PRacer.WorkStealing.Calls

/-
  The insertions of a spawn, one at a time.  The path of the
  spawn gets its branches before other workers can see it.

  Main declarations:
    * `Simulates.expand`, `Simulates.grows_expand`
    * `Simulates.grows_insert`, `Simulates.inserted`
    * `Simulates.startDetach`, `Simulates.detach_insert`
    * `Simulates.detach_last`
-/

------------------------------------------------------------
-- Branches
------------------------------------------------------------

namespace PRacer

open Foundations

namespace WorkStealing

namespace Simulates

variable {Worker : Type}
variable {main : Code} {L : Layout} {t : Tasks}
variable {s : State Worker} {a : Nat} {w : Worker}

/- The path of a spawn gets branches. -/
def expand (L : Layout) (p : Path) : Layout :=
  { L with expanded := fun q => L.expanded q ∨ q = p }

theorem room_expand
    {o : ShadowStack} {p : Path} {e k : List Nat}
    (hFits : L.Fits o)
    (hOpen : L.Open p) :
    (expand L p).Room o p e k := by
  refine ⟨Only.of_leaf hFits.english ?_,
    Only.of_leaf hFits.hebrew ?_, Or.inr rfl, ?_⟩
  · rintro ⟨q, hq, hEq⟩
    obtain rfl := Path.english_injective hEq
    exact hOpen q (List.prefix_refl _) hq
  · rintro ⟨q, hq, hEq⟩
    obtain rfl := Path.hebrew_injective hEq
    exact hOpen q (List.prefix_refl _) hq
  · rintro q hPrefix (hq | hq)
    · exact absurd hq (hOpen q hPrefix)
    · exact hq

theorem open_expand
    {p q : Path}
    (hOpen : L.Open q)
    (hNot : ¬ q <+: p) :
    (expand L p).Open q := by
  rintro r hPrefix (hr | rfl)
  · exact hOpen r hPrefix hr
  · exact hNot hPrefix

/- The worker of a spawn. -/
theorem spawning_of
    (h : Simulates main L t s)
    {pc : DetachPc}
    (hPc : (s.workers w).pc = .detaching a pc) :
    ∃ act x, s.acts.get a = some act ∧
      act.control = .detaching w ∧ Good t a act x ∧
      t.get a = some x ∧ x.status = .spawning ∧ x.Runs := by
  rcases h.held_by (w := w) (a := a) (k := .detaching w)
    (by rw [hPc]; rfl) with
    ⟨act, x, hAct, hControl, hGet, hGood⟩
  have hStatus : x.status = .spawning := by
    rw [← hGood.status, hControl]
    rfl
  refine ⟨act, x, hAct, hControl, hGood, hGet, hStatus, ?_,
    Or.inr hStatus⟩
  intro hGone
  rcases hGood.gone.mp hGone with ⟨v, hv⟩
  rw [hControl] at hv
  cases hv

theorem grows_expand
    (h : Simulates main L t s)
    {s' : State Worker} {act : Activation Worker} {x : Task}
    (hOrders : s'.orders = s.orders)
    (hAct : s.acts.get a = some act)
    (hControl : act.control = .running w)
    (hGet : t.get a = some x)
    (hRuns : x.Runs) :
    Grows L t s (expand L x.path) s' (· = w) a a where
  fits := by
    rw [hOrders]
    refine ⟨h.fits.english.mono ?_, h.fits.hebrew.mono ?_⟩
    · rintro q ⟨p, hp, hq⟩
      exact ⟨p, Or.inl hp, hq⟩
    · rintro q ⟨p, hp, hq⟩
      exact ⟨p, Or.inl hp, hq⟩
  english := by
    rw [hOrders]
    exact fun _ _ h => h
  hebrew := by
    rw [hOrders]
    exact fun _ _ h => h
  room := by
    intro v b y pc _ hPc hy hRoom
    rcases h.spawning_of hPc with
      ⟨u, z, hu, hControl', -, hz, -, hRunsZ⟩
    obtain rfl := Option.some.inj (hy.symm.trans hz)
    have hba : b ≠ a := by
      rintro rfl
      obtain rfl := Option.some.inj (hAct.symm.trans hu)
      rw [hControl] at hControl'
      cases hControl'
    have hRelated := h.sound.apart _ _ (.run hy hRunsZ)
      (.run hGet hRuns)
      (fun hEq => hba (congrArg Tip.owner hEq))
    rw [hOrders]
    refine ⟨hRoom.english, hRoom.hebrew,
      Or.inl hRoom.expanded, ?_⟩
    rintro q hPrefix (hq | rfl)
    · exact hRoom.below q hPrefix hq
    · exact absurd hPrefix hRelated.not_prefix
  opens := by
    intro b y hba _ hy hOpens
    refine ⟨fun q hq => open_expand (hOpens.1 q hq) ?_,
      fun hRunsY hReady =>
        open_expand (hOpens.2 hRunsY hReady) ?_⟩
    · have hRelated := h.sound.apart _ _ (.sync hy hq)
        (.run hGet hRuns)
        (fun hEq => hba (congrArg Tip.owner hEq))
      exact hRelated.not_prefix
    · have hRelated := h.sound.apart _ _ (.run hy hRunsY)
        (.run hGet hRuns)
        (fun hEq => hba (congrArg Tip.owner hEq))
      exact hRelated.not_prefix

------------------------------------------------------------
-- Insertions
------------------------------------------------------------

/- What an insertion leaves behind. -/
structure Wrote
    (s s' : State Worker) (w : Worker) (x : WorkerState) :
    Prop where
  acts : s'.acts = s.acts
  self : s'.workers w = x
  other : ∀ u, u ≠ w → s'.workers u = s.workers u
  strands : s'.strands = s.strands

theorem grows_insert
    (h : Simulates main L t s)
    {L' : Layout} {s' : State Worker} {x : Task}
    {pc : DetachPc} (i j : Nat)
    (hPc : (s.workers w).pc = .detaching a pc)
    (hGet : t.get a = some x)
    (hInserted : L.Inserted s.orders L' s'.orders x.path) :
    Grows L t s L' s' (· = w) i j where
  fits := hInserted.fits
  english := hInserted.english
  hebrew := hInserted.hebrew
  room := by
    intro v b y pc' hv hPc' hy hRoom
    rcases h.spawning_of hPc with
      ⟨act, z, hAct, hControl, -, hz, -, hRuns⟩
    obtain rfl := Option.some.inj (hGet.symm.trans hz)
    rcases h.spawning_of hPc' with
      ⟨act', z', hAct', hControl', -, hz', -, hRuns'⟩
    obtain rfl := Option.some.inj (hy.symm.trans hz')
    have hba : b ≠ a := by
      rintro rfl
      obtain rfl := Option.some.inj (hAct.symm.trans hAct')
      rw [hControl] at hControl'
      exact hv (by cases hControl'; rfl)
    have hRelated := h.sound.apart _ _ (.run hy hRuns')
      (.run hGet hRuns)
      (fun hEq => hba (congrArg Tip.owner hEq))
    exact hInserted.room _ _ _ hRelated.not_prefix
      hRelated.symm.not_prefix hRoom
  opens := by
    intro b y _ _ _ hOpens
    unfold Task.Opens Layout.Open at *
    rw [hInserted.expanded]
    exact hOpens

/- An insertion that is not the last one. -/
theorem inserted
    (h : Simulates main L t s)
    {L' : Layout} {s' : State Worker} {x : Task}
    {pc pc' : DetachPc} {child f : FrameData}
    {fs : List FrameData}
    (child' f' : FrameData)
    (hPc : (s.workers w).pc = .detaching a pc)
    (hDetaching : (s.see L t).Detaching w (s.workers w) a pc x
      child f fs)
    (hWrote : Wrote s s' w
      { s.workers w with
        frames := child' :: f' :: fs
        pc := .detaching a pc' })
    (hInserted : L.Inserted s.orders L' s'.orders x.path)
    (hChild : child'.helper = true)
    (hParent : f'.helper = false)
    (hEnglish : f'.currentEnglish = f.currentEnglish)
    (hHebrew : f'.currentHebrew = f.currentHebrew)
    (hStage : (s'.see L' t).Stage x child' f' pc')
    (hRoom : L'.Room s'.orders x.path pc'.inEnglish
      pc'.inHebrew) :
    Simulates main L' t s' := by
  rcases h.spawning_of hPc with
    ⟨act, u, hAct, hControl, hGood, hu, -, -⟩
  have hGet : t.get a = some x := hDetaching.get
  obtain rfl := Option.some.inj (hu.symm.trans hGet)
  have hActs : ∀ b, s'.acts.get b =
      if b = a then some act else s.acts.get b := by
    intro b
    rw [hWrote.acts]
    split
    · next hb => rw [hb, hAct]
    · rfl
  have hTasks : ∀ b, t.get b =
      if b = a then some u else t.get b := by
    intro b
    split
    · next hb => rw [hb, hu]
    · rfl
  have hHolder : act.control.holder = some w := by
    rw [hControl]
    rfl
  have hTouches := touches_own (L := L) L' (M := (· = w)) hAct
    hHolder rfl hActs hTasks
    (fun v hv => (Control.of_holder hHolder).1 v hv)
    (Control.of_holder hHolder).2.1
  have hGrows := h.grows_insert a a hPc hu hInserted
  have hCarried := Tasks.Carried.refl h.sound.tree
  have hKeeps := keeps_at hTouches hInserted.english
    hInserted.hebrew hCarried hAct hHolder (Or.inl rfl) w
  have hAct' : s'.acts.get a = some act := by
    rw [hWrote.acts, hAct]
  have hOpens : u.Opens L' := by
    have hOld := h.opens a u hu
    unfold Task.Opens Layout.Open at *
    rw [hInserted.expanded]
    exact hOld
  refine h.move (h.moves_own hTouches ?_ h.reach hCarried hActs
    (by rw [hWrote.acts]) hTasks rfl (fun _ _ => Iff.rfl)
    hGood hWrote.other ?_ ?_ ?_ hOpens ?_) hGrows
  · rintro v b k rfl hHolds
    rw [hPc] at hHolds
    cases hHolds
    rfl
  · intro v hv
    rw [hControl] at hv ⊢
    cases hv
    rw [hWrote.self]
    rfl
  · rintro v b k rfl hHolds
    rw [hWrote.self] at hHolds
    cases hHolds
    exact ⟨rfl, hControl.symm⟩
  · rintro v rfl
    rw [hWrote.self]
    refine ⟨u, child', f', fs, hu, rfl, hChild, hParent, ?_,
      hStage, hRoom, ?_⟩
    · rw [hEnglish, hHebrew]
      exact hDetaching.current.mono hKeeps.toCopies.nodes
    · exact hDetaching.own.carry hKeeps
        ⟨by simp [State.see, hu], act, act, hAct, hAct', id⟩
  · exact ⟨[], by simp [hWrote.strands], by simp, by simp⟩

------------------------------------------------------------
-- The Steps of a Spawn
------------------------------------------------------------

variable [DecidableEq Worker]

/- The strand before a spawn, and the new helper frame. -/
theorem startDetach
    (h : Simulates main L t s)
    (hPc : (s.workers w).pc = .running a)
    {act : Activation Worker}
    (hAct : s.acts.get a = some act)
    {body rest : Code}
    (hRest : act.rest = .code (.spawn body rest)) :
    ∃ s' L' t', s.startDetach w a act = some s' ∧
      Simulates main L' t' s' := by
  rcases h.running hPc with
    ⟨u, x, f, fs, hu, hControl, hGood, hReady, hGone, hRunning⟩
  obtain rfl := Option.some.inj (hAct.symm.trans hu)
  clear hu
  rcases h.strand_of hGood hReady hGone hRunning with
    ⟨new, hStrand, hLeaf, hNew⟩
  have hGet : t.get a = some x := hRunning.get
  have hRestX : x.rest = .code (.spawn body rest) :=
    hGood.rest ▸ hRest
  have hRuns := Task.runs_of_ready hReady hGone
  have hOpensX := h.opens a x hGet
  have hHelper : f.helper = false := by
    rw [hRunning.frame.helper, hRestX]
    rfl
  -- The new state.
  obtain ⟨pc, s', hEq, hAfter, hFirst⟩ :
      ∃ pc s', s.startDetach w a act = some s' ∧
        After s s' w
          { s.workers w with
            frames := blankHelper :: f :: fs
            pc := .detaching a pc }
          (s.acts.modify a fun r =>
            { r with
              leaf := act.leaf + 1
              control := .detaching w })
          (s.strands ++ [new]) ∧
        ((pc = .syncEnglish ∧ x.pending = none) ∨
          pc = .childEnglish ∧ x.pending ≠ none) := by
    have hSync := hRunning.frame.sync
    unfold State.startDetach
    rw [hStrand, Option.bind_some]
    cases hPending : x.pending with
    | none =>
        rw [hPending] at hSync
        rcases hSync.none with ⟨hE, hK⟩
        refine ⟨.syncEnglish, ?_⟩
        simp only [hRunning.frames, hHelper, hE, hK,
          Bool.false_eq_true, if_false]
        refine ⟨_, rfl, ⟨rfl, rfl, ?_, ?_, rfl⟩, by simp⟩
        · simp [State.setWorker]
        · intro u hu
          simp [State.setWorker, State.modify, hu]
    | some q =>
        rw [hPending] at hSync
        rcases hSync.some with ⟨e, k, hE, hK, -⟩
        refine ⟨.childEnglish, ?_⟩
        simp only [hRunning.frames, hHelper, hE, hK,
          Bool.false_eq_true, if_false]
        refine ⟨_, rfl, ⟨rfl, rfl, ?_, ?_, rfl⟩, by simp⟩
        · simp [State.setWorker]
        · intro u hu
          simp [State.setWorker, State.modify, hu]
  have hActs : ∀ b, s'.acts.get b =
      if b = a then some
        ({ act with
          leaf := act.leaf + 1
          control := .detaching w } : Activation Worker)
      else s.acts.get b := by
    intro b
    rw [hAfter.acts, get_change_act hAct]
  obtain ⟨t', hStep, hTasks, hHelpers, hNextT, hLog⟩ :
      ∃ t' : Tasks, t.Step t' ∧
        (∀ b, t'.get b =
          if b = a then some x.spawner else t.get b) ∧
        (∀ b c, t'.HelperOf c b ↔ t.HelperOf c b) ∧
        t'.heap.next = t.heap.next ∧
        t'.log = t.log ++ [x.leaf] := by
    refine ⟨_, Tasks.Step.startSpawn hGet hReady hRestX,
      Tasks.get_change hGet, ?_, rfl, rfl⟩
    intro b c
    exact Tasks.helperOf_change x.spawner hGet rfl rfl
  have hCarried := hStep.carried h.sound.tree
  have hHolder : act.control.holder = some w := by
    rw [hControl]
    rfl
  have hGood' : Good t' a
      ({ act with
        leaf := act.leaf + 1
        control := .detaching w } : Activation Worker)
      x.spawner := by
    have hCounter := hGood.counter
    have hChildren := hGood.children
    rw [hControl] at hCounter hChildren
    exact
      { rest := hGood.rest
        leaf := by simp [Task.spawner, hGood.leaf]
        parent := hGood.parent
        status := rfl
        gone := by simp [Task.spawner, hGone]
        counter := hCounter
        nodup := hGood.nodup
        children := fun c => by
          rw [hHelpers, hChildren c]
          simp
        spawned := fun _ _ hEq => by cases hEq
        stolen := hGood.stolen
        suspended := fun hEq => by cases hEq
        waiting := fun hEq => by cases hEq
        unsynched := hGood.unsynched }
  have hTouches := touches_own (L := L) (expand L x.path)
    (M := (· = w)) hAct hHolder rfl hActs hTasks
    (fun v hv => (Option.some.inj hv).symm) (by simp)
  have hGrows := h.grows_expand hAfter.orders hAct hControl
    hGet hRuns
  have hKeeps := keeps_at hTouches hGrows.english
    hGrows.hebrew hCarried hAct hHolder (Or.inl rfl) w
  have hActA := hActs a
  rw [if_pos rfl] at hActA
  have hTaskA := hTasks a
  rw [if_pos rfl] at hTaskA
  have hFrame := hRunning.frame.keep hKeeps.toCopies
  refine ⟨s', expand L x.path, t', hEq, h.move (h.moves_own
    hTouches ?_ (hStep.reachable h.reach) hCarried hActs
    (by rw [hAfter.acts, Heap.next_modify]) hTasks hNextT
    hHelpers hGood' hAfter.other ?_ ?_ ?_ ?_ ?_) hGrows⟩
  · rintro v b k rfl hHolds
    rw [hPc] at hHolds
    cases hHolds
    rfl
  · intro v hv
    cases hv
    rw [hAfter.self]
    rfl
  · rintro v b k rfl hHolds
    rw [hAfter.self] at hHolds
    cases hHolds
    exact ⟨rfl, rfl⟩
  · rintro v rfl
    rw [hAfter.self]
    have hOpen := hOpensX.2 hRuns hReady
    refine ⟨_, blankHelper, f, fs, hTaskA, rfl, rfl, hHelper,
      hFrame.current, ?_, ?_, ?_⟩
    · rcases hFirst with ⟨rfl, hNone⟩ | ⟨rfl, hSome⟩
      · exact .syncEnglish hNone
      · rcases Option.ne_none_iff_exists'.mp hSome with ⟨q, hq⟩
        have hSync := hFrame.sync
        have hPath : x.spawner.syncPath = q := by
          simp [Task.syncPath, Task.spawner, hq]
        rw [hq, ← hPath] at hSync
        exact .childEnglish hSync
    · show (expand L x.path).Room s'.orders x.path _ _
      rw [hAfter.orders]
      exact room_expand h.fits hOpen
    · exact hRunning.own.carry hKeeps
        ⟨by simp [State.see, hTaskA], act, _, hAct, hActA, id⟩
  · refine ⟨fun q hq => open_expand (hOpensX.1 q hq) ?_,
      fun _ h => by cases h⟩
    have hRelated := h.sound.apart _ _ (.sync hGet hq)
      (.run hGet hRuns) (by simp)
    exact hRelated.not_prefix
  · refine ⟨[new], hAfter.strands, by rw [hLog]; simp [hLeaf],
      ?_⟩
    intro y hy
    rw [List.mem_singleton.mp hy]
    rcases hNew with ⟨p, hPath, hAt⟩
    refine ⟨p, hPath, ?_⟩
    rw [hAfter.orders]
    exact ⟨hAt.mem_english, hAt.mem_hebrew, hAt.english,
      hAt.hebrew⟩

/- The insertions of a spawn, but for the last one. -/
theorem detach_insert
    (h : Simulates main L t s)
    {pc : DetachPc}
    (hPc : (s.workers w).pc = .detaching a pc)
    (hNotLast : pc ≠ .childHebrew)
    (act : Activation Worker) :
    ∃ s' L', s.detach w a act pc = some s' ∧
      Simulates main L' t s' := by
  have hStack := h.shadows w
  unfold View.Stack at hStack
  rw [hPc] at hStack
  rcases hStack with ⟨x, child, f, fs, hDetaching⟩
  have hFrames := hDetaching.frames
  have hRoom := hDetaching.room
  have hStage := hDetaching.stage
  rcases hDetaching.current.some with ⟨e, k, hE, hK, hAt⟩
  have hBaseE := hAt.halves.1
  have hBaseK := hAt.halves.2
  have hFits := h.fits
  unfold State.detach
  dsimp only
  rw [hFrames]
  cases hStage with
  | syncEnglish hFirst =>
      rcases Layout.insert_english hFits hRoom .sync hBaseE.1
        (Or.inl hBaseE.2) (by simp [DetachPc.inEnglish]) with
        ⟨L', hInserted, hNew, hRoom'⟩
      simp only [hE, Option.map_some]
      refine ⟨_, L', rfl, h.inserted child
        { f with syncEnglish := some s.english.next } hPc hDetaching
        ⟨rfl, ?_, ?_, rfl⟩ hInserted hDetaching.isChild
        hDetaching.isParent rfl rfl
        (.syncHebrew hFirst rfl ?_) hRoom'⟩
      · simp [State.setWorker, hE, hK]
      · intro u hu
        simp [State.setWorker, hu]
      · have hPath : x.syncPath = x.path ++ [.sync] := by
          simp [Task.syncPath, hFirst]
        rw [hPath]
        exact hNew
  | syncHebrew hFirst hSync hSyncAt =>
      rcases Layout.insert_hebrew hFits hRoom .sync hBaseK.1
        (Or.inl hBaseK.2) (by simp [DetachPc.inHebrew]) with
        ⟨L', hInserted, hNew, hRoom'⟩
      simp only [hK, Option.map_some]
      refine ⟨_, L', rfl, h.inserted child
        { f with syncHebrew := some s.hebrew.next } hPc hDetaching
        ⟨rfl, ?_, ?_, rfl⟩ hInserted hDetaching.isChild
        hDetaching.isParent rfl rfl (.childEnglish ?_) hRoom'⟩
      · simp [State.setWorker, hE, hK]
      · intro u hu
        simp [State.setWorker, hu]
      · rw [hSync]
        have hPath : x.syncPath = x.path ++ [.sync] := by
          simp [Task.syncPath, hFirst]
        refine .node (Layout.At.of_halves
          (hInserted.english _ _ hSyncAt) ?_)
        rw [hPath]
        exact hNew
  | childEnglish hSync =>
      rcases Layout.insert_english hFits hRoom .child hBaseE.1
        (Or.inl hBaseE.2) (by
          simp [DetachPc.inEnglish, Branch.englishRank]) with
        ⟨L', hInserted, hNew, hRoom'⟩
      simp only [hE, Option.map_some]
      refine ⟨_, L', rfl, h.inserted { child with
          currentEnglish := some s.english.next } f hPc hDetaching
        ⟨rfl, ?_, ?_, rfl⟩ hInserted hDetaching.isChild
        hDetaching.isParent rfl rfl
        (.contEnglish (hSync.mono hInserted.at) rfl hNew)
        hRoom'⟩
      · simp [State.setWorker]
      · intro u hu
        simp [State.setWorker, hu]
  | contEnglish hSync hChild hChildAt =>
      have hChildE := hChildAt.2
      simp only [State.see] at hChildE
      rcases Layout.insert_english hFits hRoom .cont hChildAt.1
        (Or.inr ⟨0, by decide, by
          simp [hChildE, Path.english, Branch.englishRank]⟩)
        (by
          simp [DetachPc.inEnglish, Branch.englishRank,
            hChildE, Path.english]) with
        ⟨L', hInserted, hNew, hRoom'⟩
      simp only [hChild, Option.map_some]
      refine ⟨_, L', rfl, h.inserted child
        { f with contEnglish := some s.english.next } hPc hDetaching
        ⟨rfl, ?_, ?_, rfl⟩ hInserted hDetaching.isChild
        hDetaching.isParent rfl rfl
        (.contHebrew (hSync.mono hInserted.at) hChild
          (hInserted.english _ _ hChildAt) rfl hNew)
        hRoom'⟩
      · simp [State.setWorker]
      · intro u hu
        simp [State.setWorker, hu]
  | contHebrew hSync hChild hChildAt hCont hContAt =>
      rcases Layout.insert_hebrew hFits hRoom .cont hBaseK.1
        (Or.inl hBaseK.2) (by
          simp [DetachPc.inHebrew, Branch.hebrewRank]) with
        ⟨L', hInserted, hNew, hRoom'⟩
      simp only [hK, Option.map_some]
      refine ⟨_, L', rfl, h.inserted child
        { f with contHebrew := some s.hebrew.next } hPc hDetaching
        ⟨rfl, ?_, ?_, rfl⟩ hInserted hDetaching.isChild
        hDetaching.isParent rfl rfl
        (.childHebrew (hSync.mono hInserted.at) hChild
          (hInserted.english _ _ hChildAt) hCont
          (hInserted.english _ _ hContAt) rfl hNew)
        hRoom'⟩
      · simp [State.setWorker, hE, hK]
      · intro u hu
        simp [State.setWorker, hu]
  | childHebrew _ _ _ _ _ _ _ => exact absurd rfl hNotLast

/- Below a path with branches there is room. -/
theorem open_branch
    {o : ShadowStack} {p : Path} {e k : List Nat}
    (hRoom : L.Room o p e k) (b : Branch) :
    L.Open (p ++ [b]) := by
  intro q hPrefix hq
  have hEq := hRoom.below q
    ((List.prefix_append _ _).trans hPrefix) hq
  subst hEq
  have hLe := hPrefix.length_le
  rw [List.length_append, List.length_singleton] at hLe
  omega

/- The last insertion of a spawn. -/
theorem detach_last
    (h : Simulates main L t s)
    (hPc : (s.workers w).pc = .detaching a .childHebrew)
    {act : Activation Worker}
    (hAct : s.acts.get a = some act) :
    ∃ s' L' t', s.detach w a act .childHebrew = some s' ∧
      Simulates main L' t' s' := by
  have hStack := h.shadows w
  unfold View.Stack at hStack
  rw [hPc] at hStack
  rcases hStack with ⟨x, child, f, fs, hDetaching⟩
  rcases h.spawning_of hPc with
    ⟨u, y, hu, hControl, hGood, hy, hSpawning, hRuns⟩
  obtain rfl := Option.some.inj (hAct.symm.trans hu)
  have hGet : t.get a = some x := hDetaching.get
  obtain rfl := Option.some.inj (hGet.symm.trans hy)
  clear hu hy
  have hTree := h.sound.tree
  have hNext := h.acts.next
  have han : a ≠ t.heap.next := Nat.ne_of_lt (Heap.lt_next hGet)
  rcases (hTree.ok a x hGet).spawns hSpawning with
    ⟨body, rest, hRestX⟩
  have hRest : act.rest = .code (.spawn body rest) :=
    hGood.rest.trans hRestX
  have hRoom := hDetaching.room
  have hOpensX := h.opens a x hGet
  have hStage := hDetaching.stage
  cases hStage with
  | @childHebrew e e' k hSync hChild hChildAt hCont hContAt
      hHebrew hHebrewAt =>
  have hBase := hHebrewAt.2
  simp only [State.see] at hBase
  rcases Layout.insert_hebrew h.fits hRoom .child hHebrewAt.1
    (Or.inr ⟨0, by decide, by
      simp [hBase, Path.hebrew, Branch.hebrewRank]⟩)
    (by
      simp [DetachPc.inHebrew, Branch.hebrewRank, hBase,
        Path.hebrew]) with
    ⟨L', hInserted, hNew, hRoom'⟩
  -- The new state.
  obtain ⟨s', hEq, hOrders, hActs, hNextA, hSelf, hOther,
      hStrands⟩ :
      ∃ s', s.detach w a act .childHebrew = some s' ∧
        s'.orders =
          { s.orders with
            hebrew := (s.orders.hebrew.insert k).2 } ∧
        (∀ b, s'.acts.get b =
          if b = t.heap.next then
            some (State.activation (.enter body) act.leaf a
              (.running w))
          else if b = a then some
            { act with
              rest := .code rest
              leaf := act.leaf + (1 + body.spTree.size + 1)
              control := .spawned t.heap.next w }
          else s.acts.get b) ∧
        s'.acts.next = s.acts.next + 1 ∧
        s'.workers w =
          { s.workers w with
            frames :=
              { child with
                currentHebrew := some s.hebrew.next
                contEnglish := none
                contHebrew := none
                syncEnglish := none
                syncHebrew := none } ::
              { f with
                currentEnglish := none
                currentHebrew := none } :: fs
            deque := (s.workers w).deque ++ [a]
            pc := .running t.heap.next } ∧
        (∀ u, u ≠ w → s'.workers u = s.workers u) ∧
        s'.strands = s.strands := by
    unfold State.detach
    dsimp only
    rw [hDetaching.frames]
    simp only [hHebrew, Option.bind_some, hRest]
    refine ⟨_, rfl, rfl, ?_, ?_, ?_, ?_, rfl⟩
    · intro b
      rw [← hNext]
      exact get_branch_act hAct b
    · rfl
    · simp [State.publish, State.setWorker, State.modify, hNext]
    · intro u hu
      simp [State.publish, State.setWorker, State.modify, hu]
  -- The new tasks.
  obtain ⟨t', hStep, hTasks, hHelpers, hNextT, hLog⟩ :
      ∃ t' : Tasks, t.Step t' ∧
        (∀ b, t'.get b =
          if b = t.heap.next then
            some (Task.fresh (.enter body) x.leaf
              (x.path ++ [.child]) a)
          else if b = a then some (x.continuation body rest)
          else t.get b) ∧
        (∀ b c, t'.HelperOf c b ↔
          (c = t.heap.next ∧ b = a) ∨ t.HelperOf c b) ∧
        t'.heap.next = t.heap.next + 1 ∧ t'.log = t.log := by
    refine ⟨_, Tasks.Step.spawn hGet hSpawning hRestX,
      Tasks.get_branch hGet, ?_, rfl, List.append_nil _⟩
    intro b c
    rw [Tasks.helperOf_branch (x.continuation body rest) hGet
      rfl (by rw [hRestX]; rfl) rfl]
    simp [Task.fresh, Rest.isHelper]
  have hCarried := hStep.carried hTree
  have hHolder : act.control.holder = some w := by
    rw [hControl]
    rfl
  have hNone : t.get t.heap.next = none :=
    Heap.get_eq_none (Nat.le_refl _)
  have hInserted' : L.Inserted s.orders L' s'.orders x.path :=
    hOrders.symm ▸ hInserted
  have hTouches := touches_branch (L := L) L' hAct hHolder
    hNext hActs hTasks rfl (by
      intro c v hc
      cases hc
      rfl) rfl
  have hGrows := h.grows_insert a t.heap.next hPc hGet
    hInserted'
  have hKeeps := keeps_at hTouches hGrows.english
    hGrows.hebrew hCarried hAct hHolder
    (Or.inr (hNext ▸ Heap.get_eq_none (Nat.le_refl _))) w
  have hActA := hActs a
  rw [if_neg han, if_pos rfl] at hActA
  have hTaskA := hTasks a
  rw [if_neg han, if_pos rfl] at hTaskA
  have hTaskN := hTasks t.heap.next
  rw [if_pos rfl] at hTaskN
  have hGoodA := hGood.continuation body rest hControl hNone
    hHelpers
  have hGoodN : Good t' t.heap.next
      (State.activation (.enter body) act.leaf a (.running w))
      (Task.fresh (.enter body) x.leaf (x.path ++ [.child])
        a) := by
    rw [hGood.leaf]
    refine Good.fresh (by simp) fun c => ?_
    rw [hHelpers]
    simp [Ne.symm han, Tasks.not_helperOf_next hTree]
  have hNew' : L'.HebrewAt s'.orders s.hebrew.next
      (x.path ++ [.child]) := hOrders.symm ▸ hNew
  have hRoomNew : L'.Room s'.orders x.path _ _ :=
    hOrders.symm ▸ hRoom'
  have hOwn := hDetaching.own.carry hKeeps
    ⟨by simp [State.see, hTaskA], act, _, hAct, hActA, id⟩
  have hLink : (s'.see L' t').Link t.heap.next true a
      (x.continuation body rest) :=
    ⟨⟨_, hTaskN, rfl, rfl⟩, hTaskA⟩
  have hStack : (s'.see L' t').Stack w (s'.workers w) := by
    rw [hSelf]
    refine ⟨_, _, _, hTaskN, rfl, ?_, ?_⟩
    · refine ⟨?_, .empty, .empty, hDetaching.isChild⟩
      rw [hChild]
      exact .node (Layout.At.of_halves
        (hInserted'.english _ _ hChildAt) hNew')
    · rw [List.reverse_append]
      refine View.Own.spawner hLink hActA rfl ?_ hOwn
      refine ⟨.empty, ?_, ?_, hDetaching.isParent⟩
      · rw [hCont, hHebrew]
        exact .node (Layout.At.of_halves
          (hInserted'.english _ _ hContAt)
          (hInserted'.hebrew _ _ hHebrewAt))
      · exact hSync.mono hInserted'.at
  refine ⟨s', L', t', hEq, h.move (h.moves_branch hAct hTouches
    ?_ (hStep.reachable h.reach) hCarried hActs hNextA hTasks hNextT
    ?_ hGoodA hGoodN hOther rfl rfl ?_ hStack ?_ ?_ ?_) hGrows⟩
  · intro b k hHolds
    rw [hPc] at hHolds
    cases hHolds
    rfl
  · intro b c hb _
    rw [hHelpers]
    simp [hb]
  · rw [hSelf]
  · refine ⟨?_, fun _ _ => open_branch hRoomNew .cont⟩
    intro q hq
    simp only [Task.continuation, Option.some.injEq] at hq
    subst hq
    cases hPending : x.pending with
    | none =>
        simp only [Task.syncPath, hPending, Option.getD_none]
        exact open_branch hRoomNew .sync
    | some q =>
        simp only [Task.syncPath, hPending, Option.getD_some]
        intro r hPrefix hr
        rw [hInserted.expanded] at hr
        exact hOpensX.1 q hPending r hPrefix hr
  · exact ⟨(fun _ h => by cases h),
      fun _ _ => open_branch hRoomNew .child⟩
  · exact ⟨[], by simp [hStrands], by simp [hLog], by simp⟩

end Simulates

end WorkStealing

end PRacer
