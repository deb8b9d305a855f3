import PRacer.Pipeline.RingCorrectness

/-
  A hook that runs on the ring without interruption, while
  the left iteration is not inside `append`, does what it
  does on lists that are never deleted or replaced.

  Main declarations:
    * `RingState.Solo`
    * `RingState.solo_leftLoop`, `RingState.solo_append`
    * `hooks_refine`
-/

------------------------------------------------------------
-- Hooks Without Interruption
------------------------------------------------------------

namespace PRacer

open Foundations

namespace RingState

variable {s t u : RingState} {K i : Nat}

/-
  Some number of steps of the hook of an iteration leads from
  one state to the other, whatever values disturbed reads
  would give.
-/
def Solo (i : Nat) (s t : RingState) : Prop :=
  ∃ k, ∀ K, ∀ values : List StageFrame, values.length = k →
    (ringSystem K).Run s (values.map (.hook i)) t

theorem Solo.step
    (hStep : ∀ anything, s.hookStep i anything = some t) :
    Solo i s t := by
  refine ⟨1, ?_⟩
  intro K values hLength
  rcases List.length_eq_one_iff.mp hLength with ⟨v, rfl⟩
  exact .single (hStep v)

theorem Solo.trans
    (hFirst : Solo i s t) (hSecond : Solo i t u) :
    Solo i s u := by
  rcases hFirst with ⟨k, hFirst⟩
  rcases hSecond with ⟨l, hSecond⟩
  refine ⟨k + l, ?_⟩
  intro K values hLength
  rw [← List.take_append_drop k values, List.map_append]
  apply (hFirst K _ ?_).append (hSecond K _ ?_)
  · rw [List.length_take]
    omega
  · rw [List.length_drop]
    omega

theorem Solo.head
    (hStep : ∀ anything, s.hookStep i anything = some t)
    (hRest : Solo i t u) :
    Solo i s u :=
  (Solo.step hStep).trans hRest

theorem setPc_setPc (pc pc' : IterationPc) :
    (s.setPc i pc).setPc i pc' = s.setPc i pc' := by
  unfold setPc
  rw [Function.update_idem]

theorem setPc_setPiper
    (s : RingState) (i : Nat) (pc pc' : IterationPc)
    (piper : PiperState) :
    ({ s.setPc i pc with piper := piper } : RingState).setPc i
        pc' =
      { s with piper := piper }.setPc i pc' :=
  setPc_setPc (s := { s with piper := piper }) pc pc'

theorem pc_setPc (pc : IterationPc) :
    (s.setPc i pc).pc i = pc :=
  Function.update_self ..

------------------------------------------------------------
-- Reads of the Left List
------------------------------------------------------------

/- A call of `get` gives the frame that is there. -/
theorem solo_getFrame
    {pre index : Nat} {sf : StageFrame}
    {l : SharedList StageFrame} {frames : List StageFrame}
    (going : SharedList.GetPc → IterationPc)
    (next : StageFrame → IterationPc)
    (hHook : ∀ (v : RingState) get anything,
      v.pc i = going get →
        v.hookStep i anything =
          v.getFrame i pre index get anything going next)
    (hGet : s.lists.get pre = some l)
    (hKeeps : l.Keeps frames none)
    (hFrame : frames[index]? = some sf) :
    Solo i (s.setPc i (going .length))
      (s.setPc i (next sf)) := by
  have hIndex : index < l.length := by
    have hLt := (List.getElem?_eq_some_iff.mp hFrame).1
    exact hLt.trans_le hKeeps.length_le
  have hRead : ∀ anything,
      l.read l.array index anything = sf :=
    fun anything =>
      hKeeps.read (hKeeps.live.mpr (by simp)) hFrame
  have hList : ∀ pc, (s.setPc i pc).lists.get pre = some l :=
    fun _ => hGet
  have hLength : ∀ anything,
      (s.setPc i (going .length)).hookStep i anything =
        some (s.setPc i (going .array)) := by
    intro anything
    rw [hHook _ .length anything (pc_setPc _)]
    unfold getFrame
    rw [hList]
    unfold SharedList.getStep
    dsimp only
    rw [if_pos hIndex]
    exact congrArg some (setPc_setPc ..)
  have hArray : ∀ anything,
      (s.setPc i (going .array)).hookStep i anything =
        some (s.setPc i (going (.entry l.array))) := by
    intro anything
    rw [hHook _ .array anything (pc_setPc _)]
    unfold getFrame
    rw [hList]
    exact congrArg some (setPc_setPc ..)
  have hEntry : ∀ anything,
      (s.setPc i (going (.entry l.array))).hookStep i
        anything = some (s.setPc i (next sf)) := by
    intro anything
    rw [hHook _ (.entry l.array) anything (pc_setPc _)]
    unfold getFrame
    rw [hList]
    unfold SharedList.getStep
    dsimp only
    rw [hRead anything]
    exact congrArg some (setPc_setPc ..)
  exact .head hLength (.head hArray (.step hEntry))

/- The search on its own does what `leftLoop` does. -/
theorem solo_leftLoop
    {l : SharedList StageFrame} {frames : List StageFrame}
    (x : LeftSearch)
    (hGet : s.lists.get x.pre = some l)
    (hKeeps : l.Keeps frames none)
    (hLength : x.length = frames.length)
    (rest : List StageFrame)
    (hRest : frames.drop x.index = rest) :
    Solo i (s.setPc i (.leftLoop x))
      (s.setPc i
        (.leftEnd
          { x with
            index := (PiperState.leftLoop x.entry.userStage
              rest x.index x.iPre).2.1
            iPre := (PiperState.leftLoop x.entry.userStage
              rest x.index x.iPre).2.2 }
          (PiperState.leftLoop x.entry.userStage rest x.index
            x.iPre).1)) := by
  induction rest generalizing x with
  | nil =>
      have hEnd : ¬ x.index < x.length := by
        have := List.drop_eq_nil_iff.mp hRest
        omega
      refine .step fun anything => ?_
      unfold hookStep
      rw [pc_setPc]
      dsimp only
      rw [if_neg hEnd, setPc_setPc]
      rfl
  | cons sf rest ih =>
      have hFrame : frames[x.index]? = some sf := by
        rw [← Nat.add_zero x.index, ← List.getElem?_drop,
          hRest]
        rfl
      have hIndex : x.index < x.length := by
        rw [hLength]
        exact (List.getElem?_eq_some_iff.mp hFrame).1
      have hNext : frames.drop (x.index + 1) = rest := by
        rw [← List.drop_drop, hRest]
        rfl
      have hTest : ∀ test,
          Solo i (s.setPc i (.leftTest x test .length))
            (s.setPc i (x.tested sf.stageNum test)) := by
        intro test
        apply solo_getFrame (.leftTest x test)
          (fun sf => x.tested sf.stageNum test) _ hGet hKeeps
          hFrame
        intro v get anything hPc
        unfold hookStep
        rw [hPc]
      refine .head (t := s.setPc i (.leftTest x .equal .length))
        (fun anything => ?_) ?_
      · unfold hookStep
        rw [pc_setPc]
        dsimp only
        rw [if_pos hIndex, setPc_setPc]
      · unfold PiperState.leftLoop
        have hEqual := hTest .equal
        unfold LeftSearch.tested at hEqual
        by_cases hSame : sf.stageNum = x.entry.userStage
        · rw [if_pos hSame]
          dsimp only at hEqual ⊢
          rw [if_pos hSame] at hEqual
          exact hEqual
        · have hLess := hTest .less
          unfold LeftSearch.tested at hLess
          dsimp only at hEqual hLess
          rw [if_neg hSame] at hEqual ⊢
          by_cases hLt : sf.stageNum < x.entry.userStage
          · rw [if_pos hLt] at hLess ⊢
            exact (hEqual.trans hLess).trans
              (ih { x with
                  iPre := x.index
                  index := x.index + 1 }
                hGet hLength hNext)
          · have hGreater := hTest .greater
            unfold LeftSearch.tested at hGreater
            dsimp only at hGreater
            rw [if_pos (by omega)] at hGreater
            rw [if_neg hLt] at hLess ⊢
            exact (hEqual.trans hLess).trans hGreater

------------------------------------------------------------
-- Calls of Append
------------------------------------------------------------

/- A call of `append` reaches its end. -/
theorem solo_appendStep
    {list : Nat} (sf : StageFrame)
    {l : SharedList StageFrame} {frames : List StageFrame}
    (going : SharedList.AppendPc → IterationPc)
    (done : PiperState → PiperState)
    (hGoing : ∀ (v : RingState) pc anything l l' pc',
      v.pc i = going pc → v.lists.get list = some l →
        l.appendStep sf pc = some (l', some pc') →
          v.hookStep i anything =
            some ((v.setList list l').setPc i (going pc')))
    (hDone : ∀ (v : RingState) pc l l',
      v.pc i = going pc → v.lists.get list = some l →
        l.appendStep sf pc = some (l', none) →
          ∃ t, (∀ anything, v.hookStep i anything = some t) ∧
            t.pc i = .running ∧ t.piper = done v.piper)
    (pc : SharedList.AppendPc)
    (hGet : s.lists.get list = some l)
    (hKeeps : l.Keeps frames (some pc)) :
    ∃ t, Solo i (s.setPc i (going pc)) t ∧
      t.pc i = .running ∧ t.piper = done s.piper := by
  generalize hr : pc.rank = r
  induction r using Nat.strongRecOn generalizing s l pc with
  | ind r ih =>
      have hGet' : (s.setPc i (going pc)).lists.get list =
          some l := hGet
      rcases hKeeps.appendStep sf with
        ⟨l', pc', hStep, hKeeps', -, -, hLess⟩
      cases pc' with
      | none =>
          rcases hDone _ pc l l' (pc_setPc _) hGet' hStep with
            ⟨t, hRun, hEnd, hPiper⟩
          exact ⟨t, .step hRun, hEnd, hPiper⟩
      | some pc' =>
          have hNew : (s.setList list l').lists.get list =
              some l' :=
            Heap.get_modify_self _ hGet
          rcases ih _ (hr ▸ hLess pc' rfl)
            (s := s.setList list l') pc' hNew hKeeps' rfl with
            ⟨t, hRest, hEnd, hPiper⟩
          refine ⟨t, .head (fun anything => ?_) hRest, hEnd,
            hPiper⟩
          rw [hGoing _ pc anything l l' pc' (pc_setPc _) hGet'
            hStep]
          change some (((s.setList list l').setPc i
            (going pc)).setPc i (going pc')) = _
          rw [setPc_setPc]

theorem solo_append
    {list : Nat} {l : SharedList StageFrame}
    {frames : List StageFrame} (sf : StageFrame)
    (hGet : s.lists.get list = some l)
    (hKeeps : l.Keeps frames none) :
    ∃ t, Solo i (s.setPc i (.append list sf .room)) t ∧
      t.pc i = .running ∧ t.piper = s.piper.append i sf := by
  refine solo_appendStep sf (.append list sf)
    (fun piper => piper.append i sf) ?_ ?_ .room hGet
    hKeeps.append
  · intro v pc anything l l' pc' hPc hGet hStep
    unfold hookStep
    rw [hPc]
    dsimp only
    rw [hGet]
    dsimp only
    rw [hStep]
  · intro v pc l l' hPc hGet hStep
    refine ⟨{ v.setList list l' with
      piper := v.piper.append i sf }.setPc i .running, ?_,
      pc_setPc _, rfl⟩
    intro anything
    unfold hookStep
    rw [hPc]
    dsimp only
    rw [hGet]
    dsimp only
    rw [hStep]

theorem solo_appendFirst
    {list : Nat} {l : SharedList StageFrame}
    {frames : List StageFrame} (sf : StageFrame)
    (hGet : s.lists.get list = some l)
    (hKeeps : l.Keeps frames none) :
    ∃ t, Solo i (s.setPc i (.appendFirst list sf .room)) t ∧
      t.pc i = .running ∧
      t.piper = s.piper.insertStageFrameList i sf := by
  refine solo_appendStep sf (.appendFirst list sf)
    (fun piper => piper.insertStageFrameList i sf) ?_ ?_ .room
    hGet hKeeps.append
  · intro v pc anything l l' pc' hPc hGet hStep
    unfold hookStep
    rw [hPc]
    dsimp only
    rw [hGet]
    dsimp only
    rw [hStep]
  · intro v pc l l' hPc hGet hStep
    refine ⟨{ v.setList list { l' with index := 1 } with
      piper := v.piper.insertStageFrameList i sf }.setPc i
        .running, ?_, pc_setPc _, rfl⟩
    intro anything
    unfold hookStep
    rw [hPc]
    dsimp only
    rw [hGet]
    dsimp only
    rw [hStep]

------------------------------------------------------------
-- Later Stages
------------------------------------------------------------

/- The nodes of a stage and its frame. -/
def addStage
    (piper : PiperState) (i userStage right down : Nat) :
    PiperState :=
  let (sf, piper) := piper.createOrder i userStage right down
  piper.append i sf

theorem hookStep_create
    {e : StageEntry}
    (hPc : s.pc i = .create e) (anything : StageFrame) :
    s.hookStep i anything =
      some ({ s with piper :=
          (s.piper.createOrder i e.userStage e.right
            e.down).2 }.setPc i
        (.append e.list
          (s.piper.createOrder i e.userStage e.right e.down).1
          .room)) := by
  unfold hookStep
  rw [hPc]

/- A stage whose current nodes are known. -/
theorem solo_create
    {e : StageEntry} {l : SharedList StageFrame}
    {frames : List StageFrame}
    (hGet : s.lists.get e.list = some l)
    (hKeeps : l.Keeps frames none) :
    ∃ t, Solo i (s.setPc i (.create e)) t ∧
      t.pc i = .running ∧
      t.piper =
        addStage s.piper i e.userStage e.right e.down := by
  rcases solo_append (i := i)
    (s := { s with piper :=
      (s.piper.createOrder i e.userStage e.right e.down).2 })
    (s.piper.createOrder i e.userStage e.right e.down).1
    hGet hKeeps with ⟨t, hRest, hEnd, hPiper⟩
  refine ⟨t, .head (fun anything => ?_) hRest, hEnd, hPiper⟩
  rw [hookStep_create (pc_setPc _) anything]
  exact congrArg some (setPc_setPiper ..)

/- The state after a search. -/
def afterSearch
    (s : RingState) (i list index : Nat)
    (cur : SharedList StageFrame) : RingState :=
  { s.setList list { cur with index := index } with
    piper := s.piper.setIndex i index }

/-
  The left dependency is searched, and the right node of the
  frame that was found replaces that of the parent.
-/
theorem solo_leftEnd
    (x : LeftSearch) (ret : Nat) {list : Nat}
    {cur l : SharedList StageFrame}
    {own frames : List StageFrame}
    (hCur : x.cur = list)
    (hList : x.entry.list = list)
    (hGet : s.lists.get list = some cur)
    (hOwn : cur.Keeps own none)
    (hSlot : s.ring.getStageFrameList (i - 1) = some x.pre)
    (hPre : s.lists.get x.pre = some l)
    (hKeeps : l.Keeps frames none)
    (hNe : x.pre ≠ list)
    (hIndex : max ret x.iPre ≠ 0 →
      max ret x.iPre < frames.length) :
    ∃ t, Solo i (s.setPc i (.leftEnd x ret)) t ∧
      t.pc i = .running ∧
      some t.piper =
        if max ret x.iPre ≠ 0 then
          (frames[max ret x.iPre]?).map fun sibling =>
            addStage (s.piper.setIndex i x.index) i
              x.entry.userStage sibling.rightFirst.rightCont
              x.entry.down
        else
          some (addStage (s.piper.setIndex i x.index) i
            x.entry.userStage x.entry.right x.entry.down) := by
  subst hList
  have hStep : ∀ anything,
      (s.setPc i (.leftEnd x ret)).hookStep i anything =
        some ((s.afterSearch i x.entry.list x.index cur).setPc
          i (if max ret x.iPre ≠ 0 then
              .leftSibling x.entry (max ret x.iPre)
            else .create x.entry)) := by
    intro anything
    have hGet' : (s.setPc i (.leftEnd x ret)).lists.get
        x.entry.list = some cur := hGet
    unfold hookStep
    rw [pc_setPc]
    dsimp only
    rw [hCur, hGet']
    change some (((s.afterSearch i x.entry.list x.index
      cur).setPc i _).setPc i _) = _
    rw [setPc_setPc]
  have hGet' :
      (s.afterSearch i x.entry.list x.index cur).lists.get
        x.entry.list = some { cur with index := x.index } :=
    Heap.get_modify_self _ hGet
  have hPre' :
      (s.afterSearch i x.entry.list x.index cur).lists.get
        x.pre = some l := by
    change (s.lists.modify _ _).get _ = _
    rw [Heap.get_modify_of_ne _ hNe]
    exact hPre
  have hOwn' := hOwn.setIndex x.index
  generalize hAfter :
    s.afterSearch i x.entry.list x.index cur = v
    at hStep hGet' hPre'
  have hPiper : v.piper = s.piper.setIndex i x.index := by
    rw [← hAfter]
    rfl
  have hSlot' : v.ring.getStageFrameList (i - 1) =
      some x.pre := by
    rw [← hAfter]
    exact hSlot
  split
  · rename_i hFound
    have hExists : ∃ sibling,
        frames[max ret x.iPre]? = some sibling :=
      ⟨_, List.getElem?_eq_getElem (hIndex hFound)⟩
    rcases hExists with ⟨sibling, hFrame⟩
    rw [if_pos hFound] at hStep
    have hGo : ∀ anything,
        (v.setPc i (.leftSibling x.entry
          (max ret x.iPre))).hookStep i anything =
            some (v.setPc i (.sibling x.entry
              (max ret x.iPre) x.pre .length)) := by
      intro anything
      have hSlotV : (v.setPc i (.leftSibling x.entry
          (max ret x.iPre))).ring.getStageFrameList (i - 1) =
            some x.pre := hSlot'
      unfold hookStep
      rw [pc_setPc]
      dsimp only
      rw [hSlotV]
      exact congrArg some (setPc_setPc ..)
    have hRead :
        Solo i
          (v.setPc i (.sibling x.entry (max ret x.iPre) x.pre
            .length))
          (v.setPc i (.create { x.entry with
            right := sibling.rightFirst.rightCont })) := by
      apply solo_getFrame
        (.sibling x.entry (max ret x.iPre) x.pre)
        (fun sibling => .create { x.entry with
          right := sibling.rightFirst.rightCont }) _ hPre'
        hKeeps hFrame
      intro w get anything hPc
      unfold hookStep
      rw [hPc]
    rcases solo_create (i := i)
      (e := { x.entry with
        right := sibling.rightFirst.rightCont })
      hGet' hOwn' with ⟨t, hRest, hEnd, hResult⟩
    refine ⟨t, (Solo.head hStep (.head hGo hRead)).trans hRest,
      hEnd, ?_⟩
    rw [hFrame, hResult, hPiper]
    rfl
  · rename_i hNone
    rw [if_neg hNone] at hStep
    rcases solo_create (i := i) (e := x.entry) hGet' hOwn'
      with ⟨t, hRest, hEnd, hResult⟩
    refine ⟨t, .head hStep hRest, hEnd, ?_⟩
    rw [hResult, hPiper]

/- The search gives a position of the list or `iPre`. -/
theorem leftLoop_lt
    (stage : Nat) (rest : List StageFrame)
    (index iPre : Nat) (hPre : iPre ≤ index) :
    max (PiperState.leftLoop stage rest index iPre).1
          (PiperState.leftLoop stage rest index iPre).2.2 =
        iPre ∨
      0 < rest.length ∧
        max (PiperState.leftLoop stage rest index iPre).1
            (PiperState.leftLoop stage rest index iPre).2.2 <
          index + rest.length := by
  induction rest generalizing index iPre with
  | nil => exact Or.inl (Nat.zero_max iPre)
  | cons first rest ih =>
      unfold PiperState.leftLoop
      rw [List.length_cons]
      split
      · right
        dsimp only
        omega
      · split
        · right
          rcases ih (index + 1) index (Nat.le_succ index) with
            hPre' | ⟨-, hLt⟩
          · rw [hPre']
            omega
          · omega
        · exact Or.inl (Nat.max_self iPre)

/- A wait from its search on. -/
theorem solo_leftDependency
    {e : StageEntry} {pre list : Nat}
    {cur l : SharedList StageFrame}
    (hLater : 1 < i)
    (hSelf : s.ring.getStageFrameList i = some list)
    (hList : e.list = list)
    (hGet : s.lists.get list = some cur)
    (hOwn : cur.Keeps (s.piper.iterations i).frames none)
    (hCursor : cur.index = (s.piper.iterations i).index)
    (hSlot : s.ring.getStageFrameList (i - 1) = some pre)
    (hPre : s.lists.get pre = some l)
    (hKeeps :
      l.Keeps (s.piper.iterations (i - 1)).frames none)
    (hNe : pre ≠ list) :
    ∃ t, Solo i (s.setPc i (.leftDependency e)) t ∧
      t.pc i = .running ∧
      some t.piper =
        let r := s.piper.getLeftDependency i e.userStage
        if r.1 ≠ 0 then
          ((r.2.iterations (i - 1)).frames[r.1]?).map
            fun sibling =>
              addStage r.2 i e.userStage
                sibling.rightFirst.rightCont e.down
        else some (addStage r.2 i e.userStage e.right e.down) := by
  generalize hx :
    ({ entry := e
       cur := list
       pre := pre
       length := l.length
       index := cur.index
       iPre := 0 } : LeftSearch) = x
  have hStart : Solo i (s.setPc i (.leftDependency e))
      (s.setPc i (.leftLoop x)) := by
    refine .head (t := s.setPc i (.leftLength e list pre))
      (fun anything => ?_) (.step fun anything => ?_)
    · have hSelf' : (s.setPc i
          (.leftDependency e)).ring.getStageFrameList i =
            some list := hSelf
      have hSlot' : (s.setPc i
          (.leftDependency e)).ring.getStageFrameList (i - 1) =
            some pre := hSlot
      unfold hookStep
      rw [pc_setPc]
      dsimp only
      rw [hSelf', hSlot']
      exact congrArg some (setPc_setPc ..)
    · have hGet' : (s.setPc i
          (.leftLength e list pre)).lists.get list =
            some cur := hGet
      have hPre' : (s.setPc i
          (.leftLength e list pre)).lists.get pre =
            some l := hPre
      unfold hookStep
      rw [pc_setPc]
      dsimp only
      rw [hGet', hPre', ← hx]
      exact congrArg some (setPc_setPc ..)
  have hFields : x.entry = e ∧ x.cur = list ∧ x.pre = pre ∧
      x.length = l.length ∧
      x.index = (s.piper.iterations i).index ∧ x.iPre = 0 := by
    rw [← hx]
    exact ⟨rfl, rfl, rfl, rfl, hCursor, rfl⟩
  rcases hFields with
    ⟨hEntry, hCur, hLeft, hLength, hIndex, hZero⟩
  have hLoop := solo_leftLoop (i := i) x
    (by rw [hLeft]; exact hPre) hKeeps
    (hLength.trans hKeeps.length) _ rfl
  have hBound := leftLoop_lt x.entry.userStage
    ((s.piper.iterations (i - 1)).frames.drop x.index)
    x.index x.iPre (by rw [hZero]; exact Nat.zero_le _)
  have hSearch :
      s.piper.getLeftDependency i e.userStage =
        (max
            (PiperState.leftLoop x.entry.userStage
              ((s.piper.iterations (i - 1)).frames.drop
                x.index) x.index x.iPre).1
            (PiperState.leftLoop x.entry.userStage
              ((s.piper.iterations (i - 1)).frames.drop
                x.index) x.index x.iPre).2.2,
          s.piper.setIndex i
            (PiperState.leftLoop x.entry.userStage
              ((s.piper.iterations (i - 1)).frames.drop
                x.index) x.index x.iPre).2.1) := by
    rw [hEntry, hIndex, hZero]
    rfl
  rw [hSearch]
  generalize PiperState.leftLoop x.entry.userStage
    ((s.piper.iterations (i - 1)).frames.drop x.index)
    x.index x.iPre = r at hLoop hBound ⊢
  have hIndex' : max r.1 r.2.2 ≠ 0 →
      max r.1 r.2.2 <
        (s.piper.iterations (i - 1)).frames.length := by
    intro hFound
    rw [List.length_drop] at hBound
    omega
  rcases solo_leftEnd (i := i)
    { x with index := r.2.1, iPre := r.2.2 } r.1 hCur
    (hEntry ▸ hList) hGet hOwn (hLeft ▸ hSlot)
    (by rw [hLeft]; exact hPre) hKeeps (hLeft ▸ hNe) hIndex'
    with ⟨t, hRest, hEnd, hResult⟩
  refine ⟨t, (hStart.trans hLoop).trans hRest, hEnd, ?_⟩
  have hSame :
      ((s.piper.setIndex i r.2.1).iterations (i - 1)).frames =
        (s.piper.iterations (i - 1)).frames := by
    unfold PiperState.setIndex
    dsimp only
    rw [Function.update_of_ne (by omega)]
  dsimp only at hResult ⊢
  rw [hSame, hResult, hEntry]

/- A stage that waits. -/
theorem cilkStageWait_eq
    {piper : PiperState} {userStage : Nat} {parent : StageFrame}
    (hLater : 1 < i)
    (hParent :
      (piper.iterations i).frames.getLast? = some parent) :
    piper.cilkStageWait i userStage =
      let r := piper.getLeftDependency i userStage
      if r.1 ≠ 0 then
        ((r.2.iterations (i - 1)).frames[r.1]?).map
          fun sibling =>
            addStage r.2 i userStage
              sibling.rightFirst.rightCont
              parent.downFirst.downCont
      else
        some (addStage r.2 i userStage
          parent.rightFirst.downCont
          parent.downFirst.downCont) := by
  unfold PiperState.cilkStageWait
  rw [hParent]
  dsimp only
  rw [if_pos hLater]
  generalize piper.getLeftDependency i userStage = r
  rcases r with ⟨leftIndex, s₁⟩
  dsimp only
  split
  · cases (s₁.iterations (i - 1)).frames[leftIndex]? with
    | none => rfl
    | some sibling => rfl
  · rfl

/- A stage that does not wait, or has no left iteration. -/
theorem cilkStage_eq
    {piper : PiperState} {userStage : Nat} {waits : Bool}
    {parent : StageFrame}
    (hDirect : ¬ (waits = true ∧ 1 < i))
    (hParent :
      (piper.iterations i).frames.getLast? = some parent) :
    (if waits then piper.cilkStageWait i userStage
      else piper.cilkStage i userStage) =
      some (addStage piper i userStage
        parent.rightFirst.downCont
        parent.downFirst.downCont) := by
  cases waits with
  | false =>
      change piper.cilkStage i userStage = _
      unfold PiperState.cilkStage
      rw [hParent]
      rfl
  | true =>
      change piper.cilkStageWait i userStage = _
      unfold PiperState.cilkStageWait
      rw [hParent]
      dsimp only
      rw [if_neg (fun hLater => hDirect ⟨rfl, hLater⟩)]
      rfl

/- The hook of a stage on its own. -/
theorem Inv.solo_stage
    {n userStage : Nat} {waits : Bool} {addr : Nat → Nat}
    (h : s.Inv K n addr) (hK : 2 ≤ K)
    (hPc : s.pc i = .running)
    (hOutside : waits = true → 1 < i →
      (s.pc (i - 1)).appending = none) :
    ∃ t, Solo i (s.setPc i (.stage userStage waits)) t ∧
      t.pc i = .running ∧
      (if waits then s.piper.cilkStageWait i userStage
        else s.piper.cilkStage i userStage) =
          some t.piper := by
  have hPhase := phase_eq hPc
  have hLive : (s.phase i).isLive = true := by
    rw [hPhase]
    rfl
  have hNe := (h.frames i).mp (by rw [hPhase]; rfl)
  rcases h.own hK hLive (by rw [hPhase]; rfl) with
    ⟨hSelf, cur, hLookup, hGet, hList⟩
  have hOwn := hList.keeps
  rw [hPc] at hOwn
  have hParent := List.getLast?_eq_some_getLast hNe
  generalize hLast :
    (s.piper.iterations i).frames.getLast hNe = parent
    at hParent
  have hStep : ∀ anything,
      (s.setPc i (.stage userStage waits)).hookStep i
        anything =
          some (s.setPc i
            (if waits = true ∧ 1 < i then
              .leftDependency
                { userStage := userStage
                  list := addr (i - 1)
                  right := parent.rightFirst.downCont
                  down := parent.downFirst.downCont }
            else
              .create
                { userStage := userStage
                  list := addr (i - 1)
                  right := parent.rightFirst.downCont
                  down := parent.downFirst.downCont })) := by
    intro anything
    have hLookup' :
        (s.setPc i (.stage userStage waits)).lookup i =
          some (addr (i - 1), cur) := hLookup
    have hRead :=
      SharedList.Keeps.get_last hOwn hNe anything
    rw [hLast] at hRead
    unfold RingState.hookStep
    rw [pc_setPc]
    dsimp only
    rw [hLookup']
    dsimp only
    rw [hRead]
    dsimp only
    split
    · exact congrArg some (setPc_setPc ..)
    · exact congrArg some (setPc_setPc ..)
  by_cases hWaits : waits = true ∧ 1 < i
  · rw [if_pos hWaits] at hStep
    rcases h.left hK hLive hWaits.2 with
      ⟨hSlot, l, hPre, hLeft, -⟩
    have hKeeps := hLeft.keeps
    rw [hOutside hWaits.1 hWaits.2] at hKeeps
    have hListed :=
      (h.phases.listed i (by omega)).mp (by rw [hPhase]; rfl)
    have hApart : addr (i - 1 - 1) ≠ addr (i - 1) := by
      intro hSame
      have := h.kept.inj _ _ (by omega) (by omega) hSame
      omega
    rcases solo_leftDependency (i := i)
      (e :=
        { userStage := userStage
          list := addr (i - 1)
          right := parent.rightFirst.downCont
          down := parent.downFirst.downCont })
      hWaits.2 hSelf rfl hGet hOwn hList.index hSlot hPre
      hKeeps hApart with ⟨t, hRest, hEnd, hResult⟩
    refine ⟨t, .head hStep hRest, hEnd, ?_⟩
    rw [if_pos hWaits.1, cilkStageWait_eq hWaits.2 hParent,
      hResult]
  · rw [if_neg hWaits] at hStep
    rcases solo_create (i := i)
      (e :=
        { userStage := userStage
          list := addr (i - 1)
          right := parent.rightFirst.downCont
          down := parent.downFirst.downCont })
      hGet hOwn with ⟨t, hRest, hEnd, hResult⟩
    refine ⟨t, .head hStep hRest, hEnd, ?_⟩
    rw [cilkStage_eq hWaits hParent, hResult]

------------------------------------------------------------
-- Stage 0
------------------------------------------------------------

/- The new list of an iteration and its first frame. -/
theorem Inv.solo_insertList
    {n : Nat} {sf : StageFrame} {addr : Nat → Nat}
    (h : s.Inv K n addr) (hK : 2 ≤ K)
    (hPc : s.pc i = .insertList sf) :
    ∃ t, Solo i s t ∧ t.pc i = .running ∧
      t.piper = s.piper.insertStageFrameList i sf := by
  have hPhase := phase_eq hPc
  obtain rfl :=
    (h.phases.starting i (by rw [hPhase]; rfl)).1
  rcases h.kept.insertList (by rw [h.limit]; omega)
    (by rw [hPhase]; exact IterationPhase.noConfusion) sf with
    ⟨u, hRun, hPiper, -, -, -, -⟩
  have hInsert : ∀ anything,
      s.hookStep (n + 1) anything =
        some (u.setPc (n + 1)
          (.newList (s.ring.getIndex (n + 1)) sf)) := by
    intro anything
    unfold RingState.hookStep
    rw [hPc]
    dsimp only
    rw [hRun]
  have hStore : ∀ anything,
      (u.setPc (n + 1) (.newList (s.ring.getIndex (n + 1))
        sf)).hookStep (n + 1) anything =
          some ((u.newList (s.ring.getIndex (n + 1))
            (n + 1)).setPc (n + 1)
              (.appendFirst u.lists.next sf .room)) := by
    intro anything
    unfold RingState.hookStep
    rw [pc_setPc]
    exact congrArg some (setPc_setPc
      (s := u.newList (s.ring.getIndex (n + 1)) (n + 1)) _ _)
  have hGet : (u.newList (s.ring.getIndex (n + 1))
      (n + 1)).lists.get u.lists.next = some .new :=
    Heap.get_alloc_self _
  rcases solo_appendFirst (i := n + 1) sf hGet
    SharedList.keeps_new with ⟨t, hRest, hEnd, hResult⟩
  refine ⟨t, .head hInsert (.head hStore hRest), hEnd, ?_⟩
  rw [hResult, ← hPiper]
  rfl

/- Stage 0 once its current nodes are known. -/
theorem Inv.solo_createFirst
    {n right down : Nat} {addr : Nat → Nat}
    (h : s.Inv K n addr) (hK : 2 ≤ K)
    (hPc : s.pc i = .createFirst right down) :
    ∃ t, Solo i s t ∧ t.pc i = .running ∧
      t.piper =
        (s.piper.createOrder i 0 right down).2.insertStageFrameList
          i (s.piper.createOrder i 0 right down).1 := by
  have hStep : ∀ anything,
      s.hookStep i anything =
        some ({ s with piper :=
            (s.piper.createOrder i 0 right down).2 }.setPc i
          (.insertList
            (s.piper.createOrder i 0 right down).1)) := by
    intro anything
    unfold RingState.hookStep
    rw [hPc]
  have hNext :
      ({ s with piper :=
          (s.piper.createOrder i 0 right down).2 }.setPc i
        (.insertList
          (s.piper.createOrder i 0 right down).1)).Inv
            K n addr :=
    h.goOn hPc rfl rfl rfl rfl rfl
  rcases hNext.solo_insertList hK (pc_setPc _) with
    ⟨t, hRest, hEnd, hPiper⟩
  exact ⟨t, .head hStep hRest, hEnd, hPiper⟩

/- The hook of stage 0 on its own. -/
theorem Inv.solo_stageFirst
    {n : Nat} {addr : Nat → Nat}
    (h : s.Inv K n addr) (hK : 2 ≤ K)
    (hPc : s.pc i = .stageFirst)
    (hOutside : 1 < i → (s.pc (i - 1)).appending = none) :
    ∃ t, Solo i s t ∧ t.pc i = .running ∧
      s.piper.cilkStageFirst i = some t.piper := by
  unfold PiperState.cilkStageFirst
  by_cases hLater : 1 < i
  · rcases h.left hK (by rw [phase_eq hPc]; rfl) hLater with
      ⟨hSlot, l, hGet, hList, hNe⟩
    have hKeeps := hList.keeps
    rw [hOutside hLater] at hKeeps
    have hExists : ∃ sibling,
        (s.piper.iterations (i - 1)).frames[0]? =
          some sibling :=
      ⟨_, List.getElem?_eq_getElem
        (List.length_pos_of_ne_nil hNe)⟩
    rcases hExists with ⟨sibling, hFrame⟩
    have hStep : ∀ anything,
        s.hookStep i anything =
          some (s.setPc i
            (.firstSibling (addr (i - 1 - 1)) .length)) := by
      intro anything
      unfold RingState.hookStep
      rw [hPc]
      dsimp only
      rw [if_pos hLater, hSlot]
    have hRead :
        Solo i
          (s.setPc i
            (.firstSibling (addr (i - 1 - 1)) .length))
          (s.setPc i
            (.createFirst sibling.rightFirst.rightCont
              sibling.downFirst.rightCont)) := by
      apply solo_getFrame (.firstSibling (addr (i - 1 - 1)))
        (fun sibling =>
          .createFirst sibling.rightFirst.rightCont
            sibling.downFirst.rightCont) _ hGet hKeeps hFrame
      intro v get anything hGoing
      unfold RingState.hookStep
      rw [hGoing]
    have hNext :
        (s.setPc i
          (.createFirst sibling.rightFirst.rightCont
            sibling.downFirst.rightCont)).Inv K n addr :=
      h.goOn hPc rfl rfl rfl rfl True.intro
    rcases hNext.solo_createFirst hK (pc_setPc _) with
      ⟨t, hRest, hEnd, hPiper⟩
    refine ⟨t, .head hStep (hRead.trans hRest), hEnd, ?_⟩
    rw [if_pos hLater, hFrame]
    exact congrArg some hPiper.symm
  · have hStep : ∀ anything,
        s.hookStep i anything =
          some (s.setPc i
            (.createFirst PiperState.getBase
              PiperState.getBase)) := by
      intro anything
      unfold RingState.hookStep
      rw [hPc]
      dsimp only
      rw [if_neg hLater]
    have hNext :
        (s.setPc i
          (.createFirst PiperState.getBase
            PiperState.getBase)).Inv K n addr :=
      h.goOn hPc rfl rfl rfl rfl True.intro
    rcases hNext.solo_createFirst hK (pc_setPc _) with
      ⟨t, hRest, hEnd, hPiper⟩
    refine ⟨t, .head hStep hRest, hEnd, ?_⟩
    rw [if_neg hLater]
    exact congrArg some hPiper.symm

end RingState

------------------------------------------------------------
-- Refinement
------------------------------------------------------------

/-
  A hook that no other hook interrupts comes to its end and
  does on the ring what it does on lists that are never
  deleted or replaced.  The hooks that read the left list
  start while the left iteration is not inside `append`.
-/
theorem hooks_refine
    {s : RingState} {K : Nat}
    (hK : 2 ≤ K)
    (hReach : (ringSystem K).Reachable s) (i : Nat) :
    (s.MayStart i →
      (1 < i → (s.pc (i - 1)).appending = none) →
      ∃ t k, (∀ values : List StageFrame, values.length = k →
          (ringSystem K).Run s
            (.start i :: values.map (.hook i)) t) ∧
        t.pc i = .running ∧
        s.piper.cilkStageFirst i = some t.piper) ∧
    (s.pc i = .running → ∀ userStage waits,
      (waits = true → 1 < i →
        (s.pc (i - 1)).appending = none) →
      ∃ t k, (∀ values : List StageFrame, values.length = k →
          (ringSystem K).Run s
            (.enter i userStage waits ::
              values.map (.hook i)) t) ∧
        t.pc i = .running ∧
        (if waits then s.piper.cilkStageWait i userStage
          else s.piper.cilkStage i userStage) =
            some t.piper) := by
  rcases RingState.exists_inv_of_reachable hK hReach with
    ⟨n, addr, h⟩
  constructor
  · intro hStart hOutside
    have hOutside' : 1 < i →
        ((s.setPc i .stageFirst).pc (i - 1)).appending =
          none := by
      intro hLater
      have hOther : (s.setPc i .stageFirst).pc (i - 1) =
          s.pc (i - 1) :=
        Function.update_of_ne (by omega) ..
      rw [hOther]
      exact hOutside hLater
    rcases (h.start hStart).solo_stageFirst hK
      (RingState.pc_setPc _) hOutside' with
      ⟨t, ⟨k, hRun⟩, hEnd, hResult⟩
    refine ⟨t, k, ?_, hEnd, hResult⟩
    intro values hLength
    exact (hRun K values hLength).head ⟨hStart, rfl⟩
  · intro hPc userStage waits hOutside
    rcases h.solo_stage hK hPc hOutside with
      ⟨t, ⟨k, hRun⟩, hEnd, hResult⟩
    refine ⟨t, k, ?_, hEnd, hResult⟩
    intro values hLength
    exact (hRun K values hLength).head ⟨hPc, rfl⟩

/- The fourth of five iterations has entered stage 1. -/
def fourthAtStage : List RingAction :=
  fiveIterations ++ [.enter 4 1 false] ++ hookSteps 4 5

/- The fifth waits for stage 1, and finds the second frame. -/
theorem hooks_refine_fourthAtStage :
    ∃ s t k,
      (ringSystem 3).Reachable s ∧
        (s.piper.getLeftDependency 5 1).1 = 1 ∧
        (∀ values : List StageFrame, values.length = k →
          (ringSystem 3).Run s
            (.enter 5 1 true :: values.map (.hook 5)) t) ∧
        s.piper.cilkStageWait 5 1 = some t.piper := by
  have hTest :
      (fourthAtStage.foldlM RingState.perform
        (.init 3)).toOption.any (fun s =>
          s.pc 5 = .running ∧ (s.pc 4).appending = none ∧
            (s.piper.getLeftDependency 5 1).1 = 1) =
      true := by
    decide +kernel
  rcases exists_reachable_of_test hTest with
    ⟨s, hReach, hState⟩
  rw [decide_eq_true_iff] at hState
  rcases hState with ⟨hPc, hOutside, hFound⟩
  rcases (hooks_refine (Nat.le_succ 2) hReach 5).2 hPc 1 true
    (fun _ _ => hOutside) with ⟨t, k, hSteps, -, hResult⟩
  exact ⟨s, t, k, hReach, hFound, hSteps, hResult⟩

end PRacer
