import PRacer.Foundations.AddressedOrder
import PRacer.Pipeline.Dag

/-
  The two orders decide reachability in the pipeline dag.

  In every reachable state, each order lists the nodes of the
  stage frames at the addresses of their cells.

  Main declarations:
    * `PiperState.enter`, `hook_eq_enter`
    * `Listed`, `PiperState.Inv`
    * `PiperState.twoDOrder`
-/

namespace PRacer

open Foundations

------------------------------------------------------------
-- Entering a Stage
------------------------------------------------------------

/- The child inserted first has branch `false`. -/
def Order.englishChild (o : Order) : Bool → Nat
| false => o.downCont
| true => o.rightCont

def Order.hebrewChild (o : Order) : Bool → Nat
| false => o.rightCont
| true => o.downCont

namespace PiperState

/- What a hook does once it knows the current nodes. -/
def enter
    (s : PiperState)
    (iterNum stageNum right down index : Nat) :
    PiperState :=
  let (sf, s') := s.createOrder iterNum stageNum right down
  { s' with
    iterations := Function.update s.iterations iterNum
      { frames := (s.iterations iterNum).frames ++ [sf]
        index := index } }

@[simp] theorem createOrder_iterations
    (s : PiperState) (i n right down : Nat) :
    (s.createOrder i n right down).2.iterations =
      s.iterations := rfl

theorem started_iff
    {s : PiperState} {c : Cell} :
    s.Started c ↔ ∃ sf, s.frame? c = some sf := by
  simp [Started, frame?, List.getElem?_eq_some_iff]

theorem not_started_nextCell (s : PiperState) (i : Nat) :
    ¬ s.Started (s.nextCell i) :=
  Nat.lt_irrefl _

variable {s : PiperState}
variable {i stageNum right down index : Nat}

/- Entering a stage adds the frame of its cell. -/
theorem frame?_enter (c : Cell) :
    (s.enter i stageNum right down index).frame? c =
      if c = s.nextCell i then
        some (s.createOrder i stageNum right down).1
      else s.frame? c := by
  rcases c with ⟨j, k⟩
  unfold frame? enter nextCell
  by_cases hj : j = i
  · subst hj
    simp only [Function.update_self, Prod.mk.injEq, true_and]
    rcases lt_trichotomy k
      (s.iterations j).frames.length with hk | hk | hk
    · rw [List.getElem?_append_left hk, if_neg hk.ne]
    · rw [if_pos hk, hk]
      simp
    · rw [if_neg hk.ne', List.getElem?_eq_none (by simpa),
        List.getElem?_eq_none hk.le]
  · simp [hj]

theorem started_enter (c : Cell) :
    (s.enter i stageNum right down index).Started c ↔
      c = s.nextCell i ∨ s.Started c := by
  rw [started_iff, started_iff, frame?_enter]
  by_cases hc : c = s.nextCell i
  · simp [hc]
  · simp [hc]

end PiperState

------------------------------------------------------------
-- Orders and Addresses
------------------------------------------------------------

section Listed

variable {o : OrderList} {s s' : PiperState}
variable {order : StageFrame → Order}
variable {child : Order → Bool → Nat}
variable {cellAddr : Cell → List Bool}
variable {addr : Nat → List Bool}

/-
  An order lists the base node and the nodes of all frames at
  the addresses of their cells, and nothing is below the
  address of a stage that has not started.
-/
structure Listed
    (o : OrderList) (s : PiperState)
    (order : StageFrame → Order)
    (child : Order → Bool → Nat)
    (cellAddr : Cell → List Bool)
    (addr : Nat → List Bool) : Prop where
  grown :
    Grown o addr fun p => ∃ c, s.Started c ∧ cellAddr c = p
  base :
    PiperState.getBase ∈ o.nodes ∧
      addr PiperState.getBase = []
  current :
    ∀ c sf, s.frame? c = some sf →
      (order sf).current ∈ o.nodes ∧
        addr (order sf).current = cellAddr c
  children :
    ∀ c sf, s.frame? c = some sf → ∀ b,
      child (order sf) b ∈ o.nodes ∧
        addr (child (order sf) b) = cellAddr c ++ [b]

/-
  A node that stands at the address of a cell: the base node,
  or a child of a frame.
-/
def Offers
    (s : PiperState)
    (order : StageFrame → Order)
    (child : Order → Bool → Nat)
    (cellAddr : Cell → List Bool)
    (c : Cell) (n : Nat) : Prop :=
  (n = PiperState.getBase ∧ cellAddr c = []) ∨
    ∃ d sf b, s.frame? d = some sf ∧
      n = child (order sf) b ∧ cellAddr c = cellAddr d ++ [b]

theorem Listed.of_offers
    (h : Listed o s order child cellAddr addr)
    {c : Cell} {n : Nat}
    (hOffers : Offers s order child cellAddr c n) :
    n ∈ o.nodes ∧ addr n = cellAddr c := by
  rcases hOffers with ⟨rfl, hRoot⟩ | ⟨d, sf, b, hFrame, rfl, hc⟩
  · rw [hRoot]
    exact h.base
  · rw [hc]
    exact h.children d sf hFrame b

/-
  Two insertions for a stage that starts keep all nodes at
  the addresses of their cells.
-/
theorem Listed.start
    (h : Listed o s order child cellAddr addr)
    {c : Cell} {n : Nat} {new : StageFrame}
    (hOffers : Offers s order child cellAddr c n)
    (hNew : ∀ d, s.Started d → cellAddr d ≠ cellAddr c)
    (hFrames : ∀ d, s'.frame? d =
      if d = c then some new else s.frame? d)
    (hCurrent : (order new).current = n)
    (hFalse : child (order new) false = o.next)
    (hTrue : child (order new) true = o.next + 1) :
    ∃ addr',
      Listed ((o.insert n).2.insert o.next).2 s' order child
        cellAddr addr' := by
  rcases h.of_offers hOffers with ⟨hn, hAddr⟩
  have hLeaf : ∀ m ∈ o.nodes, addr n <+: addr m →
      addr m = addr n ∨
        ∃ e, true < e ∧ addr n ++ [e] <+: addr m := by
    intro m hm hPrefix
    refine Or.inl (h.grown.eq_of_prefix ?_ hm hPrefix)
    rintro ⟨d, hd, hEq⟩
    exact hNew d hd (hEq.trans hAddr)
  rcases h.grown.insert_two (c := false) (d := true)
    (by decide) hn hLeaf with
    ⟨addr', hGrown, hOld, hFirst, hSecond⟩
  rw [hAddr] at hGrown hFirst hSecond
  have hMem : ∀ m ∈ o.nodes,
      m ∈ ((o.insert n).2.insert o.next).2.nodes := by
    intro m hm
    have hMem₁ : m ∈ (o.insert n).2.nodes :=
      (OrderList.mem_insert hn).mpr (Or.inr hm)
    have hNext : o.next ∈ (o.insert n).2.nodes :=
      (OrderList.mem_insert hn).mpr (Or.inl rfl)
    exact (OrderList.mem_insert hNext).mpr (Or.inr hMem₁)
  have hNext : o.next ∈ (o.insert n).2.nodes :=
    (OrderList.mem_insert hn).mpr (Or.inl rfl)
  refine ⟨addr', ?_, ?_, ?_, ?_⟩
  · refine hGrown.mono ?_
    rintro p (⟨d, hd, hEq⟩ | rfl)
    · refine ⟨d, PiperState.started_iff.mpr ?_, hEq⟩
      rw [hFrames]
      split
      · exact ⟨new, rfl⟩
      · exact PiperState.started_iff.mp hd
    · refine ⟨c, PiperState.started_iff.mpr ?_, rfl⟩
      exact ⟨new, by rw [hFrames, if_pos rfl]⟩
  · exact ⟨hMem _ h.base.1,
      (hOld _ h.base.1).trans h.base.2⟩
  · intro d sf hFrame
    rw [hFrames] at hFrame
    by_cases hd : d = c
    · rw [if_pos hd] at hFrame
      cases hFrame
      rw [hCurrent, hd]
      exact ⟨hMem n hn, (hOld n hn).trans hAddr⟩
    · rw [if_neg hd] at hFrame
      have hCur := h.current d sf hFrame
      exact ⟨hMem _ hCur.1, (hOld _ hCur.1).trans hCur.2⟩
  · intro d sf hFrame b
    rw [hFrames] at hFrame
    by_cases hd : d = c
    · rw [if_pos hd] at hFrame
      cases hFrame
      rw [hd]
      cases b with
      | false =>
          rw [hFalse]
          exact ⟨(OrderList.mem_insert hNext).mpr
            (Or.inr hNext), hFirst⟩
      | true =>
          rw [hTrue]
          exact ⟨(OrderList.mem_insert hNext).mpr
            (Or.inl rfl), hSecond⟩
    · rw [if_neg hd] at hFrame
      have hChild := h.children d sf hFrame b
      exact ⟨hMem _ hChild.1,
        (hOld _ hChild.1).trans hChild.2⟩

/- Along an order, precedence compares addresses. -/
theorem Listed.precedes_iff
    (h : Listed o s order child cellAddr addr)
    {c d : Cell} {x y : StageFrame}
    (hx : s.frame? c = some x)
    (hy : s.frame? d = some y) :
    Precedes o.nodes (order x).current (order y).current ↔
      cellAddr c < cellAddr d := by
  have hxCur := h.current c x hx
  have hyCur := h.current d y hy
  rw [h.grown.increasing.precedes_iff hxCur.1 hyCur.1,
    hxCur.2, hyCur.2]

end Listed

------------------------------------------------------------
-- The Invariant
------------------------------------------------------------

namespace PiperState

structure Inv (P : Pipeline) (s : PiperState) : Prop where
  english :
    ∃ addr, Listed s.english s StageFrame.downFirst
      Order.englishChild Pipeline.englishAddr addr
  hebrew :
    ∃ addr, Listed s.hebrew s StageFrame.rightFirst
      Order.hebrewChild
      (fun c => P.hebrewAddr c.1 c.2) addr
  has : ∀ c, s.Started c → P.Has c
  number :
    ∀ c sf, s.frame? c = some sf →
      ∃ stage, (P.iteration c.1).stages[c.2]? = some stage ∧
        sf.stageNum = stage.number
  index :
    ∀ i k, (s.iterations i).frames.length = k + 1 →
      (s.iterations i).index = P.cursor i k

theorem inv_cilkPipeWhileBegin (P : Pipeline) :
    Inv P cilkPipeWhileBegin where
  english :=
    ⟨fun _ => [],
      { grown := Grown.singleton _ rfl
        base := ⟨by decide, rfl⟩
        current := by simp [frame?, cilkPipeWhileBegin]
        children := by simp [frame?, cilkPipeWhileBegin] }⟩
  hebrew :=
    ⟨fun _ => [],
      { grown := Grown.singleton _ rfl
        base := ⟨by decide, rfl⟩
        current := by simp [frame?, cilkPipeWhileBegin]
        children := by simp [frame?, cilkPipeWhileBegin] }⟩
  has := by simp [Started, cilkPipeWhileBegin]
  number := by simp [frame?, cilkPipeWhileBegin]
  index := by simp [cilkPipeWhileBegin]

variable {P : Pipeline} {s t : PiperState}
variable {i stageNum right down index : Nat}

/- Entering a stage at its addresses keeps the invariant. -/
theorem Inv.enter
    (h : Inv P s)
    (hHas : P.Has (s.nextCell i))
    (hEnglish : Offers s StageFrame.downFirst
      Order.englishChild Pipeline.englishAddr
      (s.nextCell i) down)
    (hHebrew : Offers s StageFrame.rightFirst
      Order.hebrewChild (fun c => P.hebrewAddr c.1 c.2)
      (s.nextCell i) right)
    (hNumber : ∃ stage,
      (P.iteration i).stages[(s.nextCell i).2]? =
        some stage ∧ stageNum = stage.number)
    (hIndex : index = P.cursor i (s.nextCell i).2) :
    Inv P (s.enter i stageNum right down index) := by
  have hNew : ∀ d, s.Started d → d ≠ s.nextCell i := by
    rintro d hd rfl
    exact s.not_started_nextCell i hd
  refine ⟨?_, ?_, ?_, ?_, ?_⟩
  · rcases h.english with ⟨addr, hListed⟩
    refine hListed.start hEnglish (fun d hd hEq => ?_)
      frame?_enter rfl rfl rfl
    exact hNew d hd (Pipeline.addr_injective (h.has d hd)
      hHas (Or.inl hEq))
  · rcases h.hebrew with ⟨addr, hListed⟩
    refine hListed.start hHebrew (fun d hd hEq => ?_)
      frame?_enter rfl rfl rfl
    exact hNew d hd (Pipeline.addr_injective (h.has d hd)
      hHas (Or.inr hEq))
  · intro c hc
    rcases (started_enter c).mp hc with rfl | hc
    · exact hHas
    · exact h.has c hc
  · intro c sf hFrame
    rw [frame?_enter] at hFrame
    by_cases hc : c = s.nextCell i
    · rw [if_pos hc] at hFrame
      cases hFrame
      rw [hc]
      exact hNumber
    · rw [if_neg hc] at hFrame
      exact h.number c sf hFrame
  · intro j k hLength
    by_cases hj : j = i
    · subst hj
      simp only [PiperState.enter, Function.update_self,
        List.length_append, List.length_singleton]
        at hLength ⊢
      rw [hIndex]
      congr 1
      exact Nat.succ_injective hLength
    · simp only [PiperState.enter, ne_eq, hj,
        not_false_eq_true, Function.update_of_ne]
        at hLength ⊢
      exact h.index j k hLength

------------------------------------------------------------
-- The Left Dependency
------------------------------------------------------------

/-
  The loop stops at the first frame numbered above `stage`,
  or right after the frame numbered `stage`.
-/
theorem leftLoop_spec
    (stage : Nat) (rest : List StageFrame)
    (hInc : rest.Pairwise fun a b => a.stageNum < b.stageNum)
    (index iPre : Nat) (hPre : iPre ≤ index) :
    ∃ m, m ≤ rest.length ∧
      (leftLoop stage rest index iPre).2.1 = index + m ∧
      max (leftLoop stage rest index iPre).1
        (leftLoop stage rest index iPre).2.2 =
          (if m = 0 then iPre else index + m - 1) ∧
      ∀ j sf, rest[j]? = some sf →
        (j < m ↔ sf.stageNum ≤ stage) := by
  induction rest generalizing index iPre with
  | nil => exact ⟨0, by simp [leftLoop]⟩
  | cons first rest ih =>
      rw [List.pairwise_cons] at hInc
      have hAbove : ∀ j sf, (first :: rest)[j + 1]? = some sf →
          first.stageNum < sf.stageNum := by
        intro j sf hSf
        rw [List.getElem?_cons_succ] at hSf
        exact hInc.1 sf (List.mem_of_getElem? hSf)
      unfold leftLoop
      by_cases hEq : first.stageNum = stage
      · refine ⟨1, by simp, ?_, ?_, ?_⟩
        · simp [hEq]
        · simp [hEq, hPre]
        · intro j sf hSf
          cases j with
          | zero =>
              obtain rfl : first = sf := by simpa using hSf
              simp [hEq]
          | succ j =>
              have := hAbove j sf hSf
              omega
      · by_cases hLt : first.stageNum < stage
        · rcases ih hInc.2 (index + 1) index
            (Nat.le_succ index) with
            ⟨m, hm, hIndex, hMax, hCount⟩
          refine ⟨m + 1, by simpa using hm, ?_, ?_, ?_⟩
          · simp only [if_neg hEq, if_pos hLt, hIndex]
            omega
          · simp only [if_neg hEq, if_pos hLt, hMax,
              if_neg (Nat.succ_ne_zero m)]
            split <;> omega
          · intro j sf hSf
            cases j with
            | zero =>
                obtain rfl : first = sf := by
                  simpa using hSf
                simp [hLt.le]
            | succ j =>
                rw [List.getElem?_cons_succ] at hSf
                rw [Nat.succ_lt_succ_iff]
                exact hCount j sf hSf
        · refine ⟨0, Nat.zero_le _, ?_, ?_, ?_⟩
          · simp [hEq, hLt]
          · simp [hEq, hLt]
          · intro j sf hSf
            have hLe : first.stageNum ≤ sf.stageNum := by
              cases j with
              | zero =>
                  obtain rfl : first = sf := by
                    simpa using hSf
                  exact le_refl _
              | succ j => exact (hAbove j sf hSf).le
            omega

/- The frame at a position is numbered as its stage. -/
theorem Inv.stageNum_le_iff
    (h : Inv P s)
    {j n : Nat} {sf : StageFrame}
    (hFrame : s.frame? (i, j) = some sf) :
    sf.stageNum ≤ n ↔ j < P.countUpTo i n := by
  rcases h.number (i, j) sf hFrame with
    ⟨stage, hStage, hNumber⟩
  rw [hNumber, P.lt_countUpTo_iff hStage]

/- The frames of an iteration are numbered increasingly. -/
theorem Inv.frames_increasing
    (h : Inv P s) (i : Nat) :
    (s.iterations i).frames.Pairwise fun a b =>
      a.stageNum < b.stageNum := by
  rw [List.pairwise_iff_getElem]
  intro k l hk hl hkl
  rcases h.number (i, k) _ (List.getElem?_eq_getElem hk) with
    ⟨first, hFirst, hFirstNum⟩
  rcases h.number (i, l) _ (List.getElem?_eq_getElem hl) with
    ⟨second, hSecond, hSecondNum⟩
  rw [hFirstNum, hSecondNum]
  rcases List.getElem?_eq_some_iff.mp hFirst with ⟨hk', rfl⟩
  rcases List.getElem?_eq_some_iff.mp hSecond with ⟨hl', rfl⟩
  exact List.pairwise_iff_getElem.mp
    (P.iteration i).stages_increasing k l hk' hl' hkl

/- A wait stage is entered after all it waits for. -/
theorem countUpTo_le_frames
    {k : Nat} {own : Stage}
    (hPos : 1 ≤ i)
    (hHas : P.Has (i + 1, k))
    (hOwn : (P.iteration (i + 1)).stages[k]? = some own)
    (hWaits : own.waits = true)
    (hReady : ∀ c, P.Edge c (i + 1, k) → s.Started c) :
    P.countUpTo i own.number ≤
      (s.iterations i).frames.length := by
  by_contra hNot
  have hLt := not_le.mp hNot
  have hLength := P.countUpTo_le i own.number
  have hl : (s.iterations i).frames.length <
      (P.iteration i).stages.length :=
    lt_of_lt_of_le hLt hLength
  have hStage := List.getElem?_eq_getElem hl
  have hLeft : P.Has (i, (s.iterations i).frames.length) :=
    ⟨hPos, Nat.le_of_succ_le hHas.2.1, hl⟩
  exact s.not_started_nextCell i (hReady _
    (Pipeline.Edge.wait i _ k _ own hLeft hHas hStage hOwn
      hWaits ((P.lt_countUpTo_iff hStage).mp hLt)))

/-
  The left dependency of the next stage is the last left
  stage up to its number, unless the cursor is past it.
-/
theorem Inv.getLeftDependency
    (h : Inv P s)
    {k : Nat} {own : Stage}
    (hPos : 1 ≤ i)
    (hLength : (s.iterations (i + 1)).frames.length = k + 1)
    (hHas : P.Has (i + 1, k + 1))
    (hOwn :
      (P.iteration (i + 1)).stages[k + 1]? = some own)
    (hWaits : own.waits = true)
    (hReady : ∀ c, P.Edge c (i + 1, k + 1) → s.Started c) :
    s.getLeftDependency (i + 1) own.number =
      ((if P.cursor (i + 1) k < P.cursor (i + 1) (k + 1) then
          P.cursor (i + 1) (k + 1) - 1
        else 0),
        { s with
          iterations := Function.update s.iterations (i + 1)
            { frames := (s.iterations (i + 1)).frames
              index := P.cursor (i + 1) (k + 1) } }) := by
  have hIndex := h.index (i + 1) k hLength
  have hBound := countUpTo_le_frames hPos hHas hOwn hWaits
    hReady
  have hCursor :
      P.cursor (i + 1) (k + 1) =
        max (P.cursor (i + 1) k)
          (P.countUpTo i own.number) := by
    have hne : i ≠ 0 := Nat.pos_iff_ne_zero.mp hPos
    rw [Pipeline.cursor, hOwn]
    simp [hWaits, hne]
  have hInc :
      ((s.iterations i).frames.drop
        (P.cursor (i + 1) k)).Pairwise
          fun a b => a.stageNum < b.stageNum :=
    (h.frames_increasing i).sublist (List.drop_sublist _ _)
  rcases leftLoop_spec own.number _ hInc
    (P.cursor (i + 1) k) 0 (Nat.zero_le _) with
    ⟨m, hm, hLoopIndex, hMax, hCount⟩
  rw [List.length_drop] at hm
  -- The loop passes exactly the frames that are counted.
  have hPassed : ∀ j,
      P.cursor (i + 1) k + j < (s.iterations i).frames.length →
      (j < m ↔ P.cursor (i + 1) k + j <
        P.countUpTo i own.number) := by
    intro j hj
    have hFrame := List.getElem?_eq_getElem hj
    rw [hCount j _ (by rw [List.getElem?_drop, hFrame])]
    exact h.stageNum_le_iff hFrame
  have hEnd :
      P.cursor (i + 1) k + m = P.cursor (i + 1) (k + 1) := by
    rw [hCursor]
    rcases Nat.eq_zero_or_pos m with rfl | hmPos
    · have := hPassed 0
      omega
    · have := hPassed (m - 1)
      have := hPassed m
      omega
  unfold PiperState.getLeftDependency
  simp only [hIndex, Nat.add_sub_cancel]
  refine Prod.ext ?_ ?_
  · simp only [hMax]
    split <;> split <;> omega
  · simp only [hLoopIndex, hEnd]

------------------------------------------------------------
-- The Hooks
------------------------------------------------------------

/- The current nodes of a stage stand at its addresses. -/
structure Current
    (P : Pipeline) (s : PiperState)
    (c : Cell) (right down : Nat) : Prop where
  english :
    Offers s StageFrame.downFirst Order.englishChild
      Pipeline.englishAddr c down
  hebrew :
    Offers s StageFrame.rightFirst Order.hebrewChild
      (fun c => P.hebrewAddr c.1 c.2) c right

/- Below the previous stage of the iteration in english. -/
theorem offers_down
    {k : Nat} {parent : StageFrame}
    (hParent : s.frame? (i, k) = some parent) :
    Offers s StageFrame.downFirst Order.englishChild
      Pipeline.englishAddr (i, k + 1)
      parent.downFirst.downCont := by
  refine Or.inr ⟨(i, k), parent, false, hParent, rfl, ?_⟩
  simp [Pipeline.englishAddr, List.replicate_succ']

/- Below the previous stage in hebrew, if there is no jump. -/
theorem offers_up
    {k : Nat} {parent : StageFrame}
    (hParent : s.frame? (i + 1, k) = some parent)
    (hStays :
      ¬ P.cursor (i + 1) k < P.cursor (i + 1) (k + 1)) :
    Offers s StageFrame.rightFirst Order.hebrewChild
      (fun c => P.hebrewAddr c.1 c.2) (i + 1, k + 1)
      parent.rightFirst.downCont :=
  Or.inr ⟨(i + 1, k), parent, true, hParent, rfl,
    P.hebrewAddr_up hStays⟩

/- The last frame of a list is the one before the next cell. -/
theorem getLast?_eq_frame?
    {k : Nat}
    (hLength : (s.iterations i).frames.length = k + 1) :
    (s.iterations i).frames.getLast? = s.frame? (i, k) := by
  rw [List.getLast?_eq_getElem?, hLength]
  rfl

theorem cilkStageFirst_eq_enter
    (hHas : P.Has (i, 0))
    (hLength : (s.iterations i).frames.length = 0)
    (hReady : ∀ c, P.Edge c (i, 0) → s.Started c) :
    ∃ right down, Current P s (i, 0) right down ∧
      s.cilkStageFirst i =
        some (s.enter i 0 right down 1) := by
  have hNil : (s.iterations i).frames = [] :=
    List.eq_nil_of_length_eq_zero hLength
  have hPos := hHas.1
  by_cases hFirst : i = 1
  · subst hFirst
    refine ⟨getBase, getBase, ⟨?_, ?_⟩, ?_⟩
    · exact Or.inl ⟨rfl, rfl⟩
    · have hRoot : P.hebrewAddr 1 0 = [] := by
        rw [Pipeline.hebrewAddr]
      exact Or.inl ⟨rfl, hRoot⟩
    · simp [cilkStageFirst, PiperState.enter, hNil,
        insertStageFrameList]
  · obtain ⟨i, rfl⟩ : ∃ j, i = j + 1 := ⟨i - 1, by omega⟩
    have hLeftPos : 1 ≤ i := by omega
    have hLeft : P.Has (i, 0) :=
      ⟨hLeftPos, Nat.le_of_succ_le hHas.2.1, by
        simp [Iteration.stages]⟩
    rcases started_iff.mp (hReady _
      (Pipeline.Edge.first i hLeft hHas)) with
      ⟨sibling, hSibling⟩
    refine ⟨sibling.rightFirst.rightCont,
      sibling.downFirst.rightCont, ⟨?_, ?_⟩, ?_⟩
    · refine Or.inr ⟨(i, 0), sibling, true, hSibling, rfl, ?_⟩
      obtain ⟨j, rfl⟩ : ∃ j, i = j + 1 := ⟨i - 1, by omega⟩
      simp [Pipeline.englishAddr, List.replicate_succ']
    · exact Or.inr ⟨(i, 0), sibling, false, hSibling, rfl,
        P.hebrewAddr_first i hLeftPos⟩
    · have hGet :
          (s.iterations i).frames[0]? = some sibling :=
        hSibling
      have hLater : 0 < i := hLeftPos
      simp [cilkStageFirst, PiperState.enter, hNil,
        insertStageFrameList, hGet, hLater]

/- Appending the new frame after a move of the cursor. -/
theorem append_createOrder
    (s : PiperState) (i n right down index : Nat) :
    let s₁ : PiperState :=
      { s with
        iterations := Function.update s.iterations i
          { frames := (s.iterations i).frames
            index := index } }
    (s₁.createOrder i n right down).2.append i
        (s₁.createOrder i n right down).1 =
      s.enter i n right down index := by
  simp [append, PiperState.enter, createOrder]

theorem Inv.cilkStage_eq_enter
    (h : Inv P s)
    {k n : Nat}
    (hLength : (s.iterations (i + 1)).frames.length = k + 1)
    (hStays :
      P.cursor (i + 1) (k + 1) = P.cursor (i + 1) k) :
    ∃ right down, Current P s (i + 1, k + 1) right down ∧
      s.cilkStage (i + 1) n =
        some (s.enter (i + 1) n right down
          (P.cursor (i + 1) (k + 1))) := by
  rcases started_iff.mp
    (show s.Started (i + 1, k) by simp [Started, hLength])
    with ⟨parent, hParent⟩
  refine ⟨parent.rightFirst.downCont,
    parent.downFirst.downCont,
    ⟨offers_down hParent,
      offers_up hParent hStays.not_gt⟩, ?_⟩
  unfold cilkStage
  rw [getLast?_eq_frame? hLength, hParent]
  have hIndex := h.index (i + 1) k hLength
  have hAppend := append_createOrder s (i + 1) n
    parent.rightFirst.downCont parent.downFirst.downCont
    (s.iterations (i + 1)).index
  rw [Function.update_eq_self] at hAppend
  rw [hStays, ← hIndex]
  exact congrArg some hAppend

theorem Inv.cilkStageWait_eq_enter
    (h : Inv P s)
    {k : Nat} {own : Stage}
    (hLength : (s.iterations (i + 1)).frames.length = k + 1)
    (hHas : P.Has (i + 1, k + 1))
    (hOwn :
      (P.iteration (i + 1)).stages[k + 1]? = some own)
    (hWaits : own.waits = true)
    (hReady : ∀ c, P.Edge c (i + 1, k + 1) → s.Started c) :
    ∃ right down, Current P s (i + 1, k + 1) right down ∧
      s.cilkStageWait (i + 1) own.number =
        some (s.enter (i + 1) own.number right down
          (P.cursor (i + 1) (k + 1))) := by
  rcases started_iff.mp
    (show s.Started (i + 1, k) by simp [Started, hLength])
    with ⟨parent, hParent⟩
  unfold cilkStageWait
  rw [getLast?_eq_frame? hLength, hParent]
  by_cases hPos : 1 ≤ i
  · have hLeft := h.getLeftDependency hPos hLength hHas hOwn
      hWaits hReady
    have hLater : 1 < i + 1 := Nat.lt_succ_of_le hPos
    simp only [if_pos hLater, hLeft, Nat.add_sub_cancel]
    by_cases hGrows :
        P.cursor (i + 1) k < P.cursor (i + 1) (k + 1)
    · -- The frame hangs to the right of a new dependency.
      have hOld := P.one_le_cursor (i + 1) k
      have hNonzero : P.cursor (i + 1) (k + 1) - 1 ≠ 0 := by
        omega
      obtain ⟨j, rfl⟩ : ∃ j, i = j + 1 := ⟨i - 1, by omega⟩
      have hBound := countUpTo_le_frames hPos hHas hOwn
        hWaits hReady
      rcases P.cursor_grows hGrows with
        ⟨stage, hStage, -, hCount⟩
      obtain rfl : own = stage := by
        rw [hOwn] at hStage
        exact Option.some.inj hStage
      have hStarted : s.Started
          (j + 1, P.cursor (j + 1 + 1) (k + 1) - 1) := by
        simp only [Nat.add_sub_cancel] at hCount
        show P.cursor (j + 1 + 1) (k + 1) - 1 <
          (s.iterations (j + 1)).frames.length
        omega
      rcases started_iff.mp hStarted with ⟨sibling, hSibling⟩
      refine ⟨sibling.rightFirst.rightCont,
        parent.downFirst.downCont,
        ⟨offers_down hParent, ?_⟩, ?_⟩
      · exact Or.inr ⟨_, sibling, false, hSibling, rfl,
          P.hebrewAddr_left hGrows⟩
      · have hGet : (s.iterations (j + 1)).frames[
            P.cursor (j + 1 + 1) (k + 1) - 1]? =
            some sibling := hSibling
        have hne : j + 1 ≠ j + 1 + 1 := Nat.ne_add_one _
        simp only [if_pos hGrows, ne_eq, hNonzero,
          not_false_eq_true, if_true,
          Function.update_of_ne hne, hGet]
        exact congrArg some (append_createOrder s _ _ _ _ _)
    · refine ⟨parent.rightFirst.downCont,
        parent.downFirst.downCont,
        ⟨offers_down hParent, offers_up hParent hGrows⟩, ?_⟩
      simp only [if_neg hGrows, ne_eq, not_true_eq_false,
        if_false]
      exact congrArg some (append_createOrder s _ _ _ _ _)
  · obtain rfl : i = 0 := by omega
    have hStays : ¬ P.cursor (0 + 1) k <
        P.cursor (0 + 1) (k + 1) := by
      simp [Pipeline.cursor_one]
    have hStage := h.cilkStage_eq_enter (n := own.number)
      hLength (by simp [Pipeline.cursor_one])
    unfold cilkStage at hStage
    rw [getLast?_eq_frame? hLength, hParent] at hStage
    simpa using hStage

/-
  Every hook that may run enters its stage, with current
  nodes at the two addresses of the stage.
-/
theorem Inv.hook_eq_enter
    (h : Inv P s)
    (hHas : P.Has (s.nextCell i))
    (hReady : ∀ c,
      P.Edge c (s.nextCell i) → s.Started c) :
    ∃ stage right down,
      (P.iteration i).stages[(s.nextCell i).2]? = some stage ∧
      Current P s (s.nextCell i) right down ∧
      s.hook P i = some (s.enter i stage.number right down
        (P.cursor i (s.nextCell i).2)) := by
  obtain ⟨i, rfl⟩ : ∃ j, i = j + 1 :=
    ⟨i - 1, (Nat.sub_add_cancel hHas.1).symm⟩
  unfold hook
  cases hLength : (s.iterations (i + 1)).frames.length with
  | zero =>
      have hNext : s.nextCell (i + 1) = (i + 1, 0) := by
        rw [nextCell, hLength]
      rw [hNext] at hHas hReady ⊢
      rcases cilkStageFirst_eq_enter hHas hLength hReady with
        ⟨right, down, hCurrent, hHook⟩
      exact ⟨_, right, down, rfl, hCurrent, hHook⟩
  | succ k =>
      have hNext : s.nextCell (i + 1) = (i + 1, k + 1) := by
        rw [nextCell, hLength]
      rw [hNext] at hHas hReady ⊢
      rcases hHas.exists_stage with
        ⟨⟨number, waits⟩, hOwn⟩
      simp only [hOwn]
      cases waits with
      | true =>
          rcases h.cilkStageWait_eq_enter hLength hHas hOwn rfl
            hReady with ⟨right, down, hCurrent, hHook⟩
          exact ⟨_, right, down, rfl, hCurrent,
            by simpa using hHook⟩
      | false =>
          have hStays : P.cursor (i + 1) (k + 1) =
              P.cursor (i + 1) k := by
            rw [Pipeline.cursor, hOwn]
            simp
          rcases h.cilkStage_eq_enter (n := number) hLength
            hStays with ⟨right, down, hCurrent, hHook⟩
          exact ⟨_, right, down, rfl, hCurrent,
            by simpa using hHook⟩

/- The invariant holds in every reachable state. -/
theorem inv_of_reachable
    (hReach : (pipelineSystem P).Reachable s) :
    Inv P s := by
  refine TransitionSystem.Reachable.invariant
    (P := Inv P) ?_ ?_ hReach
  · rintro s rfl
    exact inv_cilkPipeWhileBegin P
  · rintro s i t h ⟨hHas, hReady, hHook⟩
    rcases h.hook_eq_enter hHas hReady with
      ⟨stage, right, down, hStage, hCurrent, hEnter⟩
    obtain rfl : s.enter i stage.number right down _ = t :=
      Option.some.inj (hEnter.symm.trans hHook)
    exact h.enter hHas hCurrent.english hCurrent.hebrew
      ⟨stage, hStage, rfl⟩ rfl

/- A hook that may run never fails. -/
theorem exists_step
    (hReach : (pipelineSystem P).Reachable s)
    (hHas : P.Has (s.nextCell i))
    (hReady : ∀ c,
      P.Edge c (s.nextCell i) → s.Started c) :
    ∃ t, (pipelineSystem P).step s i t := by
  rcases (inv_of_reachable hReach).hook_eq_enter hHas hReady
    with ⟨stage, right, down, -, -, hEnter⟩
  exact ⟨_, hHas, hReady, hEnter⟩

------------------------------------------------------------
-- 2D-Order
------------------------------------------------------------

def PrecedesInEnglish
    (s : PiperState) (x y : StageFrame) : Prop :=
  Precedes s.english.nodes x.downFirst.current
    y.downFirst.current

def PrecedesInHebrew
    (s : PiperState) (x y : StageFrame) : Prop :=
  Precedes s.hebrew.nodes x.rightFirst.current
    y.rightFirst.current

variable {c d : Cell} {x y : StageFrame}

theorem Inv.precedesInEnglish_iff
    (h : Inv P s)
    (hx : s.frame? c = some x)
    (hy : s.frame? d = some y) :
    s.PrecedesInEnglish x y ↔
      Pipeline.englishAddr c < Pipeline.englishAddr d := by
  rcases h.english with ⟨addr, hListed⟩
  exact hListed.precedes_iff hx hy

theorem Inv.precedesInHebrew_iff
    (h : Inv P s)
    (hx : s.frame? c = some x)
    (hy : s.frame? d = some y) :
    s.PrecedesInHebrew x y ↔
      P.hebrewAddr c.1 c.2 < P.hebrewAddr d.1 d.2 := by
  rcases h.hebrew with ⟨addr, hListed⟩
  exact hListed.precedes_iff hx hy

/- Frames of different cells have different current nodes. -/
theorem Inv.current_ne
    (h : Inv P s)
    (hx : s.frame? c = some x)
    (hy : s.frame? d = some y)
    (hne : c ≠ d) :
    x.downFirst.current ≠ y.downFirst.current ∧
      x.rightFirst.current ≠ y.rightFirst.current := by
  have hc := h.has c (started_iff.mpr ⟨x, hx⟩)
  have hd := h.has d (started_iff.mpr ⟨y, hy⟩)
  rcases h.english with ⟨eAddr, hEnglish⟩
  rcases h.hebrew with ⟨hAddr, hHebrew⟩
  constructor
  · intro hSame
    refine hne (Pipeline.addr_injective hc hd (Or.inl ?_))
    rw [← (hEnglish.current c x hx).2,
      ← (hEnglish.current d y hy).2, hSame]
  · intro hSame
    refine hne (Pipeline.addr_injective hc hd (Or.inr ?_))
    rw [← (hHebrew.current c x hx).2,
      ← (hHebrew.current d y hy).2, hSame]

/-
  Of two stages that have started, one reaches the other
  exactly when both orders put it first, and they are
  parallel exactly when the orders disagree.  Their nodes
  differ, and every other execution of the pipeline orders
  them in the same way.
-/
theorem twoDOrder
    (P : Pipeline)
    (s : PiperState)
    (hReach : (pipelineSystem P).Reachable s)
    (c d : Cell) (x y : StageFrame)
    (hx : s.frame? c = some x)
    (hy : s.frame? d = some y)
    (hne : c ≠ d) :
    (P.Reaches c d ↔
      s.PrecedesInEnglish x y ∧ s.PrecedesInHebrew x y) ∧
    (P.Parallel c d ↔
      (s.PrecedesInEnglish x y ∧ s.PrecedesInHebrew y x) ∨
        (s.PrecedesInEnglish y x ∧
          s.PrecedesInHebrew x y)) ∧
    (x.downFirst.current ≠ y.downFirst.current ∧
      x.rightFirst.current ≠ y.rightFirst.current) ∧
    ∀ (s' : PiperState) (x' y' : StageFrame),
      (pipelineSystem P).Reachable s' →
      s'.frame? c = some x' → s'.frame? d = some y' →
      (s'.PrecedesInEnglish x' y' ↔
        s.PrecedesInEnglish x y) ∧
      (s'.PrecedesInHebrew x' y' ↔
        s.PrecedesInHebrew x y) := by
  have h := inv_of_reachable hReach
  have hc := h.has c (started_iff.mpr ⟨x, hx⟩)
  have hd := h.has d (started_iff.mpr ⟨y, hy⟩)
  have hEnglish := h.precedesInEnglish_iff hx hy
  have hEnglish' := h.precedesInEnglish_iff hy hx
  have hHebrew := h.precedesInHebrew_iff hx hy
  have hHebrew' := h.precedesInHebrew_iff hy hx
  refine ⟨?_, ?_, h.current_ne hx hy hne, ?_⟩
  · rw [hEnglish, hHebrew]
    exact Pipeline.reaches_iff hc hd
  · unfold Pipeline.Parallel
    rw [Pipeline.reaches_iff hc hd,
      Pipeline.reaches_iff hd hc, hEnglish, hEnglish',
      hHebrew, hHebrew']
    have hEnglishNe :
        Pipeline.englishAddr c ≠ Pipeline.englishAddr d :=
      fun hEq => hne
        (Pipeline.addr_injective hc hd (Or.inl hEq))
    have hHebrewNe :
        P.hebrewAddr c.1 c.2 ≠ P.hebrewAddr d.1 d.2 :=
      fun hEq => hne
        (Pipeline.addr_injective hc hd (Or.inr hEq))
    rcases hEnglishNe.lt_or_gt with hE | hE <;>
      rcases hHebrewNe.lt_or_gt with hH | hH <;>
      simp [hE, hH, hE.not_gt, hH.not_gt]
  · intro s' x' y' hReach' hx' hy'
    have h' := inv_of_reachable hReach'
    exact ⟨(h'.precedesInEnglish_iff hx' hy').trans
        hEnglish.symm,
      (h'.precedesInHebrew_iff hx' hy').trans hHebrew.symm⟩

/- Two iterations with a wait stage 1 each. -/
def twoIterations : Pipeline where
  count := 2
  iteration := fun _ =>
    { later := [{ number := 1, waits := true }]
      increasing := by decide }

/- Both first stages have started, and stage 1 of the left. -/
def threeStages : PiperState :=
  ((cilkPipeWhileBegin.enter 1 0 0 0 1).enter
    2 0 1 2 1).enter 1 1 2 1 1

/- The first iteration waits for nobody. -/
private theorem ready_first
    {s : PiperState} {k : Nat} {c : Cell}
    (hEdge : twoIterations.Edge c (1, k))
    (hUp : ∀ l, k = l + 1 → s.Started (1, l)) :
    s.Started c := by
  generalize hTarget : ((1, k) : Cell) = target at hEdge
  cases hEdge with
  | next i l _ =>
      cases hTarget
      exact hUp l rfl
  | first i hHas _ =>
      cases hTarget
      exact absurd hHas.1 (Nat.not_succ_le_zero 0)
  | wait i l k left own hHas =>
      cases hTarget
      exact absurd hHas.1 (Nat.not_succ_le_zero 0)

theorem threeStages_reachable :
    (pipelineSystem twoIterations).Reachable threeStages := by
  have hInit : (pipelineSystem twoIterations).Reachable
      cilkPipeWhileBegin :=
    TransitionSystem.Reachable.of_init rfl
  have hFirst : (pipelineSystem twoIterations).Reachable
      (cilkPipeWhileBegin.enter 1 0 0 0 1) := by
    refine hInit.step (a := 1)
      ⟨⟨by decide, by decide, by decide⟩, ?_, rfl⟩
    intro c hEdge
    exact ready_first hEdge fun l hl => by cases hl
  have hSecond : (pipelineSystem twoIterations).Reachable
      ((cilkPipeWhileBegin.enter 1 0 0 0 1).enter
        2 0 1 2 1) := by
    refine hFirst.step (a := 2)
      ⟨⟨by decide, by decide, by decide⟩, ?_, rfl⟩
    intro c hEdge
    generalize hTarget : (PiperState.nextCell _ 2) = target
      at hEdge
    cases hEdge with
    | next i l _ => cases hTarget
    | first i _ _ =>
        cases hTarget
        exact started_iff.mpr ⟨_, rfl⟩
    | wait i l k left own _ _ _ hOwn hWaits =>
        cases hTarget
        cases hOwn
        cases hWaits
  refine hSecond.step (a := 1)
    ⟨⟨by decide, by decide, by decide⟩, ?_, rfl⟩
  intro c hEdge
  refine ready_first hEdge fun l hl => ?_
  cases hl
  exact started_iff.mpr ⟨_, rfl⟩

/- Stage 1 of the left and stage 0 of the right iteration. -/
theorem threeStages_parallel :
    ∃ x y,
      threeStages.frame? (1, 1) = some x ∧
      threeStages.frame? (2, 0) = some y ∧
      (twoIterations.Parallel (1, 1) (2, 0) ↔
        (threeStages.PrecedesInEnglish x y ∧
          threeStages.PrecedesInHebrew y x) ∨
        (threeStages.PrecedesInEnglish y x ∧
          threeStages.PrecedesInHebrew x y)) :=
  ⟨_, _, rfl, rfl,
    (twoDOrder twoIterations threeStages
      threeStages_reachable (1, 1) (2, 0) _ _ rfl rfl
      (by decide)).2.1⟩

end PiperState

end PRacer
