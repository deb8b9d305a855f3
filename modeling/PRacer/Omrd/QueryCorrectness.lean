import PRacer.Omrd.Query

/-
  Queries that overlap relabels are right.

  While no relabel runs, nothing changes the fields that a
  query of two old nodes reads.  An attempt that finds the
  counter where it was, and even, has read them all in such a
  time.

  Main declarations:
    * `Fields`, `HasFields`, `Agrees`
    * `DetectorInv`
    * `query_answers_order`, `query_ends`
-/

------------------------------------------------------------
-- Fields of a Node
------------------------------------------------------------

namespace PRacer

open Foundations OrderMaint

namespace Omrd

/- What a query reads for one node. -/
structure Fields where
  list : Nat
  label : Label
  above : Nat
  top : Label

structure HasFields
    (m : Mem) (x : Nat) (f : Fields) : Prop where
  node : ∃ n, m.nodes.get x = some n ∧ n.list = f.list ∧
    n.label = f.label
  list : ∃ l, m.lists.get f.list = some l ∧
    l.above = some f.above
  top : ∃ t, m.tls.get f.above = some t ∧ t.label = f.top

/- The answer that the fields of two nodes give. -/
def answer (f g : Fields) : Bool :=
  if f.list = g.list then decide (f.label < g.label)
  else decide (f.top < g.top)

theorem HasFields.omPrecedes_eq
    {m : Mem} {x y : Nat} {f g : Fields}
    (hx : HasFields m x f)
    (hy : HasFields m y g) :
    omPrecedes m (some x) (some y) =
      Except.ok (answer f g) := by
  rcases hx.node with ⟨n, hGetX, hListX, hLabelX⟩
  rcases hy.node with ⟨k, hGetY, hListY, hLabelY⟩
  rcases hx.list with ⟨i, hGetI, hAboveI⟩
  rcases hy.list with ⟨j, hGetJ, hAboveJ⟩
  rcases hx.top with ⟨s, hGetS, hTopS⟩
  rcases hy.top with ⟨t, hGetT, hTopT⟩
  unfold omPrecedes answer
  dsimp only
  rw [Mem.load_of_get hGetX, ok_bind, Mem.load_of_get hGetY,
    ok_bind, hListX, hListY]
  split
  · rw [hLabelX, hLabelY]
    rfl
  · rw [Mem.load_of_get hGetI, ok_bind,
      Mem.load_of_get hGetJ, ok_bind, hAboveI, hAboveJ,
      deref_some, ok_bind, deref_some, ok_bind,
      Mem.load_of_get hGetS, ok_bind,
      Mem.load_of_get hGetT, ok_bind, hTopS, hTopT]
    rfl

/- A node in order has its fields. -/
theorem exists_fields
    {cfg : Config} {s : OmState} {t : Shape}
    {yss : List (List (Nat × Label))} {x : Nat}
    (h : Maintained cfg s t yss)
    (hx : x ∈ s.order) :
    ∃ f, HasFields s.mem x f := by
  rcases placed_of_mem h hx with ⟨p, l, hPlaced, -⟩
  rcases hPlaced.node with ⟨n, hNode, hList⟩
  rcases hPlaced.leaf.down with ⟨a, hTop, -⟩
  exact ⟨⟨l, n.label, p, a.label⟩, ⟨n, hNode, hList, rfl⟩,
    hPlaced.leaf.up, a, hTop, rfl⟩

theorem Frame.hasFields
    {m m' : Mem} {order : List Nat} {x : Nat} {f : Fields}
    (hFrame : Frame m m' order)
    (hx : x ∈ order)
    (h : HasFields m x f) :
    HasFields m' x f := by
  rcases h.node with ⟨n, hNode, hList, hLabel⟩
  rcases hFrame.node x hx n hNode with
    ⟨n', hNode', hList', hLabel'⟩
  rcases h.list with ⟨l, hGet, hAbove⟩
  rcases hFrame.above _ l hGet with ⟨l', hGet', hAbove'⟩
  refine ⟨⟨n', hNode', hList'.trans hList,
    hLabel'.trans hLabel⟩, ⟨l', hGet', hAbove'.trans hAbove⟩,
    ?_⟩
  rw [hFrame.tls]
  exact h.top

------------------------------------------------------------
-- What a Query Has Read
------------------------------------------------------------

/- The values that a call of `om_precedes` has read. -/
def Agrees (f g : Fields) : PrecedesPc → Prop
| .listX => True
| .listY l => l = f.list
| .labelX => f.list = g.list
| .labelY a => f.list = g.list ∧ a = f.label
| .topListX => f.list ≠ g.list
| .topAboveX l => f.list ≠ g.list ∧ l = f.list
| .topX p => f.list ≠ g.list ∧ p = f.above
| .topListY a => f.list ≠ g.list ∧ a = f.top
| .topAboveY a l => f.list ≠ g.list ∧ a = f.top ∧ l = g.list
| .topY a p => f.list ≠ g.list ∧ a = f.top ∧ p = g.above
| .done b => b = answer f g

section Fields

variable {m : Mem} {x : Nat} {f : Fields}

theorem HasFields.readList
    {l : Nat}
    (h : HasFields m x f)
    (hRead : Reads ((m.nodes.get x).map BlNode.list) l) :
    l = f.list := by
  rcases h.node with ⟨n, hGet, hList, -⟩
  rw [hGet] at hRead
  exact (hRead _ rfl).trans hList

theorem HasFields.readLabel
    {a : Label}
    (h : HasFields m x f)
    (hRead : Reads ((m.nodes.get x).map BlNode.label) a) :
    a = f.label := by
  rcases h.node with ⟨n, hGet, -, hLabel⟩
  rw [hGet] at hRead
  exact (hRead _ rfl).trans hLabel

theorem HasFields.readAbove
    {p : Nat}
    (h : HasFields m x f)
    (hRead : Reads
      ((m.lists.get f.list).bind BList.above) p) :
    p = f.above := by
  rcases h.list with ⟨l, hGet, hAbove⟩
  rw [hGet] at hRead
  exact hRead _ hAbove

theorem HasFields.readTop
    {a : Label}
    (h : HasFields m x f)
    (hRead : Reads
      ((m.tls.get f.above).map TlNode.label) a) :
    a = f.top := by
  rcases h.top with ⟨t, hGet, hTop⟩
  rw [hGet] at hRead
  exact (hRead _ rfl).trans hTop

end Fields

/- A read adds a value that is right. -/
theorem Agrees.step
    {m : Mem} {x y : Nat} {f g : Fields}
    {pc pc' : PrecedesPc}
    (h : Agrees f g pc)
    (hx : HasFields m x f)
    (hy : HasFields m y g)
    (hStep : precedesStep m x y pc pc') :
    Agrees f g pc' := by
  cases pc with
  | listX =>
      rcases hStep with ⟨l, hRead, rfl⟩
      exact hx.readList hRead
  | listY lx =>
      rcases hStep with ⟨l, hRead, rfl⟩
      have hl := hy.readList hRead
      cases (show lx = f.list from h)
      subst hl
      split
      · assumption
      · assumption
  | labelX =>
      rcases hStep with ⟨a, hRead, rfl⟩
      exact ⟨h, hx.readLabel hRead⟩
  | labelY a =>
      rcases hStep with ⟨b, hRead, rfl⟩
      cases h.2
      cases hy.readLabel hRead
      exact (if_pos h.1).symm
  | topListX =>
      rcases hStep with ⟨l, hRead, rfl⟩
      exact ⟨h, hx.readList hRead⟩
  | topAboveX l =>
      rcases hStep with ⟨p, hRead, rfl⟩
      cases h.2
      exact ⟨h.1, hx.readAbove hRead⟩
  | topX p =>
      rcases hStep with ⟨a, hRead, rfl⟩
      cases h.2
      exact ⟨h.1, hx.readTop hRead⟩
  | topListY a =>
      rcases hStep with ⟨l, hRead, rfl⟩
      exact ⟨h.1, h.2, hy.readList hRead⟩
  | topAboveY a l =>
      rcases hStep with ⟨p, hRead, rfl⟩
      cases h.2.2
      exact ⟨h.1, h.2.1, hy.readAbove hRead⟩
  | topY a p =>
      rcases hStep with ⟨b, hRead, rfl⟩
      cases h.2.1
      cases h.2.2
      cases hy.readTop hRead
      exact (if_neg h.1).symm
  | done b => cases hStep

------------------------------------------------------------
-- Steps between Relabels
------------------------------------------------------------

/- The nodes stay, and so does their order. -/
structure OrderKept (l l' : List Nat) : Prop where
  mem : ∀ x ∈ l, x ∈ l'
  precedes : ∀ x ∈ l, ∀ y ∈ l,
    (Precedes l' x y ↔ Precedes l x y)

theorem OrderKept.refl (l : List Nat) : OrderKept l l :=
  ⟨fun _ h => h, fun _ _ _ _ => Iff.rfl⟩

/- The nodes keep their fields. -/
def FieldsKept (s s' : OmState) : Prop :=
  ∀ x ∈ s.order, ∀ f, HasFields s.mem x f →
    HasFields s'.mem x f

/- The nodes keep their fields and their order. -/
structure Grows (s s' : OmState) : Prop where
  fields : FieldsKept s s'
  order : OrderKept s.order s'.order

theorem Grows.refl (s : OmState) : Grows s s :=
  ⟨fun _ _ _ h => h, OrderKept.refl s.order⟩

variable {Worker : Type}

/- Insertions and marks let the structure grow. -/
theorem grows_of_step [DecidableEq Worker]
    {cfg : Config} {threshold : Nat}
    {s s' : OmrdState Worker} {a : OmrdAction Worker}
    (h : Bookkeeping cfg s)
    (hStep : omrdStep cfg threshold s a s')
    (hWorker : a.ofWorker = true) :
    Grows s.om s'.om := by
  cases a with
  | start w base =>
      rcases hStep with ⟨-, -, -, rfl⟩
      exact Grows.refl s.om
  | resume w =>
      rcases hStep with ⟨-, base, -, rfl⟩
      exact Grows.refl s.om
  | run w =>
      rcases om_of_advance hStep with
        hSame | ⟨l, hMark⟩ | ⟨base, m, r, hPc, hInsert, hOm⟩
      · rw [hSame]
        exact Grows.refl s.om
      · have hFrame := frame_markHeavy s.om.mem l s.om.order
        rw [hMark]
        exact ⟨fun x hx f hf => hFrame.hasFields hx hf,
          OrderKept.refl s.om.order⟩
      · rcases h.maintained with ⟨t, yss, hMain⟩
        have hBase := h.bases w base hPc
        have hFrame :=
          (frame_of_omInsert hMain hBase hInsert).1
        have hFresh := next_notMem hMain
        rw [hOm]
        refine ⟨fun x hx f hf => hFrame.hasFields hx hf,
          fun x hx => mem_orderAfter r hx, ?_⟩
        intro x hx y hy
        rcases next_of_omInsert hMain hBase hInsert with
          rfl | rfl
        · exact Iff.rfl
        · exact precedes_insertAfter_iff base hFresh hx hy
  | _ => cases hWorker

------------------------------------------------------------
-- The Invariant
------------------------------------------------------------

/- What was read of two nodes is what is there. -/
def PartRight
    (s : OmState) (x y : Nat) (pc : PrecedesPc) : Prop :=
  ∃ f g, HasFields s.mem x f ∧ HasFields s.mem y g ∧
    Agrees f g pc

/- The answer for two nodes is right. -/
def Right
    (order : List Nat) (x y : Nat) (b : Bool) : Prop :=
  b = decide (Precedes order x y)

/- A query is right, unless a relabel came in between. -/
def QueryOk (s : Detector Worker) : QueryPc → Prop
| .idle => True
| .start q => q.InOrder s.english.om.order s.hebrew.om.order
| .english q id since pc =>
    q.InOrder s.english.om.order s.hebrew.om.order ∧
      id = BitVec.ofNat 64 since ∧
      Snapshot since s.bumps
        (PartRight s.english.om q.estrand q.currEstrand pc)
| .hebrew q id since e pc =>
    q.InOrder s.english.om.order s.hebrew.om.order ∧
      id = BitVec.ofNat 64 since ∧
      Snapshot since s.bumps
        (Right s.english.om.order q.estrand q.currEstrand
            e ∧
          PartRight s.hebrew.om q.hstrand q.currHstrand pc)
| .finish q id since e h =>
    q.InOrder s.english.om.order s.hebrew.om.order ∧
      id = BitVec.ofNat 64 since ∧
      Snapshot since s.bumps
        (Right s.english.om.order q.estrand q.currEstrand
            e ∧
          Right s.hebrew.om.order q.hstrand q.currHstrand h)
| .answered q window e h =>
    q.InOrder s.english.om.order s.hebrew.om.order ∧
      (window < 2 ^ 64 →
        Right s.english.om.order q.estrand q.currEstrand
            e ∧
          Right s.hebrew.om.order q.hstrand q.currHstrand h)

/- A relabel has taken over both structures. -/
structure Relabelling
    (cfg : Config) (s : Detector Worker)
    (e h : OmrdState Worker) : Prop where
  english : Bookkeeping cfg e
  hebrew : Bookkeeping cfg h
  parkedE : ∀ w, (e.pc w).Parked
  parkedH : ∀ w, (h.pc w).Parked
  orderE : s.english.om.order = e.om.order
  orderH : s.hebrew.om.order = h.om.order

/- The mutexes have no part in the records. -/
theorem Bookkeeping.setBatch
    {cfg : Config} {s : OmrdState Worker}
    (h : Bookkeeping cfg s) (b : Bool) :
    Bookkeeping cfg (s.setBatch b) :=
  ⟨h.maintained, h.booked, h.bases⟩

structure DetectorInv
    (cfg : Config) (s : Detector Worker) : Prop where
  word : s.relabelId = BitVec.ofNat 64 s.bumps
  parity : Even s.bumps ↔ s.saved = none
  english : s.saved = none → Bookkeeping cfg s.english
  hebrew : s.saved = none → Bookkeeping cfg s.hebrew
  relabelling : ∀ e h, s.saved = some (e, h) →
    Relabelling cfg s e h
  queries : ∀ w, QueryOk s (s.query w)

/- An answer that is right stays right. -/
theorem Right.kept
    {l l' : List Nat} {x y : Nat} {b : Bool}
    (h : Right l x y b)
    (hKept : OrderKept l l')
    (hx : x ∈ l)
    (hy : y ∈ l) :
    Right l' x y b := by
  unfold Right at h ⊢
  rw [h]
  exact decide_eq_decide.mpr (hKept.precedes x hx y hy).symm

theorem PartRight.kept
    {s s' : OmState} {x y : Nat} {pc : PrecedesPc}
    (h : PartRight s x y pc)
    (hKept : FieldsKept s s')
    (hx : x ∈ s.order)
    (hy : y ∈ s.order) :
    PartRight s' x y pc := by
  rcases h with ⟨f, g, hf, hg, hAgrees⟩
  exact ⟨f, g, hKept x hx f hf, hKept y hy g hg, hAgrees⟩

/- A query that has read all fields is right. -/
theorem PartRight.done
    {cfg : Config} {s : OmState} {t : Shape}
    {yss : List (List (Nat × Label))} {x y : Nat} {b : Bool}
    (h : PartRight s x y (.done b))
    (hCfg : cfg.WellFormed)
    (hMain : Maintained cfg s t yss)
    (hx : x ∈ s.order)
    (hy : y ∈ s.order) :
    Right s.order x y b := by
  rcases h with ⟨f, g, hf, hg, hAgrees⟩
  have hAnswer := hf.omPrecedes_eq hg
  rw [hMain.omPrecedes_eq hCfg hx hy] at hAnswer
  exact (show b = answer f g from hAgrees).trans
    (Except.ok.inj hAnswer).symm

/-
  The structures change while no relabel runs, in fields that
  queries do not read, or the counter moves on.
-/
theorem QueryOk.kept
    {s s' : Detector Worker} {pc : QueryPc}
    (h : QueryOk s pc)
    (hE : OrderKept s.english.om.order s'.english.om.order)
    (hH : OrderKept s.hebrew.om.order s'.hebrew.om.order)
    (hCount : (s'.bumps = s.bumps ∧
        (Even s.bumps → FieldsKept s.english.om s'.english.om ∧
          FieldsKept s.hebrew.om s'.hebrew.om)) ∨
      s'.bumps = s.bumps + 1) :
    QueryOk s' pc := by
  have hOrder : ∀ q : Query,
      q.InOrder s.english.om.order s.hebrew.om.order →
        q.InOrder s'.english.om.order
          s'.hebrew.om.order := by
    rintro q ⟨h₁, h₂, h₃, h₄⟩
    exact ⟨hE.mem _ h₁, hE.mem _ h₂, hH.mem _ h₃,
      hH.mem _ h₄⟩
  have hSnapshot : ∀ {since : Nat} {P P' : Prop},
      Snapshot since s.bumps P →
        (FieldsKept s.english.om s'.english.om →
          FieldsKept s.hebrew.om s'.hebrew.om → P → P') →
            Snapshot since s'.bumps P' := by
    intro since P P' hSnap hMap
    rcases hCount with ⟨hSame, hFields⟩ | hNext
    · rw [hSame]
      apply hSnap.keep
      intro hEven
      exact hMap (hFields hEven).1 (hFields hEven).2
    · rw [hNext]
      exact hSnap.bump
  cases pc with
  | idle => trivial
  | start q => exact hOrder q h
  | english q id since pc =>
      rcases h with ⟨hq, hId, hSnap⟩
      refine ⟨hOrder q hq, hId, hSnapshot hSnap ?_⟩
      intro hFieldsE _ hPart
      exact hPart.kept hFieldsE hq.1 hq.2.1
  | hebrew q id since e pc =>
      rcases h with ⟨hq, hId, hSnap⟩
      refine ⟨hOrder q hq, hId, hSnapshot hSnap ?_⟩
      rintro - hFieldsH ⟨hRight, hPart⟩
      exact ⟨hRight.kept hE hq.1 hq.2.1,
        hPart.kept hFieldsH hq.2.2.1 hq.2.2.2⟩
  | finish q id since e k =>
      rcases h with ⟨hq, hId, hSnap⟩
      refine ⟨hOrder q hq, hId, hSnapshot hSnap ?_⟩
      rintro - - ⟨hRightE, hRightH⟩
      exact ⟨hRightE.kept hE hq.1 hq.2.1,
        hRightH.kept hH hq.2.2.1 hq.2.2.2⟩
  | answered q window e k =>
      rcases h with ⟨hq, hRight⟩
      refine ⟨hOrder q hq, ?_⟩
      intro hWindow
      exact ⟨(hRight hWindow).1.kept hE hq.1 hq.2.1,
        (hRight hWindow).2.kept hH hq.2.2.1 hq.2.2.2⟩

------------------------------------------------------------
-- Steps of a Query
------------------------------------------------------------

/- What a query does inside its first call. -/
theorem of_english_step
    {s : Detector Worker} {q : Query} {id : BitVec 64}
    {since : Nat} {pc : PrecedesPc} {pc' : QueryPc}
    (hStep : queryStep s (.english q id since pc) pc') :
    (∃ b, pc = .done b ∧
      pc' = .hebrew q id since b .listX) ∨
    ∃ next, precedesStep s.english.om.mem q.estrand
        q.currEstrand pc next ∧
      pc' = .english q id since next := by
  cases pc with
  | done b => exact Or.inl ⟨b, rfl, hStep⟩
  | _ => exact Or.inr hStep

/- What a query does inside its second call. -/
theorem of_hebrew_step
    {s : Detector Worker} {q : Query} {id : BitVec 64}
    {since : Nat} {e : Bool} {pc : PrecedesPc}
    {pc' : QueryPc}
    (hStep : queryStep s (.hebrew q id since e pc) pc') :
    (∃ b, pc = .done b ∧ pc' = .finish q id since e b) ∨
    ∃ next, precedesStep s.hebrew.om.mem q.hstrand
        q.currHstrand pc next ∧
      pc' = .hebrew q id since e next := by
  cases pc with
  | done b => exact Or.inl ⟨b, rfl, hStep⟩
  | _ => exact Or.inr hStep

/- Nothing has been read. -/
theorem partRight_listX
    {cfg : Config} {s : OmrdState Worker} {x y : Nat}
    (h : Bookkeeping cfg s)
    (hx : x ∈ s.om.order)
    (hy : y ∈ s.om.order) :
    PartRight s.om x y .listX := by
  rcases h.maintained with ⟨t, yss, hMain⟩
  rcases exists_fields hMain hx with ⟨f, hf⟩
  rcases exists_fields hMain hy with ⟨g, hg⟩
  exact ⟨f, g, hf, hg, trivial⟩

/- A read keeps the query right. -/
theorem PartRight.step
    {s : OmState} {x y : Nat} {pc pc' : PrecedesPc}
    (h : PartRight s x y pc)
    (hStep : precedesStep s.mem x y pc pc') :
    PartRight s x y pc' := by
  rcases h with ⟨f, g, hf, hg, hAgrees⟩
  exact ⟨f, g, hf, hg, hAgrees.step hf hg hStep⟩

theorem QueryOk.step
    {cfg : Config} {s : Detector Worker} {pc pc' : QueryPc}
    (hCfg : cfg.WellFormed)
    (hInv : DetectorInv cfg s)
    (h : QueryOk s pc)
    (hStep : queryStep s pc pc') :
    QueryOk s pc' := by
  have hQuiet : Even s.bumps → s.saved = none :=
    hInv.parity.mp
  cases pc with
  | idle => cases hStep
  | start q =>
      cases hStep
      refine ⟨h, hInv.word, Snapshot.start ?_⟩
      intro hEven
      exact partRight_listX (hInv.english (hQuiet hEven))
        h.1 h.2.1
  | english q id since pc =>
      rcases h with ⟨hq, hId, hSnap⟩
      rcases of_english_step hStep with
        ⟨b, rfl, rfl⟩ | ⟨next, hRead, rfl⟩
      · refine ⟨hq, hId, hSnap.keep ?_⟩
        intro hEven hPart
        have hNone := hQuiet hEven
        rcases (hInv.english hNone).maintained with
          ⟨t, yss, hMain⟩
        exact ⟨hPart.done hCfg hMain hq.1 hq.2.1,
          partRight_listX (hInv.hebrew hNone) hq.2.2.1
            hq.2.2.2⟩
      · exact ⟨hq, hId,
          hSnap.keep fun _ hPart => hPart.step hRead⟩
  | hebrew q id since e pc =>
      rcases h with ⟨hq, hId, hSnap⟩
      rcases of_hebrew_step hStep with
        ⟨b, rfl, rfl⟩ | ⟨next, hRead, rfl⟩
      · refine ⟨hq, hId, hSnap.keep ?_⟩
        rintro hEven ⟨hRight, hPart⟩
        rcases (hInv.hebrew (hQuiet hEven)).maintained with
          ⟨t, yss, hMain⟩
        exact ⟨hRight,
          hPart.done hCfg hMain hq.2.2.1 hq.2.2.2⟩
      · refine ⟨hq, hId, hSnap.keep ?_⟩
        rintro - ⟨hRight, hPart⟩
        exact ⟨hRight, hPart.step hRead⟩
  | finish q id since e k =>
      rcases h with ⟨hq, hId, hSnap⟩
      rw [show pc' = _ from hStep]
      split
      · rename_i hTest
        refine ⟨hq, ?_⟩
        intro hWindow
        have hLe := hSnap.le
        rw [hId] at hTest
        apply hSnap.accept (by omega) hTest.1
          (hTest.2.trans hInv.word)
        omega
      · exact hq
  | answered q window e k => cases hStep

------------------------------------------------------------
-- Steps That Are Left
------------------------------------------------------------

/- The steps that a call of `om_precedes` has left, at most. -/
def PrecedesPc.readsLeft : PrecedesPc → Nat
| .listX => 8
| .listY _ => 7
| .topListX => 6
| .topAboveX _ => 5
| .topX _ => 4
| .topListY _ => 3
| .labelX => 2
| .topAboveY _ _ => 2
| .labelY _ => 1
| .topY _ _ => 1
| .done _ => 0

namespace QueryPc

/- The steps that an attempt has left, at most. -/
def readsLeft : QueryPc → Nat
| .idle => 0
| .start _ => 20
| .english _ _ _ pc => 11 + pc.readsLeft
| .hebrew _ _ _ _ pc => 2 + pc.readsLeft
| .finish _ _ _ _ _ => 1
| .answered _ _ _ _ => 0

/- The query has read the counter as `id`, or not yet. -/
def HasId (q : Query) (id : BitVec 64) : QueryPc → Prop
| .idle => False
| .start p => p = q
| .english p i _ _ => p = q ∧ i = id
| .hebrew p i _ _ _ => p = q ∧ i = id
| .finish p i _ _ _ => p = q ∧ i = id
| .answered p _ _ _ => p = q

end QueryPc

theorem readsLeft_of_precedesStep
    {m : Mem} {x y : Nat} {pc pc' : PrecedesPc}
    (hStep : precedesStep m x y pc pc') :
    pc'.readsLeft < pc.readsLeft := by
  cases pc with
  | done b => cases hStep
  | listY l =>
      rcases hStep with ⟨k, -, rfl⟩
      split
      · exact Nat.lt_of_sub_eq_succ rfl
      · exact Nat.lt_of_sub_eq_succ rfl
  | _ =>
      rcases hStep with ⟨a, -, rfl⟩
      exact Nat.lt_of_sub_eq_succ rfl

/-
  While the counter stays where it is, and even, a step of a
  query brings it nearer to its end.
-/
theorem readsLeft_of_queryStep
    {s : Detector Worker} {q : Query} {pc pc' : QueryPc}
    (hEven : s.relabelId &&& 1 = 0)
    (h : pc.HasId q s.relabelId)
    (hStep : queryStep s pc pc') :
    pc'.HasId q s.relabelId ∧
      pc'.readsLeft < pc.readsLeft := by
  cases pc with
  | idle => cases h
  | start p =>
      cases hStep
      exact ⟨⟨h, rfl⟩, Nat.lt_of_sub_eq_succ rfl⟩
  | english p id since pc =>
      rcases of_english_step hStep with
        ⟨b, rfl, rfl⟩ | ⟨next, hRead, rfl⟩
      · exact ⟨h, Nat.lt_of_sub_eq_succ rfl⟩
      · exact ⟨h, Nat.add_lt_add_left
          (readsLeft_of_precedesStep hRead) 11⟩
  | hebrew p id since e pc =>
      rcases of_hebrew_step hStep with
        ⟨b, rfl, rfl⟩ | ⟨next, hRead, rfl⟩
      · exact ⟨h, Nat.lt_of_sub_eq_succ rfl⟩
      · exact ⟨h, Nat.add_lt_add_left
          (readsLeft_of_precedesStep hRead) 2⟩
  | finish p id since e k =>
      rw [show pc' = _ from hStep]
      rw [if_pos ⟨h.2 ▸ hEven, h.2⟩]
      exact ⟨h.1, Nat.one_pos⟩
  | answered p k e b => cases hStep

------------------------------------------------------------
-- Runs
------------------------------------------------------------

namespace DetectorInv

variable {cfg : Config} {s s' : Detector Worker}

/- The queries, after a change that does not concern them. -/
theorem queries_kept
    (h : DetectorInv cfg s)
    (hE : OrderKept s.english.om.order s'.english.om.order)
    (hH : OrderKept s.hebrew.om.order s'.hebrew.om.order)
    (hCount : (s'.bumps = s.bumps ∧
        (Even s.bumps → FieldsKept s.english.om s'.english.om ∧
          FieldsKept s.hebrew.om s'.hebrew.om)) ∨
      s'.bumps = s.bumps + 1)
    (hQuery : s'.query = s.query) :
    ∀ w, QueryOk s' (s'.query w) := by
  intro w
  rw [hQuery]
  exact (h.queries w).kept hE hH hCount

theorem english_step [DecidableEq Worker]
    {threshold : Nat} {a : OmrdAction Worker}
    {e : OmrdState Worker}
    (h : DetectorInv cfg s)
    (hNone : s.saved = none)
    (hWorker : a.ofWorker = true)
    (hStep : omrdStep cfg threshold s.english a e) :
    DetectorInv cfg { s with english := e } := by
  have hBooks := h.english hNone
  have hGrows := grows_of_step hBooks hStep hWorker
  refine ⟨h.word, h.parity,
    fun _ => hBooks.worker_step hWorker hStep, h.hebrew, ?_, ?_⟩
  · intro e' k hSome
    rw [hNone] at hSome
    cases hSome
  · exact h.queries_kept hGrows.order (OrderKept.refl _)
      (Or.inl ⟨rfl, fun _ =>
        ⟨hGrows.fields, (Grows.refl _).fields⟩⟩) rfl

theorem hebrew_step [DecidableEq Worker]
    {threshold : Nat} {a : OmrdAction Worker}
    {k : OmrdState Worker}
    (h : DetectorInv cfg s)
    (hNone : s.saved = none)
    (hWorker : a.ofWorker = true)
    (hStep : omrdStep cfg threshold s.hebrew a k) :
    DetectorInv cfg { s with hebrew := k } := by
  have hBooks := h.hebrew hNone
  have hGrows := grows_of_step hBooks hStep hWorker
  refine ⟨h.word, h.parity, h.english,
    fun _ => hBooks.worker_step hWorker hStep, ?_, ?_⟩
  · intro e' k hSome
    rw [hNone] at hSome
    cases hSome
  · exact h.queries_kept (OrderKept.refl _) hGrows.order
      (Or.inl ⟨rfl, fun _ =>
        ⟨(Grows.refl _).fields, hGrows.fields⟩⟩) rfl

theorem beginRelabel
    (h : DetectorInv cfg s)
    (hNone : s.saved = none)
    (hParkedE : ∀ w, (s.english.pc w).Parked)
    (hParkedH : ∀ w, (s.hebrew.pc w).Parked) :
    DetectorInv cfg { s with
      english := s.english.setBatch true
      hebrew := s.hebrew.setBatch true
      saved := some (s.english.setBatch true,
        s.hebrew.setBatch true)
      relabelId := s.relabelId + 1
      bumps := s.bumps + 1 } := by
  have hEven := h.parity.mpr hNone
  refine ⟨?_, ?_, ?_, ?_, ?_, ?_⟩
  · dsimp only
    rw [h.word]
    exact (BitVec.ofNat_add _ _).symm
  · simp [Nat.even_add_one, hEven]
  · intro hSome
    cases hSome
  · intro hSome
    cases hSome
  · intro e k hSome
    cases hSome
    exact ⟨(h.english hNone).setBatch true,
      (h.hebrew hNone).setBatch true, hParkedE, hParkedH,
      rfl, rfl⟩
  · exact h.queries_kept (OrderKept.refl _)
      (OrderKept.refl _) (Or.inr rfl) rfl

theorem scribble
    (h : DetectorInv cfg s)
    (hSome : s.saved ≠ none) (m n : Mem) :
    DetectorInv cfg { s with
      english := s.english.withMem m
      hebrew := s.hebrew.withMem n } := by
  refine ⟨h.word, h.parity, fun hNone => absurd hNone hSome,
    fun hNone => absurd hNone hSome, ?_, ?_⟩
  · intro e k hSaved
    have hRel := h.relabelling e k hSaved
    exact ⟨hRel.english, hRel.hebrew, hRel.parkedE,
      hRel.parkedH, hRel.orderE, hRel.orderH⟩
  · refine h.queries_kept (OrderKept.refl _)
      (OrderKept.refl _) (Or.inl ⟨rfl, ?_⟩) rfl
    intro hEven
    exact absurd (h.parity.mp hEven) hSome

/- A relabel leaves the order as it was. -/
theorem order_of_relabel
    {e e' : OmrdState Worker}
    (hRun : e.relabel cfg = Except.ok e') :
    e'.om.order = e.om.order := by
  rcases of_relabel hRun with ⟨-, rfl⟩ | ⟨m, om, -, rfl⟩
  · rfl
  · rfl

theorem endRelabel
    {e k e' k' : OmrdState Worker}
    (hCfg : cfg.WellFormed)
    (h : DetectorInv cfg s)
    (hSaved : s.saved = some (e, k))
    (hRunE : e.relabel cfg = Except.ok e')
    (hRunH : k.relabel cfg = Except.ok k') :
    DetectorInv cfg { s with
      english := e'.setBatch false
      hebrew := k'.setBatch false
      saved := none
      relabelId := s.relabelId + 1
      bumps := s.bumps + 1 } := by
  have hRel := h.relabelling e k hSaved
  have hOdd : ¬ Even s.bumps := by
    rw [h.parity, hSaved]
    simp
  refine ⟨?_, ?_, ?_, ?_, ?_, ?_⟩
  · dsimp only
    rw [h.word]
    exact (BitVec.ofNat_add _ _).symm
  · simp [Nat.even_add_one, hOdd]
  · intro _
    exact (hRel.english.relabel hCfg hRel.parkedE
      hRunE).1.setBatch false
  · intro _
    exact (hRel.hebrew.relabel hCfg hRel.parkedH
      hRunH).1.setBatch false
  · intro e k hSome
    cases hSome
  · refine h.queries_kept ?_ ?_ (Or.inr rfl) rfl
    · dsimp only
      rw [show (e'.setBatch false).om = e'.om from rfl,
        order_of_relabel hRunE, ← hRel.orderE]
      exact OrderKept.refl _
    · dsimp only
      rw [show (k'.setBatch false).om = k'.om from rfl,
        order_of_relabel hRunH, ← hRel.orderH]
      exact OrderKept.refl _

/- A query moves on. -/
theorem setQuery [DecidableEq Worker]
    {w : Worker} {pc : QueryPc}
    (h : DetectorInv cfg s)
    (hPc : QueryOk s pc) :
    DetectorInv cfg { s with
      query := Function.update s.query w pc } := by
  refine ⟨h.word, h.parity, h.english, h.hebrew, ?_, ?_⟩
  · intro e k hSaved
    have hRel := h.relabelling e k hSaved
    exact ⟨hRel.english, hRel.hebrew, hRel.parkedE,
      hRel.parkedH, hRel.orderE, hRel.orderH⟩
  · intro v
    have hAt : QueryOk s (Function.update s.query w pc v) := by
      by_cases hv : v = w
      · subst hv
        rw [Function.update_self]
        exact hPc
      · rw [Function.update_of_ne hv]
        exact h.queries v
    exact hAt.kept (OrderKept.refl _) (OrderKept.refl _)
      (Or.inl ⟨rfl, fun _ =>
        ⟨(Grows.refl _).fields, (Grows.refl _).fields⟩⟩)

end DetectorInv

variable [DecidableEq Worker]

/- Every state of every run is right. -/
theorem detectorInv_of_reachable
    {cfg : Config} {threshold : Nat} {s : Detector Worker}
    (hCfg : cfg.WellFormed)
    (hReach :
      (detectorSystem Worker cfg threshold).Reachable s) :
    DetectorInv cfg s := by
  apply hReach.invariant (P := DetectorInv cfg)
  · rintro s ⟨hE, hH, hNone, hId, hBumps, hIdle⟩
    refine ⟨?_, ?_, fun _ => bookkeeping_of_starts hE,
      fun _ => bookkeeping_of_starts hH, ?_, ?_⟩
    · rw [hId, hBumps]
      rfl
    · simp [hNone, hBumps]
    · intro e k hSome
      rw [hNone] at hSome
      cases hSome
    · intro w
      rw [hIdle]
      trivial
  · intro s a s' h hStep
    cases a with
    | english a =>
        rcases hStep with ⟨hNone, hWorker, e, hStep, rfl⟩
        exact h.english_step hNone hWorker hStep
    | hebrew a =>
        rcases hStep with ⟨hNone, hWorker, k, hStep, rfl⟩
        exact h.hebrew_step hNone hWorker hStep
    | beginRelabel =>
        rcases hStep with ⟨hNone, hE, hH, rfl⟩
        exact h.beginRelabel hNone hE hH
    | scribble m n =>
        rcases hStep with ⟨hSome, rfl⟩
        exact h.scribble hSome m n
    | endRelabel =>
        rcases hStep with
          ⟨e, k, e', k', hSaved, hRunE, hRunH, rfl⟩
        exact h.endRelabel hCfg hSaved hRunE hRunH
    | ask w q =>
        rcases hStep with ⟨-, hq, rfl⟩
        exact h.setQuery hq
    | read w =>
        rcases hStep with ⟨pc, hStep, rfl⟩
        exact h.setQuery
          ((h.queries w).step hCfg h hStep)

/-
  In every run, with any number of relabels and insertions
  between the reads of a query, an answer that a query has
  left its loop with is the order of the two nodes in both
  structures, at that time and ever after.  So a race is
  reported exactly if the two orders differ.  The last
  attempt must not have seen the counter go round.
-/
theorem query_answers_order
    {cfg : Config} {threshold : Nat} {s : Detector Worker}
    {w : Worker} {q : Query} {window : Nat} {e h : Bool}
    (hCfg : cfg.WellFormed)
    (hReach :
      (detectorSystem Worker cfg threshold).Reachable s)
    (hAnswer : s.query w = .answered q window e h)
    (hWindow : window < 2 ^ 64) :
    e = decide (Precedes s.english.om.order q.estrand
        q.currEstrand) ∧
      h = decide (Precedes s.hebrew.om.order q.hstrand
        q.currHstrand) ∧
      (hasRace e h = true ↔
        (Precedes s.english.om.order q.estrand
            q.currEstrand ↔
          ¬ Precedes s.hebrew.om.order q.hstrand
            q.currHstrand)) := by
  have hOk :=
    (detectorInv_of_reachable hCfg hReach).queries w
  rw [hAnswer] at hOk
  have hEnglish := (hOk.2 hWindow).1
  have hHebrew := (hOk.2 hWindow).2
  refine ⟨hEnglish, hHebrew, ?_⟩
  unfold Right at hEnglish hHebrew
  rw [hEnglish, hHebrew]
  unfold hasRace
  by_cases hE : Precedes s.english.om.order q.estrand
      q.currEstrand
  · simp [hE]
  · simp [hE]

/- Both structures get a node, and their lists are heavy. -/
def fillBoth : List (DetectorAction Bool) :=
  let insertion : List (OmrdAction Bool) :=
    .start true 0 :: List.replicate 6 (.run true)
  insertion.map .english ++ insertion.map .hebrew

/-
  A relabel begins after two reads of a query.  The query
  reads freed memory, and tries again at the end.
-/
def straddle (q : Query) : List (DetectorAction Bool) :=
  .ask false q :: List.replicate 2 (.read false) ++
    .beginRelabel :: .scribble noMemory noMemory ::
    .read false :: .endRelabel ::
    List.replicate 21 (.read false)

/- The two nodes are in different orders. -/
theorem query_answers_order_straddle :
    ∃ s : Detector Bool,
      s.query false = .answered ⟨0, 1, 1, 0⟩ 0 true false ∧
      Precedes s.english.om.order 0 1 ∧
      ¬ Precedes s.hebrew.om.order 1 0 ∧
      (Precedes s.english.om.order 0 1 ↔
        ¬ Precedes s.hebrew.om.order 1 0) := by
  have hRun : ∃ s : Detector Bool,
      detectorRun Config.small 62 noMemory
          (fillBoth ++ straddle ⟨0, 1, 1, 0⟩) =
        Except.ok s ∧
      s.query false =
        .answered ⟨0, 1, 1, 0⟩ 0 true false :=
    ⟨_, rfl, rfl⟩
  rcases hRun with ⟨s, hRun, hAnswer⟩
  have hOrders := query_answers_order
    Config.small_wellFormed (reachable_of_detectorRun hRun)
    hAnswer (Nat.two_pow_pos 64)
  exact ⟨s, hAnswer, of_decide_eq_true hOrders.1.symm,
    of_decide_eq_false hOrders.2.1.symm,
    hOrders.2.2.mp rfl⟩

------------------------------------------------------------
-- Attempts without Relabels
------------------------------------------------------------

/- The action is a step of the query of a worker. -/
def DetectorAction.isReadOf
    (w : Worker) : DetectorAction Worker → Bool
| .read v => decide (v = w)
| _ => false

/- An attempt of a worker, with `reads` steps so far. -/
structure Attempt
    (s : Detector Worker) (w : Worker) (q : Query)
    (id : BitVec 64) (reads : Nat) : Prop where
  quiet : s.saved = none
  id_eq : s.relabelId = id
  hasId : (s.query w).HasId q id
  reads_le : reads + (s.query w).readsLeft ≤ 20

/- No relabel begins, and the worker asks nothing else. -/
theorem Attempt.step
    {cfg : Config} {threshold : Nat}
    {s s' : Detector Worker} {a : DetectorAction Worker}
    {w : Worker} {q : Query} {id : BitVec 64} {reads : Nat}
    (h : Attempt s w q id reads)
    (hEven : id &&& 1 = 0)
    (hStep : detectorStep cfg threshold s a s')
    (hBegin : a ≠ .beginRelabel)
    (hAsk : ∀ p, a ≠ .ask w p) :
    Attempt s' w q id
      (reads + if a.isReadOf w then 1 else 0) := by
  cases a with
  | english a =>
      rcases hStep with ⟨-, -, e, -, rfl⟩
      exact ⟨h.quiet, h.id_eq, h.hasId, h.reads_le⟩
  | hebrew a =>
      rcases hStep with ⟨-, -, k, -, rfl⟩
      exact ⟨h.quiet, h.id_eq, h.hasId, h.reads_le⟩
  | beginRelabel => exact absurd rfl hBegin
  | scribble m n => exact absurd h.quiet hStep.1
  | endRelabel =>
      rcases hStep with ⟨e, k, e', k', hSaved, -⟩
      rw [h.quiet] at hSaved
      cases hSaved
  | ask v p =>
      rcases hStep with ⟨-, -, rfl⟩
      have hNe : w ≠ v := by
        rintro rfl
        exact hAsk p rfl
      refine ⟨h.quiet, h.id_eq, ?_, ?_⟩
      · dsimp only
        rw [Function.update_of_ne hNe]
        exact h.hasId
      · dsimp only
        rw [Function.update_of_ne hNe]
        exact h.reads_le
  | read v =>
      rcases hStep with ⟨pc, hOne, rfl⟩
      by_cases hv : v = w
      · subst hv
        have hLess := readsLeft_of_queryStep
          (h.id_eq.symm ▸ hEven) (h.id_eq.symm ▸ h.hasId)
          hOne
        have hReads := h.reads_le
        refine ⟨h.quiet, h.id_eq, ?_, ?_⟩
        · dsimp only
          rw [Function.update_self, ← h.id_eq]
          exact hLess.1
        · dsimp only [DetectorAction.isReadOf]
          rw [Function.update_self]
          have hFewer := hLess.2
          simp only [decide_true, if_true]
          omega
      · refine ⟨h.quiet, h.id_eq, ?_, ?_⟩
        · dsimp only
          rw [Function.update_of_ne (Ne.symm hv)]
          exact h.hasId
        · dsimp only
          rw [Function.update_of_ne (Ne.symm hv),
            if_neg (by simp [DetectorAction.isReadOf, hv])]
          exact h.reads_le

/-
  In every run, an attempt during which no relabel runs is
  the last one.  Whatever the other workers insert and ask,
  the query takes at most 20 steps, and can take its next
  step until it is answered.
-/
theorem query_ends
    {cfg : Config} {threshold : Nat}
    {s s' : Detector Worker} {w : Worker} {q : Query}
    {acts : List (DetectorAction Worker)}
    (hCfg : cfg.WellFormed)
    (hReach :
      (detectorSystem Worker cfg threshold).Reachable s)
    (hQuiet : s.saved = none)
    (hStart : s.query w = .start q)
    (hRun :
      (detectorSystem Worker cfg threshold).Run s acts s')
    (hBegin : DetectorAction.beginRelabel ∉ acts)
    (hAsk : ∀ p, DetectorAction.ask w p ∉ acts) :
    acts.countP (DetectorAction.isReadOf w) ≤ 20 ∧
      ((∃ window e h,
          s'.query w = .answered q window e h) ∨
        ∃ s'', detectorStep cfg threshold s' (.read w)
          s'') := by
  have hInv := detectorInv_of_reachable hCfg hReach
  have hEven : s.relabelId &&& 1 = 0 := by
    rw [hInv.word]
    exact word_of_even (hInv.parity.mpr hQuiet)
  have hAttempt : Attempt s' w q s.relabelId
      (acts.countP (DetectorAction.isReadOf w)) := by
    clear hInv hReach
    induction hRun with
    | refl =>
        refine ⟨hQuiet, rfl, ?_, ?_⟩
        · rw [hStart]
          exact rfl
        · rw [hStart]
          exact Nat.le_refl 20
    | tail hRun hStep ih =>
        have hPrevious := ih
          (fun h => hBegin (List.mem_append_left _ h))
          (fun p h => hAsk p (List.mem_append_left _ h))
        rw [List.countP_append, List.countP_singleton]
        apply hPrevious.step hEven hStep
        · rintro rfl
          exact hBegin (List.mem_append_right _
            (List.mem_singleton.mpr rfl))
        · rintro p rfl
          exact hAsk p (List.mem_append_right _
            (List.mem_singleton.mpr rfl))
  have hReads := hAttempt.reads_le
  refine ⟨by omega, ?_⟩
  have hHas := hAttempt.hasId
  by_cases hOver : ∃ p k e h, s'.query w = .answered p k e h
  · rcases hOver with ⟨p, k, e, h, hAnswer⟩
    rw [hAnswer] at hHas
    cases (show p = q from hHas)
    exact Or.inl ⟨k, e, h, hAnswer⟩
  · refine Or.inr ⟨_, _, queryStep_next ?_ ?_, rfl⟩
    · intro hIdle
      rw [hIdle] at hHas
      exact hHas
    · intro p k e h hAnswer
      exact hOver ⟨p, k, e, h, hAnswer⟩

/- A worker inserts while another one asks. -/
theorem query_ends_insertion :
    ∃ s s' : Detector Bool,
      s.query false = .start ⟨0, 1, 1, 0⟩ ∧
      s'.english.om.order = [0, 2, 1] ∧
      ((∃ window e h, s'.query false =
          .answered ⟨0, 1, 1, 0⟩ window e h) ∨
        ∃ s'', detectorStep Config.small 62 s' (.read false)
          s'') := by
  have hRun : ∃ s s' : Detector Bool,
      detectorRun Config.small 62 noMemory
          (fillBoth ++ straddle ⟨0, 1, 1, 0⟩ ++
            [.ask false ⟨0, 1, 1, 0⟩]) =
        Except.ok s ∧
      [DetectorAction.read false, .read false,
          .english (.start true 0), .read false,
          .english (.run true), .read false].foldlM
        (performDetector Config.small 62) s =
          Except.ok s' ∧
      s.saved.isNone = true ∧
      s.query false = .start ⟨0, 1, 1, 0⟩ ∧
      s'.english.om.order = [0, 2, 1] :=
    ⟨_, _, rfl, rfl, rfl, rfl, rfl⟩
  rcases hRun with
    ⟨s, s', hReach, hRun, hQuiet, hStart, hOrder⟩
  have hEnds := query_ends Config.small_wellFormed
    (reachable_of_detectorRun hReach)
    (Option.isNone_iff_eq_none.mp hQuiet) hStart
    (TransitionSystem.Run.of_foldlM
      (fun _ _ _ h => step_of_performDetector h) hRun)
    (by simp) (by simp)
  exact ⟨s, s', hStart, hOrder, hEnds.2⟩

end Omrd

end PRacer
