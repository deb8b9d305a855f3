import PRacer.Foundations.OptimisticRead
import PRacer.Omrd.HeavyLists

/-
  Order queries while the structures are relabelled
  (`QUERY_START` and `QUERY_END` in `mem_access.h`,
  `batch_relabel` in `omrd.cpp`).

  A query takes no lock.  It reads one field after the other,
  and starts again if `g_relabel_id` is odd or has changed.
  While a relabel runs, the memory of both structures may be
  anything at any time: so it covers all orders in which the
  relabel may write.

  Main declarations:
    * `PrecedesPc`, `precedesStep`
    * `QueryPc`, `Detector`, `queryStep`
    * `detectorSystem`, `detectorRun`
-/

------------------------------------------------------------
-- Reads of a Query
------------------------------------------------------------

namespace PRacer

open Foundations OrderMaint

namespace Omrd

/-
  Where a call of `om_precedes` with two nodes is.  The
  constructor names the field that is read next, with the
  values that are still needed.
-/
inductive PrecedesPc
| listX
| listY (listX : Nat)
| labelX
| labelY (labelX : Label)
| topListX
| topAboveX (listX : Nat)
| topX (aboveX : Nat)
| topListY (topX : Label)
| topAboveY (topX : Label) (listY : Nat)
| topY (topX : Label) (aboveY : Nat)
| done (precedes : Bool)
deriving DecidableEq, Repr

/-
  A value that is read from a field.  A record that was freed
  may hold anything.
-/
def Reads {α : Type} (field : Option α) (a : α) : Prop :=
  ∀ b, field = some b → a = b

theorem reads_getD
    {α : Type} (field : Option α) (a : α) :
    Reads field (field.getD a) := by
  intro b hField
  rw [hField]
  rfl

/- One read of `om_precedes(x, y)`. -/
def precedesStep (m : Mem) (x y : Nat) :
    PrecedesPc → PrecedesPc → Prop
| .listX, pc' =>
    ∃ l, Reads ((m.nodes.get x).map BlNode.list) l ∧
      pc' = .listY l
| .listY listX, pc' =>
    ∃ l, Reads ((m.nodes.get y).map BlNode.list) l ∧
      pc' = if listX = l then .labelX else .topListX
| .labelX, pc' =>
    ∃ a, Reads ((m.nodes.get x).map BlNode.label) a ∧
      pc' = .labelY a
| .labelY labelX, pc' =>
    ∃ a, Reads ((m.nodes.get y).map BlNode.label) a ∧
      pc' = .done (decide (labelX < a))
| .topListX, pc' =>
    ∃ l, Reads ((m.nodes.get x).map BlNode.list) l ∧
      pc' = .topAboveX l
| .topAboveX listX, pc' =>
    ∃ p, Reads ((m.lists.get listX).bind BList.above) p ∧
      pc' = .topX p
| .topX aboveX, pc' =>
    ∃ a, Reads ((m.tls.get aboveX).map TlNode.label) a ∧
      pc' = .topListY a
| .topListY topX, pc' =>
    ∃ l, Reads ((m.nodes.get y).map BlNode.list) l ∧
      pc' = .topAboveY topX l
| .topAboveY topX listY, pc' =>
    ∃ p, Reads ((m.lists.get listY).bind BList.above) p ∧
      pc' = .topY topX p
| .topY topX aboveY, pc' =>
    ∃ a, Reads ((m.tls.get aboveY).map TlNode.label) a ∧
      pc' = .done (decide (topX < a))
| .done _, _ => False

/- The next read, computed: freed records read as zero. -/
def precedesNext (m : Mem) (x y : Nat) :
    PrecedesPc → PrecedesPc
| .listX =>
    .listY (((m.nodes.get x).map BlNode.list).getD 0)
| .listY listX =>
    if listX = ((m.nodes.get y).map BlNode.list).getD 0 then
      .labelX
    else .topListX
| .labelX =>
    .labelY (((m.nodes.get x).map BlNode.label).getD 0)
| .labelY labelX =>
    .done (decide (labelX <
      ((m.nodes.get y).map BlNode.label).getD 0))
| .topListX =>
    .topAboveX (((m.nodes.get x).map BlNode.list).getD 0)
| .topAboveX listX =>
    .topX (((m.lists.get listX).bind BList.above).getD 0)
| .topX aboveX =>
    .topListY (((m.tls.get aboveX).map TlNode.label).getD 0)
| .topListY topX =>
    .topAboveY topX
      (((m.nodes.get y).map BlNode.list).getD 0)
| .topAboveY topX listY =>
    .topY topX
      (((m.lists.get listY).bind BList.above).getD 0)
| .topY topX aboveY =>
    .done (decide (topX <
      ((m.tls.get aboveY).map TlNode.label).getD 0))
| .done b => .done b

theorem precedesStep_next
    {m : Mem} {x y : Nat} {pc : PrecedesPc}
    (hNot : ∀ b, pc ≠ .done b) :
    precedesStep m x y pc (precedesNext m x y pc) := by
  cases pc with
  | done b => exact absurd rfl (hNot b)
  | _ => exact ⟨_, reads_getD _ 0, rfl⟩

------------------------------------------------------------
-- Queries
------------------------------------------------------------

/- The nodes that `races_with` compares. -/
structure Query where
  estrand : Nat
  hstrand : Nat
  currEstrand : Nat
  currHstrand : Nat
deriving DecidableEq, Repr

/-
  Where a worker is in `races_with`.

  `since` is not in the source: how often `g_relabel_id` was
  incremented before the query read it.  An answer comes with
  the number of increments during its last attempt.
-/
inductive QueryPc
| idle
| start (q : Query)
| english (q : Query) (relabelId : BitVec 64) (since : Nat)
    (pc : PrecedesPc)
| hebrew (q : Query) (relabelId : BitVec 64) (since : Nat)
    (precInEnglish : Bool) (pc : PrecedesPc)
| finish (q : Query) (relabelId : BitVec 64) (since : Nat)
    (precInEnglish precInHebrew : Bool)
| answered (q : Query) (window : Nat)
    (precInEnglish precInHebrew : Bool)

/- A race is reported if the two answers differ. -/
def hasRace (precInEnglish precInHebrew : Bool) : Bool :=
  precInEnglish == !precInHebrew

/-
  The two structures, `g_relabel_id` and the queries.

  Two fields are not in the source: the structures as the
  running relabel found them, and the number of increments.
-/
structure Detector (Worker : Type) where
  english : OmrdState Worker
  hebrew : OmrdState Worker
  saved : Option (OmrdState Worker × OmrdState Worker)
  relabelId : BitVec 64
  bumps : Nat
  query : Worker → QueryPc

variable {Worker : Type}

/- The nodes of a query were inserted. -/
def Query.InOrder
    (q : Query) (english hebrew : List Nat) : Prop :=
  q.estrand ∈ english ∧ q.currEstrand ∈ english ∧
    q.hstrand ∈ hebrew ∧ q.currHstrand ∈ hebrew

instance (q : Query) (english hebrew : List Nat) :
    Decidable (q.InOrder english hebrew) :=
  inferInstanceAs (Decidable (_ ∧ _ ∧ _ ∧ _))

/- One step of a query. -/
def queryStep (s : Detector Worker) :
    QueryPc → QueryPc → Prop
| .idle, _ => False
| .start q, pc' =>
    pc' = .english q s.relabelId s.bumps .listX
| .english q id since (.done b), pc' =>
    pc' = .hebrew q id since b .listX
| .english q id since pc, pc' =>
    ∃ next, precedesStep s.english.om.mem q.estrand
        q.currEstrand pc next ∧
      pc' = .english q id since next
| .hebrew q id since e (.done b), pc' =>
    pc' = .finish q id since e b
| .hebrew q id since e pc, pc' =>
    ∃ next, precedesStep s.hebrew.om.mem q.hstrand
        q.currHstrand pc next ∧
      pc' = .hebrew q id since e next
| .finish q id since e h, pc' =>
    -- The test of `QUERY_END`.
    pc' = if id &&& 1 = 0 ∧ id = s.relabelId then
        .answered q (s.bumps - since) e h
      else .start q
| .answered _ _ _ _, _ => False

/- The next step of a query, computed. -/
def queryNext (s : Detector Worker) : QueryPc → QueryPc
| .start q => .english q s.relabelId s.bumps .listX
| .english q id since (.done b) =>
    .hebrew q id since b .listX
| .english q id since pc =>
    .english q id since (precedesNext s.english.om.mem
      q.estrand q.currEstrand pc)
| .hebrew q id since e (.done b) => .finish q id since e b
| .hebrew q id since e pc =>
    .hebrew q id since e (precedesNext s.hebrew.om.mem
      q.hstrand q.currHstrand pc)
| .finish q id since e h =>
    if id &&& 1 = 0 ∧ id = s.relabelId then
      .answered q (s.bumps - since) e h
    else .start q
| pc => pc

/- A query that is not answered can go on. -/
theorem queryStep_next
    {s : Detector Worker} {pc : QueryPc}
    (hIdle : pc ≠ .idle)
    (hNot : ∀ q k e h, pc ≠ .answered q k e h) :
    queryStep s pc (queryNext s pc) := by
  cases pc with
  | idle => exact absurd rfl hIdle
  | answered q k e h => exact absurd rfl (hNot q k e h)
  | english q id since pc =>
      cases pc with
      | done b => rfl
      | _ => exact ⟨_, precedesStep_next nofun, rfl⟩
  | hebrew q id since e pc =>
      cases pc with
      | done b => rfl
      | _ => exact ⟨_, precedesStep_next nofun, rfl⟩
  | _ => rfl

------------------------------------------------------------
-- Runs
------------------------------------------------------------

/- A batch gets the mutexes of all workers, or ends. -/
def OmrdState.setBatch
    (b : Bool) (s : OmrdState Worker) : OmrdState Worker :=
  { s with locked := b, batchInProgress := b }

/- What happens to the structures and to the queries. -/
inductive DetectorAction (Worker : Type)
| english (a : OmrdAction Worker)
| hebrew (a : OmrdAction Worker)
-- A batch with `batch_relabel`, and any number of writes.
| beginRelabel
| scribble (english hebrew : Mem)
| endRelabel
-- A worker calls `races_with`.
| ask (w : Worker) (q : Query)
| read (w : Worker)

variable [DecidableEq Worker]

def detectorStep
    (cfg : Config) (threshold : Nat)
    (s : Detector Worker) :
    DetectorAction Worker → Detector Worker → Prop
| .english a, s' =>
    s.saved = none ∧ a.ofWorker = true ∧
      ∃ e, omrdStep cfg threshold s.english a e ∧
        s' = { s with english := e }
| .hebrew a, s' =>
    s.saved = none ∧ a.ofWorker = true ∧
      ∃ h, omrdStep cfg threshold s.hebrew a h ∧
        s' = { s with hebrew := h }
| .beginRelabel, s' =>
    s.saved = none ∧ (∀ w, (s.english.pc w).Parked) ∧
      (∀ w, (s.hebrew.pc w).Parked) ∧
      s' = { s with
        english := s.english.setBatch true
        hebrew := s.hebrew.setBatch true
        saved := some (s.english.setBatch true,
          s.hebrew.setBatch true)
        relabelId := s.relabelId + 1
        bumps := s.bumps + 1 }
| .scribble m n, s' =>
    s.saved ≠ none ∧
      s' = { s with
        english := s.english.withMem m
        hebrew := s.hebrew.withMem n }
| .endRelabel, s' =>
    ∃ e h e' h', s.saved = some (e, h) ∧
      e.relabel cfg = Except.ok e' ∧
      h.relabel cfg = Except.ok h' ∧
      s' = { s with
        english := e'.setBatch false
        hebrew := h'.setBatch false
        saved := none
        relabelId := s.relabelId + 1
        bumps := s.bumps + 1 }
| .ask w q, s' =>
    (s.query w = .idle ∨
      ∃ p k e h, s.query w = .answered p k e h) ∧
      q.InOrder s.english.om.order s.hebrew.om.order ∧
      s' = { s with
        query := Function.update s.query w (.start q) }
| .read w, s' =>
    ∃ pc, queryStep s (s.query w) pc ∧
      s' = { s with
        query := Function.update s.query w pc }

/- Both structures are new, and no query is asked. -/
def detectorSystem
    (Worker : Type) [DecidableEq Worker]
    (cfg : Config) (threshold : Nat) :
    TransitionSystem (Detector Worker)
      (DetectorAction Worker) where
  init s :=
    s.english.Starts cfg ∧ s.hebrew.Starts cfg ∧
      s.saved = none ∧ s.relabelId = 0 ∧ s.bumps = 0 ∧
      ∀ w, s.query w = .idle
  step := detectorStep cfg threshold

------------------------------------------------------------
-- Computed Runs
------------------------------------------------------------

namespace QueryPc

/- The worker is between two queries. -/
def isOver : QueryPc → Bool
| .idle => true
| .answered _ _ _ _ => true
| _ => false

theorem of_isOver
    {pc : QueryPc}
    (h : pc.isOver = true) :
    pc = .idle ∨ ∃ q k e h, pc = .answered q k e h := by
  cases pc with
  | idle => exact Or.inl rfl
  | answered q k e b => exact Or.inr ⟨q, k, e, b, rfl⟩
  | _ => cases h

end QueryPc

variable [Fintype Worker]

/- One step, tested and computed. -/
def performDetector
    (cfg : Config) (threshold : Nat)
    (s : Detector Worker) :
    DetectorAction Worker → Run (Detector Worker)
| .english a => do
    check (s.saved.isNone = true)
    check (a.ofWorker = true)
    let e ← perform cfg threshold s.english a
    return { s with english := e }
| .hebrew a => do
    check (s.saved.isNone = true)
    check (a.ofWorker = true)
    let h ← perform cfg threshold s.hebrew a
    return { s with hebrew := h }
| .beginRelabel => do
    check (s.saved.isNone = true)
    check (∀ w, (s.english.pc w).Parked)
    check (∀ w, (s.hebrew.pc w).Parked)
    return { s with
      english := s.english.setBatch true
      hebrew := s.hebrew.setBatch true
      saved := some (s.english.setBatch true,
        s.hebrew.setBatch true)
      relabelId := s.relabelId + 1
      bumps := s.bumps + 1 }
| .scribble m n => do
    check (s.saved.isSome = true)
    return { s with
      english := s.english.withMem m
      hebrew := s.hebrew.withMem n }
| .endRelabel =>
    match s.saved with
    | none => Except.error Fault.assertion
    | some (e, h) => do
        let e ← e.relabel cfg
        let h ← h.relabel cfg
        return { s with
          english := e.setBatch false
          hebrew := h.setBatch false
          saved := none
          relabelId := s.relabelId + 1
          bumps := s.bumps + 1 }
| .ask w q => do
    check ((s.query w).isOver = true)
    check (q.InOrder s.english.om.order s.hebrew.om.order)
    return { s with
      query := Function.update s.query w (.start q) }
| .read w => do
    check ((s.query w).isOver = false)
    return { s with
      query := Function.update s.query w
        (queryNext s (s.query w)) }

theorem step_of_performDetector
    {cfg : Config} {threshold : Nat}
    {s s' : Detector Worker} {a : DetectorAction Worker}
    (hRun : performDetector cfg threshold s a =
      Except.ok s') :
    detectorStep cfg threshold s a s' := by
  cases a with
  | english a =>
      rcases bind_eq_ok hRun with ⟨u, hNone, hRun⟩
      rcases bind_eq_ok hRun with ⟨v, hWorker, hRun⟩
      rcases bind_eq_ok hRun with ⟨e, hOne, hRun⟩
      cases hRun
      exact ⟨Option.isNone_iff_eq_none.mp (of_check hNone),
        of_check hWorker, e, step_of_perform hOne, rfl⟩
  | hebrew a =>
      rcases bind_eq_ok hRun with ⟨u, hNone, hRun⟩
      rcases bind_eq_ok hRun with ⟨v, hWorker, hRun⟩
      rcases bind_eq_ok hRun with ⟨h, hOne, hRun⟩
      cases hRun
      exact ⟨Option.isNone_iff_eq_none.mp (of_check hNone),
        of_check hWorker, h, step_of_perform hOne, rfl⟩
  | beginRelabel =>
      rcases bind_eq_ok hRun with ⟨u, hNone, hRun⟩
      rcases bind_eq_ok hRun with ⟨v, hEnglish, hRun⟩
      rcases bind_eq_ok hRun with ⟨t, hHebrew, hRun⟩
      cases hRun
      exact ⟨Option.isNone_iff_eq_none.mp (of_check hNone),
        of_check hEnglish, of_check hHebrew, rfl⟩
  | scribble m n =>
      rcases bind_eq_ok hRun with ⟨u, hSome, hRun⟩
      cases hRun
      exact ⟨Option.isSome_iff_ne_none.mp (of_check hSome),
        rfl⟩
  | endRelabel =>
      dsimp only [performDetector] at hRun
      split at hRun
      · cases hRun
      · rename_i e h hSaved
        rcases bind_eq_ok hRun with ⟨e', hEnglish, hRun⟩
        rcases bind_eq_ok hRun with ⟨h', hHebrew, hRun⟩
        cases hRun
        exact ⟨e, h, e', h', hSaved, hEnglish, hHebrew, rfl⟩
  | ask w q =>
      rcases bind_eq_ok hRun with ⟨u, hOver, hRun⟩
      rcases bind_eq_ok hRun with ⟨v, hOrder, hRun⟩
      cases hRun
      exact ⟨QueryPc.of_isOver (of_check hOver),
        of_check hOrder, rfl⟩
  | read w =>
      rcases bind_eq_ok hRun with ⟨u, hOpen, hRun⟩
      cases hRun
      have hNot := of_check hOpen
      refine ⟨_, queryStep_next ?_ ?_, rfl⟩
      · intro hIdle
        rw [hIdle] at hNot
        cases hNot
      · intro q k e h hOver
        rw [hOver] at hNot
        cases hNot

/- New structures, and then several steps. -/
def detectorRun
    (cfg : Config) (threshold : Nat) (m : Mem)
    (actions : List (DetectorAction Worker)) :
    Run (Detector Worker) := do
  let s ← omrdNew Worker cfg m
  actions.foldlM (performDetector cfg threshold) {
    english := s
    hebrew := s
    saved := none
    relabelId := 0
    bumps := 0
    query := fun _ => .idle }

theorem reachable_of_detectorRun
    {cfg : Config} {threshold : Nat} {m : Mem}
    {actions : List (DetectorAction Worker)}
    {s : Detector Worker}
    (hRun : detectorRun cfg threshold m actions =
      Except.ok s) :
    (detectorSystem Worker cfg threshold).Reachable s := by
  rcases bind_eq_ok hRun with ⟨s₀, hNew, hRun⟩
  have hStarts := starts_of_omrdNew hNew
  apply TransitionSystem.Reachable.of_foldlM _ _ hRun
  · intro s a s' hStep
    exact step_of_performDetector hStep
  · exact TransitionSystem.Reachable.of_init
      ⟨hStarts, hStarts, rfl, rfl, rfl, fun _ => rfl⟩

end Omrd

end PRacer
