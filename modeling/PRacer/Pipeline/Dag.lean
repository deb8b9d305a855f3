import Mathlib.Data.Bool.Basic
import Mathlib.Order.Lattice
import Mathlib.Order.Monotone.Basic
import PRacer.Foundations.Address
import PRacer.Pipeline.Model

/-
  The pipeline dag as a two-dimensional order.

  Every cell has an address in each of two trees.  In english
  a column hangs below the first stage of the iteration to
  its left.  In hebrew a cell hangs to the right of its left
  dependency, if that is a new one, and below the previous
  stage otherwise.

  Main declarations:
    * `Pipeline.cursor`
    * `Pipeline.englishAddr`, `Pipeline.hebrewAddr`
    * `Pipeline.reaches_iff`
-/

namespace PRacer

open Foundations

namespace Pipeline

variable (P : Pipeline)

------------------------------------------------------------
-- Left Dependencies
------------------------------------------------------------

/- How many stages of an iteration are numbered up to `n`. -/
def countUpTo (i n : Nat) : Nat :=
  ((P.iteration i).stages.takeWhile
    fun stage => stage.number ≤ n).length

/-
  How many stages of the left iteration precede stage `k` of
  iteration `i` or an earlier stage of it.
-/
def cursor (i : Nat) : Nat → Nat
| 0 => 1
| k + 1 =>
    match (P.iteration i).stages[k + 1]? with
    | none => cursor i k
    | some stage =>
        if stage.waits ∧ 1 < i then
          max (cursor i k)
            (P.countUpTo (i - 1) stage.number)
        else cursor i k

theorem countUpTo_le (i n : Nat) :
    P.countUpTo i n ≤ (P.iteration i).stages.length :=
  (List.takeWhile_sublist _).length_le

/- The stages counted are those numbered up to `n`. -/
theorem lt_countUpTo_iff
    {i n k : Nat} {stage : Stage}
    (hStage : (P.iteration i).stages[k]? = some stage) :
    k < P.countUpTo i n ↔ stage.number ≤ n := by
  have hInc := (P.iteration i).stages_increasing
  unfold countUpTo
  generalize (P.iteration i).stages = stages at hStage hInc
  induction stages generalizing k with
  | nil => simp at hStage
  | cons first rest ih =>
      rw [List.pairwise_cons] at hInc
      cases k with
      | zero =>
          obtain rfl : first = stage := by
            simpa using hStage
          by_cases hLe : first.number ≤ n <;> simp [hLe]
      | succ k =>
          rw [List.getElem?_cons_succ] at hStage
          have hLt : first.number < stage.number :=
            hInc.1 stage (List.mem_of_getElem? hStage)
          by_cases hLe : first.number ≤ n
          · simpa [hLe] using ih hStage hInc.2
          · simp only [hLe, decide_false,
              List.takeWhile_cons]
            simp only [Bool.false_eq_true, if_false,
              List.length_nil, Nat.not_lt_zero, false_iff]
            omega

theorem one_le_cursor (i k : Nat) : 1 ≤ P.cursor i k := by
  induction k with
  | zero => exact le_refl 1
  | succ k ih =>
      unfold cursor
      split
      · exact ih
      · split
        · exact ih.trans (le_max_left _ _)
        · exact ih

theorem cursor_le_succ (i k : Nat) :
    P.cursor i k ≤ P.cursor i (k + 1) := by
  rw [cursor]
  split
  · exact le_refl _
  · split
    · exact le_max_left _ _
    · exact le_refl _

/- The first iteration has no left dependencies. -/
theorem cursor_one (k : Nat) : P.cursor 1 k = 1 := by
  induction k with
  | zero => rfl
  | succ k ih =>
      rw [cursor]
      split <;> simp [ih]

theorem cursor_le_length (i k : Nat) :
    P.cursor i k ≤ (P.iteration (i - 1)).stages.length := by
  induction k with
  | zero => simp [cursor, Iteration.stages]
  | succ k ih =>
      rw [cursor]
      split
      · exact ih
      · split
        · exact max_le ih (P.countUpTo_le _ _)
        · exact ih

/- The cursor grows at wait stages, to what they wait for. -/
theorem cursor_grows
    {i k : Nat}
    (hGrows : P.cursor i k < P.cursor i (k + 1)) :
    ∃ stage, (P.iteration i).stages[k + 1]? = some stage ∧
      stage.waits = true ∧
      P.cursor i (k + 1) =
        P.countUpTo (i - 1) stage.number := by
  rw [cursor] at hGrows ⊢
  cases hStage : (P.iteration i).stages[k + 1]? with
  | none => simp [hStage] at hGrows
  | some stage =>
      by_cases hWaits : stage.waits ∧ 1 < i
      · refine ⟨stage, rfl, hWaits.1, ?_⟩
        simp only [hStage, if_pos hWaits] at hGrows ⊢
        omega
      · simp [hStage, if_neg hWaits] at hGrows

/- The left stages that a wait stage waits for are counted. -/
theorem lt_cursor_of_waits
    {i l k : Nat} {left own : Stage}
    (hPos : 1 ≤ i)
    (hLeft : (P.iteration i).stages[l]? = some left)
    (hOwn : (P.iteration (i + 1)).stages[k]? = some own)
    (hWaits : own.waits = true)
    (hLe : left.number ≤ own.number) :
    l < P.cursor (i + 1) k := by
  cases k with
  | zero =>
      obtain rfl : _ = own := by
        simpa [Iteration.stages] using hOwn
      cases hWaits
  | succ k =>
      rw [cursor, hOwn]
      have hCond : own.waits = true ∧ 1 < i + 1 :=
        ⟨hWaits, by omega⟩
      simp only [if_pos hCond, Nat.add_sub_cancel]
      exact lt_of_lt_of_le
        ((P.lt_countUpTo_iff hLeft).mpr hLe)
        (le_max_right _ _)

------------------------------------------------------------
-- Addresses
------------------------------------------------------------

/- The address of a cell in english; `false` means down. -/
def englishAddr (c : Cell) : List Bool :=
  List.replicate (c.1 - 1) true ++ List.replicate c.2 false

/- The address of a cell in hebrew; `false` means right. -/
def hebrewAddr : Nat → Nat → List Bool
| 0, _ => []
| 1, 0 => []
| i + 2, 0 => hebrewAddr (i + 1) 0 ++ [false]
| i + 1, k + 1 =>
    if P.cursor (i + 1) k < P.cursor (i + 1) (k + 1) then
      hebrewAddr i (P.cursor (i + 1) (k + 1) - 1) ++ [false]
    else hebrewAddr (i + 1) k ++ [true]
termination_by i k => (i, k)

theorem hebrewAddr_first (i : Nat) (hPos : 1 ≤ i) :
    P.hebrewAddr (i + 1) 0 = P.hebrewAddr i 0 ++ [false] := by
  cases i with
  | zero => omega
  | succ i => rw [hebrewAddr]

theorem hebrewAddr_left
    {i k : Nat}
    (hGrows :
      P.cursor (i + 1) k < P.cursor (i + 1) (k + 1)) :
    P.hebrewAddr (i + 1) (k + 1) =
      P.hebrewAddr i (P.cursor (i + 1) (k + 1) - 1) ++
        [false] := by
  rw [hebrewAddr, if_pos hGrows]

theorem hebrewAddr_up
    {i k : Nat}
    (hStays :
      ¬ P.cursor (i + 1) k < P.cursor (i + 1) (k + 1)) :
    P.hebrewAddr (i + 1) (k + 1) =
      P.hebrewAddr (i + 1) k ++ [true] := by
  rw [hebrewAddr, if_neg hStays]

/- The right branches of an address count iterations. -/
theorem count_hebrewAddr (i k : Nat) :
    (P.hebrewAddr (i + 1) k).count false = i := by
  induction i generalizing k with
  | zero =>
      induction k with
      | zero => simp [hebrewAddr]
      | succ k ih =>
          rw [hebrewAddr_up P (by simp [cursor_one])]
          simpa using ih
  | succ i ihLeft =>
      induction k with
      | zero =>
          rw [hebrewAddr_first P (i + 1) (by omega)]
          simp [ihLeft]
      | succ k ih =>
          by_cases hGrows :
              P.cursor (i + 1 + 1) k <
                P.cursor (i + 1 + 1) (k + 1)
          · rw [hebrewAddr_left P hGrows]
            simp [ihLeft]
          · rw [hebrewAddr_up P hGrows]
            simpa using ih

/- A cell lies to the right of its left dependency. -/
theorem left_prefix_hebrewAddr
    (i k : Nat) (hPos : 1 ≤ i) :
    P.hebrewAddr i (P.cursor (i + 1) k - 1) ++ [false] <+:
      P.hebrewAddr (i + 1) k := by
  induction k with
  | zero =>
      rw [hebrewAddr_first P i hPos]
      exact List.prefix_refl _
  | succ k ih =>
      by_cases hGrows :
          P.cursor (i + 1) k < P.cursor (i + 1) (k + 1)
      · simp [hebrewAddr_left P hGrows]
      · have hSame :
            P.cursor (i + 1) (k + 1) =
              P.cursor (i + 1) k :=
          le_antisymm (not_lt.mp hGrows)
            (P.cursor_le_succ (i + 1) k)
        rw [hSame, hebrewAddr_up P hGrows]
        exact ih.trans (List.prefix_append _ _)

/- No cell of an iteration lies to the right of another. -/
theorem not_right_prefix
    {i j k l : Nat} (hij : i ≤ j) :
    ¬ P.hebrewAddr (j + 1) l ++ [false] <+:
      P.hebrewAddr (i + 1) k := by
  intro hPrefix
  have hCount := hPrefix.sublist.count_le false
  simp only [List.count_append, List.count_singleton_self,
    count_hebrewAddr] at hCount
  omega

/- Down a column, hebrew addresses grow. -/
theorem hebrewAddr_lt_succ (i k : Nat) :
    P.hebrewAddr (i + 1) k < P.hebrewAddr (i + 1) (k + 1) := by
  induction i generalizing k with
  | zero =>
      rw [hebrewAddr_up P (by simp [cursor_one])]
      exact Address.lt_append _ (by simp)
  | succ i ih =>
      by_cases hGrows :
          P.cursor (i + 1 + 1) k <
            P.cursor (i + 1 + 1) (k + 1)
      · -- The cell and its predecessor have different
        -- left dependencies, in order down their column.
        have hMono : StrictMono (P.hebrewAddr (i + 1)) :=
          strictMono_nat_of_lt_succ ih
        have hOld := P.one_le_cursor (i + 1 + 1) k
        have hLeft :
            P.hebrewAddr (i + 1)
                (P.cursor (i + 1 + 1) k - 1) <
              P.hebrewAddr (i + 1)
                (P.cursor (i + 1 + 1) (k + 1) - 1) :=
          hMono (by omega)
        have hBefore :
            P.hebrewAddr (i + 1 + 1) k <
              P.hebrewAddr (i + 1)
                (P.cursor (i + 1 + 1) (k + 1) - 1) := by
          by_contra hNot
          rcases (not_lt.mp hNot).lt_or_eq with hLt | hEq
          · exact P.not_right_prefix (le_refl i)
              (Address.prefix_of_between Bool.false_le hLeft
                hLt (P.left_prefix_hebrewAddr (i + 1) k
                  (by omega)))
          · have hCount := congrArg (List.count false) hEq
            rw [count_hebrewAddr, count_hebrewAddr] at hCount
            omega
        rw [hebrewAddr_left P hGrows]
        exact hBefore.trans (Address.lt_append _ (by simp))
      · rw [hebrewAddr_up P hGrows]
        exact Address.lt_append _ (by simp)

theorem hebrewAddr_strictMono (i : Nat) :
    StrictMono (P.hebrewAddr (i + 1)) :=
  strictMono_nat_of_lt_succ (P.hebrewAddr_lt_succ i)

/- Left dependencies come before a cell in hebrew. -/
theorem left_lt_hebrewAddr
    {i k l : Nat}
    (hLt : l < P.cursor (i + 1 + 1) k) :
    P.hebrewAddr (i + 1) l < P.hebrewAddr (i + 1 + 1) k := by
  have hLe :
      P.hebrewAddr (i + 1) l ≤
        P.hebrewAddr (i + 1) (P.cursor (i + 1 + 1) k - 1) :=
    (P.hebrewAddr_strictMono i).monotone (by omega)
  have hPrefix := P.left_prefix_hebrewAddr (i + 1) k
    (by omega)
  refine lt_of_lt_of_le (hLe.trans_lt ?_)
    (Address.le_of_prefix hPrefix)
  exact Address.lt_append _ (by simp)

/- English lists the cells column by column. -/
theorem englishAddr_lt_iff
    {i k j l : Nat} :
    englishAddr (i + 1, k) < englishAddr (j + 1, l) ↔
      i < j ∨ (i = j ∧ k < l) := by
  have hColumn : ∀ {i j k l : Nat}, i < j →
      englishAddr (i + 1, k) < englishAddr (j + 1, l) := by
    intro i j k l hLt
    obtain ⟨d, rfl⟩ : ∃ d, j = i + (d + 1) :=
      ⟨j - i - 1, by omega⟩
    simp only [englishAddr, Nat.add_sub_cancel,
      List.replicate_add i (d + 1), List.append_assoc]
    rw [Address.append_lt_append_iff]
    cases k with
    | zero => simp [List.replicate_succ]
    | succ k =>
        simp [List.replicate_succ, List.cons_lt_cons_iff]
  have hRow : ∀ {i k l : Nat}, k < l →
      englishAddr (i + 1, k) < englishAddr (i + 1, l) := by
    intro i k l hLt
    obtain ⟨d, rfl⟩ : ∃ d, l = k + (d + 1) :=
      ⟨l - k - 1, by omega⟩
    simp only [englishAddr, List.replicate_add k (d + 1),
      ← List.append_assoc]
    exact Address.lt_append _ (by simp)
  constructor
  · intro hLt
    by_contra hNot
    rcases lt_trichotomy i j with h | h | h
    · exact hNot (Or.inl h)
    · subst h
      rcases lt_trichotomy k l with h | h | h
      · exact hNot (Or.inr ⟨rfl, h⟩)
      · subst h
        exact lt_irrefl _ hLt
      · exact lt_asymm hLt (hRow h)
    · exact lt_asymm hLt (hColumn h)
  · rintro (hLt | ⟨rfl, hLt⟩)
    · exact hColumn hLt
    · exact hRow hLt

------------------------------------------------------------
-- Reachability
------------------------------------------------------------

variable {P}

theorem Has.of_le
    {i k l : Nat}
    (hHas : P.Has (i, l)) (hLe : k ≤ l) :
    P.Has (i, k) :=
  ⟨hHas.1, hHas.2.1, lt_of_le_of_lt hLe hHas.2.2⟩

theorem Has.exists_stage
    {i k : Nat} (hHas : P.Has (i, k)) :
    ∃ stage, (P.iteration i).stages[k]? = some stage :=
  ⟨_, List.getElem?_eq_getElem hHas.2.2⟩

/- The left dependency of a cell is a cell. -/
theorem Has.left
    {i k : Nat}
    (hHas : P.Has (i + 1 + 1, k)) :
    P.Has (i + 1, P.cursor (i + 1 + 1) k - 1) := by
  have hLength := P.cursor_le_length (i + 1 + 1) k
  have hPos := P.one_le_cursor (i + 1 + 1) k
  have hCount := hHas.2.1
  refine ⟨Nat.succ_pos i, ?_, ?_⟩
  · exact Nat.le_of_succ_le hCount
  · simp only [Nat.add_sub_cancel] at hLength
    show P.cursor (i + 1 + 1) k - 1 <
      (P.iteration (i + 1)).stages.length
    omega

/- Down a column, cells reach each other. -/
theorem reaches_down
    {i k l : Nat}
    (hHas : P.Has (i, l)) (hLt : k < l) :
    P.Reaches (i, k) (i, l) := by
  induction l with
  | zero => exact absurd hLt (Nat.not_lt_zero k)
  | succ l ih =>
      have hEdge : P.Edge (i, l) (i, l + 1) :=
        Edge.next i l hHas
      rcases Nat.lt_succ_iff_lt_or_eq.mp hLt with h | rfl
      · exact (ih (hHas.of_le (Nat.le_succ l)) h).tail hEdge
      · exact Relation.TransGen.single hEdge

/- The left dependency of a cell reaches it. -/
theorem reaches_of_left
    {i k : Nat}
    (hHas : P.Has (i + 1 + 1, k)) :
    P.Reaches (i + 1, P.cursor (i + 1 + 1) k - 1)
      (i + 1 + 1, k) := by
  induction k with
  | zero =>
      have hLeft : P.Has (i + 1, 0) := by
        simpa [cursor] using hHas.left
      exact Relation.TransGen.single
        (Edge.first (i + 1) hLeft hHas)
  | succ k ih =>
      by_cases hGrows :
          P.cursor (i + 1 + 1) k <
            P.cursor (i + 1 + 1) (k + 1)
      · -- A new dependency is an edge of its own.
        rcases P.cursor_grows hGrows with
          ⟨own, hOwn, hWaits, hCount⟩
        have hLeft := hHas.left
        have hLength := hLeft.2.2
        have hPos := P.one_le_cursor (i + 1 + 1) (k + 1)
        have hStage :
            (P.iteration (i + 1)).stages[
              P.cursor (i + 1 + 1) (k + 1) - 1]? =
              some _ :=
          List.getElem?_eq_getElem hLength
        refine Relation.TransGen.single
          (Edge.wait (i + 1) _ (k + 1) _ own hLeft hHas
            hStage hOwn hWaits ?_)
        refine (P.lt_countUpTo_iff hStage).mp ?_
        simp only [Nat.add_sub_cancel] at hCount
        omega
      · have hSame :
            P.cursor (i + 1 + 1) (k + 1) =
              P.cursor (i + 1 + 1) k :=
          le_antisymm (not_lt.mp hGrows)
            (P.cursor_le_succ _ k)
        rw [hSame]
        exact (ih (hHas.of_le (Nat.le_succ k))).tail
          (Edge.next (i + 1 + 1) k hHas)

/- Both addresses grow along an edge. -/
theorem Edge.lt
    {c d : Cell} (hEdge : P.Edge c d) :
    englishAddr c < englishAddr d ∧
      P.hebrewAddr c.1 c.2 < P.hebrewAddr d.1 d.2 := by
  cases hEdge with
  | next i k hHas =>
      obtain ⟨i, rfl⟩ : ∃ j, i = j + 1 :=
        ⟨i - 1, (Nat.sub_add_cancel hHas.1).symm⟩
      exact ⟨englishAddr_lt_iff.mpr
        (Or.inr ⟨rfl, Nat.lt_succ_self k⟩),
        P.hebrewAddr_lt_succ i k⟩
  | first i hHas _ =>
      obtain ⟨i, rfl⟩ : ∃ j, i = j + 1 :=
        ⟨i - 1, (Nat.sub_add_cancel hHas.1).symm⟩
      refine ⟨englishAddr_lt_iff.mpr
        (Or.inl (Nat.lt_succ_self i)),
        P.left_lt_hebrewAddr ?_⟩
      exact P.one_le_cursor _ 0
  | wait i l k left own hHas _ hLeft hOwn hWaits hLe =>
      obtain ⟨i, rfl⟩ : ∃ j, i = j + 1 :=
        ⟨i - 1, (Nat.sub_add_cancel hHas.1).symm⟩
      exact ⟨englishAddr_lt_iff.mpr
        (Or.inl (Nat.lt_succ_self i)),
        P.left_lt_hebrewAddr (P.lt_cursor_of_waits hHas.1
          hLeft hOwn hWaits hLe)⟩

theorem Reaches.lt
    {c d : Cell} (hReach : P.Reaches c d) :
    englishAddr c < englishAddr d ∧
      P.hebrewAddr c.1 c.2 < P.hebrewAddr d.1 d.2 := by
  induction hReach with
  | single hEdge => exact hEdge.lt
  | tail _ hEdge ih =>
      exact ⟨ih.1.trans hEdge.lt.1, ih.2.trans hEdge.lt.2⟩

/-
  A cell of an earlier iteration that hebrew puts before a
  cell comes no later than its left dependency.
-/
theorem le_left_of_hebrewAddr_lt
    {i j k l : Nat}
    (hij : i ≤ j)
    (hLt :
      P.hebrewAddr (i + 1) k < P.hebrewAddr (j + 1 + 1) l) :
    P.hebrewAddr (i + 1) k ≤
      P.hebrewAddr (j + 1)
        (P.cursor (j + 1 + 1) l - 1) := by
  by_contra hNot
  exact P.not_right_prefix hij
    (Address.prefix_of_between Bool.false_le
      (not_le.mp hNot) hLt
      (P.left_prefix_hebrewAddr (j + 1) l
        (Nat.succ_pos j)))

/- A cell reaches those that both orders put after it. -/
theorem reaches_of_lt
    {i j k l : Nat}
    (hc : P.Has (i + 1, k))
    (hd : P.Has (j + 1, l))
    (hEnglish :
      englishAddr (i + 1, k) < englishAddr (j + 1, l))
    (hHebrew :
      P.hebrewAddr (i + 1) k < P.hebrewAddr (j + 1) l) :
    P.Reaches (i + 1, k) (j + 1, l) := by
  induction j generalizing l with
  | zero =>
      rcases englishAddr_lt_iff.mp hEnglish with
        h | ⟨rfl, hLt⟩
      · exact absurd h (Nat.not_lt_zero i)
      · exact reaches_down hd hLt
  | succ j ih =>
      rcases englishAddr_lt_iff.mp hEnglish with
        hij | ⟨rfl, hLt⟩
      · have hLe : i ≤ j := Nat.lt_succ_iff.mp hij
        have hLeft := le_left_of_hebrewAddr_lt hLe hHebrew
        have hEdge := reaches_of_left hd
        rcases hLe.lt_or_eq with hLess | rfl
        · rcases hLeft.lt_or_eq with hBefore | hSame
          · exact (ih hd.left (englishAddr_lt_iff.mpr
              (Or.inl hLess)) hBefore).trans hEdge
          · have hCount := congrArg (List.count false) hSame
            rw [count_hebrewAddr, count_hebrewAddr] at hCount
            exact absurd hCount hLess.ne
        · have hRow :=
            (P.hebrewAddr_strictMono i).le_iff_le.mp hLeft
          rcases hRow.lt_or_eq with hLess | hSame
          · exact (reaches_down hd.left hLess).trans hEdge
          · rw [hSame]
            exact hEdge
      · exact reaches_down hd hLt

/-
  A cell reaches another exactly when both trees list it
  first.
-/
theorem reaches_iff
    {c d : Cell} (hc : P.Has c) (hd : P.Has d) :
    P.Reaches c d ↔
      englishAddr c < englishAddr d ∧
        P.hebrewAddr c.1 c.2 < P.hebrewAddr d.1 d.2 := by
  constructor
  · exact Reaches.lt
  · rintro ⟨hEnglish, hHebrew⟩
    rcases c with ⟨i, k⟩
    rcases d with ⟨j, l⟩
    obtain ⟨i, rfl⟩ : ∃ n, i = n + 1 :=
      ⟨i - 1, (Nat.sub_add_cancel hc.1).symm⟩
    obtain ⟨j, rfl⟩ : ∃ n, j = n + 1 :=
      ⟨j - 1, (Nat.sub_add_cancel hd.1).symm⟩
    exact reaches_of_lt hc hd hEnglish hHebrew

/- Different cells have different addresses in both trees. -/
theorem addr_injective
    {c d : Cell} (hc : P.Has c) (hd : P.Has d)
    (hSame : englishAddr c = englishAddr d ∨
      P.hebrewAddr c.1 c.2 = P.hebrewAddr d.1 d.2) :
    c = d := by
  rcases c with ⟨i, k⟩
  rcases d with ⟨j, l⟩
  obtain ⟨i, rfl⟩ : ∃ n, i = n + 1 :=
    ⟨i - 1, (Nat.sub_add_cancel hc.1).symm⟩
  obtain ⟨j, rfl⟩ : ∃ n, j = n + 1 :=
    ⟨j - 1, (Nat.sub_add_cancel hd.1).symm⟩
  rcases hSame with hEnglish | hHebrew
  · have hForward : ¬ (i < j ∨ (i = j ∧ k < l)) :=
      mt englishAddr_lt_iff.mpr hEnglish.not_lt
    have hBackward : ¬ (j < i ∨ (j = i ∧ l < k)) :=
      mt englishAddr_lt_iff.mpr hEnglish.symm.not_lt
    obtain ⟨rfl, rfl⟩ : i = j ∧ k = l := by omega
    rfl
  · have hCount := congrArg (List.count false) hHebrew
    simp only [count_hebrewAddr] at hCount
    subst hCount
    have hRow : k = l :=
      (P.hebrewAddr_strictMono i).injective hHebrew
    rw [hRow]

end Pipeline

end PRacer
