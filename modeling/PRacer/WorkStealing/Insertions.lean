import PRacer.ShadowStack.Correctness

/-
  Single insertions into one of the two orders, below a path
  where one worker makes its branches.

  Main declarations:
    * `Only`, `Only.insert`, `Only.insert_other`
    * `Layout.Room`, `Layout.Inserted`
    * `Layout.insert_english`, `Layout.insert_hebrew`
-/

------------------------------------------------------------
-- One Order
------------------------------------------------------------

namespace PRacer

open Foundations

namespace WorkStealing

/- At and below the address are only some of its branches. -/
def Only
    (o : OrderList) (addr : Nat → List Nat)
    (p : List Nat) (branches : List Nat) : Prop :=
  ∀ n ∈ o.nodes, p <+: addr n →
    addr n = p ∨ ∃ c ∈ branches, addr n = p ++ [c]

namespace Only

variable {o : OrderList} {addr : Nat → List Nat}
variable {Expanded : List Nat → Prop} {p q : List Nat}
variable {branches branches' : List Nat} {base c : Nat}

theorem of_leaf
    (hGrown : Grown o addr Expanded)
    (hLeaf : ¬ Expanded p) :
    Only o addr p branches :=
  fun _ hn hPrefix =>
    Or.inl (hGrown.eq_of_prefix hLeaf hn hPrefix)

/- An insertion of another branch. -/
theorem insert
    (hGrown : Grown o addr Expanded)
    (hExpanded : Expanded p)
    (hOnly : Only o addr p branches)
    (hBase : base ∈ o.nodes)
    (hAt : addr base = p ∨
      ∃ b, b < c ∧ addr base = p ++ [b])
    (hFree : ∀ d ∈ branches,
      c < d ∨ addr base = p ++ [d]) :
    Grown (o.insert base).2
        (Function.update addr o.next (p ++ [c])) Expanded ∧
      Only (o.insert base).2
        (Function.update addr o.next (p ++ [c])) p
        (c :: branches) := by
  have hOld : ∀ n ∈ o.nodes,
      Function.update addr o.next (p ++ [c]) n = addr n :=
    fun n hn =>
      Function.update_of_ne (OrderList.ne_next hn) _ _
  have hpBase : p ≤ addr base := by
    rcases hAt with hEq | ⟨b, -, hEq⟩
    · exact le_of_eq hEq.symm
    · rw [hEq]
      exact Address.le_of_prefix (List.prefix_append _ _)
  refine ⟨(hGrown.insert hBase hAt ?_).mono ?_, ?_⟩
  · intro n hn hPrefix
    rcases hOnly n hn hPrefix with hEq | ⟨d, hd, hEq⟩
    · exact Or.inl (hEq ▸ hpBase)
    · rcases hFree d hd with hLt | hBaseEq
      · exact Or.inr ⟨d, hLt, hEq ▸ List.prefix_refl _⟩
      · exact Or.inl (le_of_eq (hEq.trans hBaseEq.symm))
  · intro q hq
    rcases hq with hq | hq
    · exact hq
    · exact hq ▸ hExpanded
  · intro n hn hPrefix
    rcases (OrderList.mem_insert hBase).mp hn with rfl | hn
    · exact Or.inr ⟨c, by simp, Function.update_self _ _ _⟩
    · rw [hOld n hn] at hPrefix ⊢
      rcases hOnly n hn hPrefix with hEq | ⟨d, hd, hEq⟩
      · exact Or.inl hEq
      · exact Or.inr ⟨d, List.mem_cons_of_mem _ hd, hEq⟩

/- An insertion elsewhere. -/
theorem insert_other
    (hOnly : Only o addr q branches)
    (hBase : base ∈ o.nodes)
    (hNot : ¬ q <+: p ++ [c]) :
    Only (o.insert base).2
      (Function.update addr o.next (p ++ [c])) q
      branches := by
  intro n hn hPrefix
  rcases (OrderList.mem_insert hBase).mp hn with rfl | hn
  · rw [Function.update_self] at hPrefix
    exact absurd hPrefix hNot
  · rw [Function.update_of_ne (OrderList.ne_next hn)]
      at hPrefix ⊢
    exact hOnly n hn hPrefix

end Only

end WorkStealing

------------------------------------------------------------
-- Both Orders
------------------------------------------------------------

namespace Layout

variable {L L' : Layout} {o : ShadowStack} {p q : Path}
variable {inEnglish inHebrew : List Nat} {n base : Nat}

def EnglishAt
    (L : Layout) (o : ShadowStack) (n : Nat) (p : Path) :
    Prop :=
  n ∈ o.english.nodes ∧ L.english n = Path.english p

def HebrewAt
    (L : Layout) (o : ShadowStack) (n : Nat) (p : Path) :
    Prop :=
  n ∈ o.hebrew.nodes ∧ L.hebrew n = Path.hebrew p

/- The path has branches, but nothing below it has. -/
structure Room
    (L : Layout) (o : ShadowStack) (p : Path)
    (inEnglish inHebrew : List Nat) : Prop where
  english :
    WorkStealing.Only o.english L.english (Path.english p)
      inEnglish
  hebrew :
    WorkStealing.Only o.hebrew L.hebrew (Path.hebrew p)
      inHebrew
  expanded : L.expanded p
  below : ∀ q, p <+: q → L.expanded q → q = p

/- What an insertion below a path keeps. -/
structure Inserted
    (L : Layout) (o : ShadowStack)
    (L' : Layout) (o' : ShadowStack) (p : Path) : Prop where
  fits : L'.Fits o'
  english : ∀ n q, L.EnglishAt o n q → L'.EnglishAt o' n q
  hebrew : ∀ n q, L.HebrewAt o n q → L'.HebrewAt o' n q
  expanded : L'.expanded = L.expanded
  room :
    ∀ q inEnglish inHebrew, ¬ q <+: p → ¬ p <+: q →
      L.Room o q inEnglish inHebrew →
      L'.Room o' q inEnglish inHebrew

theorem At.halves
    {e h : Nat}
    (hAt : L.At o (e, h) p) :
    L.EnglishAt o e p ∧ L.HebrewAt o h p :=
  ⟨⟨hAt.mem_english, hAt.english⟩,
    hAt.mem_hebrew, hAt.hebrew⟩

theorem At.of_halves
    {e h : Nat}
    (hEnglish : L.EnglishAt o e p)
    (hHebrew : L.HebrewAt o h p) :
    L.At o (e, h) p :=
  ⟨hEnglish.1, hHebrew.1, hEnglish.2, hHebrew.2⟩

theorem Inserted.at
    {o' : ShadowStack}
    (h : Inserted L o L' o' p)
    (m : Nat × Nat) (q : Path)
    (hAt : L.At o m q) :
    L'.At o' m q := by
  rcases m with ⟨e, k⟩
  exact At.of_halves (h.english e q hAt.halves.1)
    (h.hebrew k q hAt.halves.2)

/- A path that is not above a branch. -/
theorem not_prefix_branch
    (hNot : ¬ q <+: p) (hNot' : ¬ p <+: q) (x : Branch) :
    ¬ q <+: p ++ [x] := by
  intro hPrefix
  rcases List.prefix_concat_iff.mp hPrefix with rfl | h
  · exact hNot' (List.prefix_append _ _)
  · exact hNot h

/- A new branch in english, after a node of the path. -/
theorem insert_english
    (hFits : L.Fits o)
    (hRoom : L.Room o p inEnglish inHebrew)
    (x : Branch)
    (hBase : base ∈ o.english.nodes)
    (hAt : L.english base = Path.english p ∨
      ∃ b, b < x.englishRank ∧
        L.english base = Path.english p ++ [b])
    (hFree : ∀ d ∈ inEnglish, x.englishRank < d ∨
      L.english base = Path.english p ++ [d]) :
    ∃ L' : Layout,
      Inserted L o L'
        { o with english := (o.english.insert base).2 } p ∧
      L'.EnglishAt
        { o with english := (o.english.insert base).2 }
        o.english.next (p ++ [x]) ∧
      L'.Room
        { o with english := (o.english.insert base).2 } p
        (x.englishRank :: inEnglish) inHebrew := by
  have hOld : ∀ n ∈ o.english.nodes,
      Function.update L.english o.english.next
        (Path.english p ++ [x.englishRank]) n =
        L.english n :=
    fun n hn =>
      Function.update_of_ne (OrderList.ne_next hn) _ _
  have hMem : ∀ n, n ∈ (o.english.insert base).2.nodes ↔
      n = o.english.next ∨ n ∈ o.english.nodes :=
    fun n => OrderList.mem_insert hBase
  have hInsert := hRoom.english.insert hFits.english
    ⟨p, hRoom.expanded, rfl⟩ hBase hAt hFree
  refine ⟨{ L with
      english := Function.update L.english o.english.next
        (Path.english p ++ [x.englishRank]) },
    ⟨⟨hInsert.1, hFits.hebrew⟩, ?_, fun n q h => h, rfl, ?_⟩,
    ⟨(hMem _).mpr (Or.inl rfl), ?_⟩,
    ⟨hInsert.2, hRoom.hebrew, hRoom.expanded, hRoom.below⟩⟩
  · rintro n q ⟨hn, hq⟩
    exact ⟨(hMem n).mpr (Or.inr hn), (hOld n hn).trans hq⟩
  · intro q e h hNot hNot' hOther
    refine ⟨hOther.english.insert_other hBase ?_,
      hOther.hebrew, hOther.expanded, hOther.below⟩
    have hPath : Path.english p ++ [x.englishRank] =
        Path.english (p ++ [x]) := by
      simp [Path.english]
    rw [hPath]
    intro hPrefix
    exact not_prefix_branch hNot hNot' x
      ((List.prefix_map_iff_of_injective
        Branch.englishRank_injective).mp hPrefix)
  · simp [Path.english]

/- The same in hebrew. -/
theorem insert_hebrew
    (hFits : L.Fits o)
    (hRoom : L.Room o p inEnglish inHebrew)
    (x : Branch)
    (hBase : base ∈ o.hebrew.nodes)
    (hAt : L.hebrew base = Path.hebrew p ∨
      ∃ b, b < x.hebrewRank ∧
        L.hebrew base = Path.hebrew p ++ [b])
    (hFree : ∀ d ∈ inHebrew, x.hebrewRank < d ∨
      L.hebrew base = Path.hebrew p ++ [d]) :
    ∃ L' : Layout,
      Inserted L o L'
        { o with hebrew := (o.hebrew.insert base).2 } p ∧
      L'.HebrewAt
        { o with hebrew := (o.hebrew.insert base).2 }
        o.hebrew.next (p ++ [x]) ∧
      L'.Room
        { o with hebrew := (o.hebrew.insert base).2 } p
        inEnglish (x.hebrewRank :: inHebrew) := by
  have hOld : ∀ n ∈ o.hebrew.nodes,
      Function.update L.hebrew o.hebrew.next
        (Path.hebrew p ++ [x.hebrewRank]) n =
        L.hebrew n :=
    fun n hn =>
      Function.update_of_ne (OrderList.ne_next hn) _ _
  have hMem : ∀ n, n ∈ (o.hebrew.insert base).2.nodes ↔
      n = o.hebrew.next ∨ n ∈ o.hebrew.nodes :=
    fun n => OrderList.mem_insert hBase
  have hInsert := hRoom.hebrew.insert hFits.hebrew
    ⟨p, hRoom.expanded, rfl⟩ hBase hAt hFree
  refine ⟨{ L with
      hebrew := Function.update L.hebrew o.hebrew.next
        (Path.hebrew p ++ [x.hebrewRank]) },
    ⟨⟨hFits.english, hInsert.1⟩, fun n q h => h, ?_, rfl, ?_⟩,
    ⟨(hMem _).mpr (Or.inl rfl), ?_⟩,
    ⟨hRoom.english, hInsert.2, hRoom.expanded, hRoom.below⟩⟩
  · rintro n q ⟨hn, hq⟩
    exact ⟨(hMem n).mpr (Or.inr hn), (hOld n hn).trans hq⟩
  · intro q e h hNot hNot' hOther
    refine ⟨hOther.english,
      hOther.hebrew.insert_other hBase ?_,
      hOther.expanded, hOther.below⟩
    have hPath : Path.hebrew p ++ [x.hebrewRank] =
        Path.hebrew (p ++ [x]) := by
      simp [Path.hebrew]
    rw [hPath]
    intro hPrefix
    exact not_prefix_branch hNot hNot' x
      ((List.prefix_map_iff_of_injective
        Branch.hebrewRank_injective).mp hPrefix)
  · simp [Path.hebrew]

end Layout

end PRacer
