import Mathlib.Data.Prod.Lex
import PRacer.OrderMaint.Relabeling
import PRacer.Foundations.InsertionOrder

/-
  Runs of the order-maintenance structure.

  The structure is compared with a list of its nodes, in
  which an insertion puts the new node right after its base.

  Main declarations:
    * `OmState`, `omSystem`
    * `Maintained`, `maintained_of_reachable`
    * `Maintained.omPrecedes_eq`
    * `Maintained.liveLeaf`
-/

namespace PRacer

open Foundations

namespace OrderMaint

------------------------------------------------------------
-- Runs
------------------------------------------------------------

/-
  The memory and the structure, with the list of the nodes
  in the order in which they should be.
-/
structure OmState where
  mem : Mem
  om : Om
  order : List Nat

/- What a client of the structure does. -/
inductive OmAction where
| insertInitial
| insert (base : Nat)
| relabel (heavy : List Nat)

/- The nodes that links lead to from the root of a tree. -/
inductive InTree (tls : Heap TlNode) (root : Nat) :
    Nat → Prop
| root : InTree tls root root
| left {p q : Nat} {x : TlNode} :
    InTree tls root p → tls.get p = some x →
      x.left = some q → InTree tls root q
| right {p q : Nat} {x : TlNode} :
    InTree tls root p → tls.get p = some x →
      x.right = some q → InTree tls root q

/- A node of the tree that is at the level of the leaves. -/
def LiveLeaf
    (cfg : Config) (m : Mem) (om : Om) (p : Nat) : Prop :=
  InTree m.tls om.root p ∧
    ∃ x, m.tls.get p = some x ∧ x.level = cfg.maxLevel

/- The order after an insertion, which may have failed. -/
def orderAfter
    (base : Nat) (order : List Nat) : Option Nat → List Nat
| none => order
| some n => insertAfter base n order

/- One call, if it returns. -/
def omStep (cfg : Config) (s : OmState) :
    OmAction → OmState → Prop
| .insertInitial, s' =>
    s.order = [] ∧ s'.om = s.om ∧
      ∃ n, omInsertInitial s.mem s.om =
          Except.ok (s'.mem, n) ∧
        s'.order = [n]
| .insert base, s' =>
    base ∈ s.order ∧ s'.om = s.om ∧
      ∃ r, omInsert cfg s.mem base = Except.ok (s'.mem, r) ∧
        s'.order = orderAfter base s.order r
| .relabel heavy, s' =>
    heavy.Nodup ∧
      (∀ p ∈ heavy, LiveLeaf cfg s.mem s.om p) ∧
      omRelabel cfg s.mem s.om heavy =
        Except.ok (s'.mem, s'.om) ∧
      s'.order = s.order

/- A structure is made, and then used. -/
def omSystem (cfg : Config) :
    TransitionSystem OmState OmAction where
  init s := s.order = [] ∧
    ∃ m₀, omNew cfg m₀ = Except.ok (s.mem, s.om)
  step := omStep cfg

/-
  The nodes of the lists below the leaves, from left to
  right, are the nodes in order.  No leaf is deeper than the
  recorded height.
-/
structure Maintained
    (cfg : Config) (s : OmState) (t : Shape)
    (yss : List (List (Nat × Label))) : Prop where
  stored : Stored cfg s.mem s.om t yss
  unmarked : t.marked = false
  order : s.order = yss.flatten.map Prod.fst
  shallow : cfg.LogsBound → t.depth ≤ s.om.height

------------------------------------------------------------
-- A New Structure
------------------------------------------------------------

/- A new structure has a single leaf with an empty list. -/
theorem omNew_spec
    {cfg : Config} {m₀ m : Mem} {om : Om}
    (hRun : omNew cfg m₀ = Except.ok (m, om)) :
    Stored cfg m om (.leaf m₀.tls.next m₀.lists.next)
      [[]] := by
  unfold omNew tlNodeNew blNew at hRun
  simp [Mem.setTl, Mem.setList, Heap.get_modify, pure,
    Except.pure] at hRun
  rcases hRun with ⟨hm, rfl⟩
  have hRoot : m.tls.get m₀.tls.next = some
      { label := 0, level := cfg.maxLevel, numLeaves := 1
        parent := none, left := none, right := none
        below := .list m₀.lists.next
        needsRebalance := false } := by
    rw [← hm]
    simp [Heap.get_modify]
  have hList : m.lists.get m₀.lists.next = some
      { head := none, tail := none
        above := some m₀.tls.next, heavy := false } := by
    rw [← hm]
    simp [Heap.get_modify]
  constructor
  · rfl
  · exact hRoot
  · exact List.nodup_singleton _
  · apply List.Forall₂.cons _ List.Forall₂.nil
    constructor
    · exact ⟨_, hList, rfl⟩
    · exact ⟨⟨_, hList, rfl, rfl⟩, trivial,
        List.Pairwise.nil⟩
  · exact List.nodup_singleton _
  · exact List.nodup_nil
  · trivial

------------------------------------------------------------
-- Insertions
------------------------------------------------------------

/- The nodes of the lists are allocated. -/
theorem nodes_lt_next
    {m : Mem} {ls : List (Nat × Nat)}
    {us : List (List (Nat × Label))}
    (h : List.Forall₂ (ListOf m) ls us) :
    ∀ q ∈ us.flatten.map Prod.fst, q < m.nodes.next := by
  induction h with
  | nil => simp
  | @cons x ys ls us hHead _ ih =>
      intro q hq
      rw [List.flatten_cons, List.map_append,
        List.mem_append] at hq
      rcases hq with hq | hq
      · rw [List.mem_map] at hq
        rcases hq with ⟨z, hz, rfl⟩
        rcases hHead.linked.chain.exists_get hz with
          ⟨_, _, hGet⟩
        exact Heap.lt_next hGet
      · exact ih q hq

/- The leaf and the list that a node belongs to. -/
structure Within
    (m : Mem) (base p l : Nat)
    (lab : Label) (ls rs : List (Nat × Nat))
    (us vs : List (List (Nat × Label)))
    (xs ys : List (Nat × Label)) : Prop where
  left : List.Forall₂ (ListOf m) ls us
  right : List.Forall₂ (ListOf m) rs vs
  listOf : ListOf m (p, l) (xs ++ (base, lab) :: ys)

theorem Stored.within
    {cfg : Config} {m : Mem} {om : Om} {t : Shape}
    {yss : List (List (Nat × Label))} {base : Nat}
    (h : Stored cfg m om t yss)
    (hBase : base ∈ yss.flatten.map Prod.fst) :
    ∃ p l lab ls rs us vs xs ys,
      t.leaves = ls ++ (p, l) :: rs ∧
      yss = us ++ (xs ++ (base, lab) :: ys) :: vs ∧
      Within m base p l lab ls rs us vs xs ys := by
  rw [List.mem_map] at hBase
  rcases hBase with ⟨⟨q, lab⟩, hMem, rfl⟩
  rw [List.mem_flatten] at hMem
  rcases hMem with ⟨zs, hzs, hMem⟩
  rcases List.mem_iff_append.mp hzs with ⟨us, vs, rfl⟩
  rcases List.mem_iff_append.mp hMem with ⟨xs, ys, rfl⟩
  rcases forall₂_middle h.lists.flip with
    ⟨ls, x, rs, hLeaves, hLeft, hOf, hRight⟩
  exact ⟨x.1, x.2, lab, ls, rs, us, vs, xs, ys, hLeaves, rfl,
    hLeft.flip, hRight.flip, hOf⟩

/- A node that was inserted into one of the lists. -/
theorem Stored.insert
    {cfg : Config} {m m' : Mem} {om : Om} {t : Shape}
    {base p l : Nat} {lab new : Label}
    {ls rs : List (Nat × Nat)}
    {us vs : List (List (Nat × Label))}
    {xs ys : List (Nat × Label)}
    (h : Stored cfg m om t
      (us ++ (xs ++ (base, lab) :: ys) :: vs))
    (hLeaves : t.leaves = ls ++ (p, l) :: rs)
    (hWithin : Within m base p l lab ls rs us vs xs ys)
    (hInserted : Inserted cfg m m' l base xs lab new ys) :
    Stored cfg m' om t (us ++ (xs ++ (base, lab) ::
        (m.nodes.next, new) :: ys) :: vs) ∧
      (us ++ (xs ++ (base, lab) ::
          (m.nodes.next, new) :: ys) :: vs).flatten.map
            Prod.fst =
        insertAfter base m.nodes.next
          ((us ++ (xs ++ (base, lab) :: ys) ::
            vs).flatten.map Prod.fst) ∧
      ∀ x ∈ ls ++ rs, SameList m m' x.2 := by
  have hFrame := hInserted.frame
  have hFresh := nodes_lt_next h.lists
  have hNodes := h.nodupNodes
  have hLists := h.nodupLists
  rw [hLeaves] at hLists
  simp only [List.map_append, List.map_cons,
    List.nodup_append', List.nodup_cons,
    List.disjoint_cons_right] at hLists
  rcases hLists with ⟨-, ⟨hlR, -⟩, hlL, -⟩
  have hOrder : (us ++ (xs ++ (base, lab) ::
      (m.nodes.next, new) :: ys) :: vs).flatten.map Prod.fst =
        insertAfter base m.nodes.next
          ((us ++ (xs ++ (base, lab) :: ys) ::
            vs).flatten.map Prod.fst) := by
    simp only [List.flatten_append, List.flatten_cons,
      List.map_append, List.map_cons, List.append_assoc,
      List.cons_append] at hNodes ⊢
    rw [← List.append_assoc, ← List.append_assoc,
      insertAfter_append_cons]
    intro hMem
    rw [← List.append_assoc, List.nodup_append'] at hNodes
    exact hNodes.2.2 hMem (List.mem_cons_self ..)
  have hOther : ∀ k, k < m.nodes.next →
      k ∉ (xs ++ (base, lab) :: ys).map Prod.fst →
        m'.nodes.get k = m.nodes.get k := by
    intro k hk hNot
    apply hFrame.otherNodes k _ hNot
    omega
  simp only [List.flatten_append, List.flatten_cons,
    List.map_append, List.nodup_append',
    List.disjoint_append_right] at hNodes
  rcases hNodes with ⟨-, ⟨-, -, hVs⟩, hUs, -⟩
  rcases lists_same m' hWithin.left
    (by
      intro x hx
      apply hFrame.otherLists
      rintro rfl
      exact hlL (List.mem_map_of_mem hx))
    (by
      intro zs hzs q hq
      have hqUs := mem_flatten_map hzs hq
      apply hOther q (nodes_lt_next hWithin.left q hqUs)
      rw [List.map_append, List.mem_append]
      intro hMem
      rcases hMem with hMem | hMem
      · exact hUs.1 hqUs hMem
      · exact hUs.2 hqUs hMem) with
    ⟨hLeft, hSameL⟩
  rcases lists_same m' hWithin.right
    (by
      intro x hx
      apply hFrame.otherLists
      rintro rfl
      exact hlR (List.mem_map_of_mem hx))
    (by
      intro zs hzs q hq
      have hqVs := mem_flatten_map hzs hq
      apply hOther q (nodes_lt_next hWithin.right q hqVs)
      rw [List.map_append]
      intro hMem
      exact hVs hMem hqVs) with
    ⟨hRight, hSameR⟩
  have hOf : ListOf m' (p, l) (xs ++ (base, lab) ::
      (m.nodes.next, new) :: ys) := by
    rcases hWithin.listOf.above with ⟨k, hGet, hAbove⟩
    rcases hFrame.thisList k hGet with ⟨tail, hGet'⟩
    exact ⟨⟨_, hGet', hAbove⟩, hInserted.linked⟩
  refine ⟨?_, hOrder, ?_⟩
  · constructor
    · exact h.root
    · rw [hFrame.tls]
      exact h.rep
    · exact h.nodup
    · rw [hLeaves]
      exact List.rel_append hLeft
        (List.Forall₂.cons hOf hRight)
    · exact h.nodupLists
    · rw [hOrder]
      apply nodup_insertAfter h.nodupNodes
      intro hMem
      exact Nat.lt_irrefl _ (hFresh _ hMem)
    · exact h.deep
  · intro x hx
    rw [List.mem_append] at hx
    rcases hx with hx | hx
    · exact hSameL x hx
    · exact hSameR x hx

/- The record of a leaf of a tree without heavy leaves. -/
theorem Rep.get_leaf
    {cfg : Config} {tls : Heap TlNode}
    {parent : Option Nat} {lo level : Nat} {t : Shape}
    (h : Rep cfg tls parent lo level false t)
    (hMarked : t.marked = false) :
    ∀ x ∈ t.leaves, ∃ y, tls.get x.1 = some y ∧
      y.level = cfg.maxLevel ∧ y.below = .list x.2 := by
  induction t generalizing parent lo level with
  | leaf p l =>
      intro x hx
      rw [Shape.leaves, List.mem_singleton] at hx
      subst hx
      exact ⟨_, h, rfl, rfl⟩
  | heavy p parts => cases hMarked
  | node p left right ihLeft ihRight =>
      rcases h with ⟨-, -, hLeft, hRight⟩
      rw [Shape.marked, Bool.or_eq_false_iff] at hMarked
      rw [hMarked.1] at hLeft
      rw [hMarked.2] at hRight
      intro x hx
      rw [Shape.leaves, List.mem_append] at hx
      rcases hx with hx | hx
      · exact ihLeft hLeft hMarked.1 x hx
      · exact ihRight hRight hMarked.2 x hx

/- An insertion reaches the list of its base. -/
theorem Stored.omInsert_eq
    {cfg : Config} {m : Mem} {om : Om} {t : Shape}
    {yss : List (List (Nat × Label))}
    {base p l : Nat} {lab : Label}
    {ls rs : List (Nat × Nat)}
    {us vs : List (List (Nat × Label))}
    {xs ys : List (Nat × Label)}
    (h : Stored cfg m om t yss)
    (hMarked : t.marked = false)
    (hLeaf : (p, l) ∈ t.leaves)
    (hWithin : Within m base p l lab ls rs us vs xs ys) :
    omInsert cfg m base = (do
      let (m, n) ← blInsert cfg m l base
      match n with
      | none => return (m, none)
      | some n => do
          let x ← Mem.load m.nodes n
          let b ← Mem.load m.nodes base
          check (b.label < x.label)
          return (m, some n)) := by
  have hRep := h.rep
  rw [hMarked] at hRep
  rcases hRep.get_leaf hMarked _ hLeaf with
    ⟨y, hGet, hLevel, hBelow⟩
  rcases hWithin.listOf.above with ⟨k, hList, hAbove⟩
  have hNode : ∃ b, m.nodes.get base = some b ∧ b.list = l :=
    ⟨_, hWithin.listOf.linked.chain.get_middle, rfl⟩
  rcases hNode with ⟨b, hBase, rfl⟩
  unfold omInsert
  rw [Mem.load_of_get hBase, ok_bind,
    Mem.load_of_get hList, ok_bind, hAbove, deref_some,
    ok_bind, Mem.load_of_get hGet, ok_bind, check_of hLevel,
    ok_bind, check_of hBelow]
  rfl

/- The outcomes of an insertion, if it returns. -/
theorem Stored.of_omInsert
    {cfg : Config} {m m' : Mem} {om : Om} {t : Shape}
    {yss : List (List (Nat × Label))}
    {base p l : Nat} {lab : Label} {r : Option Nat}
    {ls rs : List (Nat × Nat)}
    {us vs : List (List (Nat × Label))}
    {xs ys : List (Nat × Label)}
    (h : Stored cfg m om t yss)
    (hMarked : t.marked = false)
    (hLeaf : (p, l) ∈ t.leaves)
    (hWithin : Within m base p l lab ls rs us vs xs ys)
    (hRun : omInsert cfg m base = Except.ok (m', r)) :
    (m' = m ∧ r = none) ∨
      (r = some m.nodes.next ∧
        ∃ new, Inserted cfg m m' l base xs lab new ys) := by
  rw [h.omInsert_eq hMarked hLeaf hWithin] at hRun
  rcases blInsert_cases cfg hWithin.listOf.linked with
    hNone | hFault | ⟨m₁, new, hOk, hInserted⟩
  · rw [hNone, ok_bind] at hRun
    cases hRun
    exact Or.inl ⟨rfl, rfl⟩
  · rw [hFault, error_bind] at hRun
    cases hRun
  · rw [hOk, ok_bind] at hRun
    dsimp only at hRun
    rcases bind_eq_ok hRun with ⟨x, -, hRun⟩
    rcases bind_eq_ok hRun with ⟨b, -, hRun⟩
    rcases bind_eq_ok hRun with ⟨u, -, hRun⟩
    cases hRun
    exact Or.inr ⟨rfl, new, hInserted⟩

/- An insertion keeps the order. -/
theorem Maintained.insert
    {cfg : Config} {s s' : OmState} {t : Shape}
    {yss : List (List (Nat × Label))} {base : Nat}
    (h : Maintained cfg s t yss)
    (hStep : omStep cfg s (.insert base) s') :
    ∃ yss', Maintained cfg s' t yss' := by
  rcases hStep with ⟨hBase, hOm, r, hRun, hOrder⟩
  rw [h.order] at hBase
  rcases h.stored.within hBase with
    ⟨p, l, lab, ls, rs, us, vs, xs, ys, hLeaves, rfl,
      hWithin⟩
  have hLeaf : (p, l) ∈ t.leaves := by
    rw [hLeaves]
    simp
  rcases h.stored.of_omInsert h.unmarked hLeaf hWithin hRun
    with ⟨hMem, rfl⟩ | ⟨rfl, new, hInserted⟩
  · have hStored := h.stored
    have hShallow := h.shallow
    rw [← hOm] at hStored hShallow
    rw [← hMem] at hStored
    exact ⟨_, hStored, h.unmarked, hOrder.trans h.order,
      hShallow⟩
  · rcases h.stored.insert hLeaves hWithin hInserted with
      ⟨hStored, hFlatten, -⟩
    have hShallow := h.shallow
    rw [← hOm] at hStored hShallow
    rw [← h.order] at hFlatten
    exact ⟨_, hStored, h.unmarked,
      hOrder.trans hFlatten.symm, hShallow⟩

/- The first node is inserted into a list without nodes. -/
theorem blInsertInitial_spec
    {m m' : Mem} {p l n : Nat} {xs : List (Nat × Label)}
    (hOf : ListOf m (p, l) xs)
    (hRun : blInsertInitial m l = Except.ok (m', n)) :
    xs = [] ∧ m'.tls = m.tls ∧
      ListOf m' (p, l) [(n, 0)] := by
  rcases hOf.above with ⟨k, hGet, hAbove⟩
  rcases hOf.linked.ends with ⟨k', hGet', hHead, -⟩
  rw [hGet] at hGet'
  cases hGet'
  have hLinked := (linked_of_blInsertInitial hGet hRun).2
  unfold blInsertInitial at hRun
  rw [Mem.load_of_get hGet, ok_bind] at hRun
  rcases bind_eq_ok hRun with ⟨u, hCheck, hRun⟩
  have hNone := of_check hCheck
  have hNil : xs = [] := by
    cases xs with
    | nil => rfl
    | cons x xs =>
        rw [hHead] at hNone
        cases hNone
  dsimp only at hGet hAbove
  simp [nodeNew, insertInternal, Mem.setList, Mem.setNode,
    hGet, Heap.get_modify, pure, Except.pure] at hRun
  rcases hRun with ⟨rfl, rfl⟩
  refine ⟨hNil, rfl, ⟨_, Heap.get_modify_self _ hGet, ?_⟩,
    hLinked⟩
  exact hAbove

/- An unmarked tree with a single leaf is a leaf. -/
theorem Shape.eq_leaf
    {cfg : Config} {tls : Heap TlNode}
    {parent : Option Nat} {lo level : Nat} {t : Shape}
    (hRep : Rep cfg tls parent lo level false t)
    (hMarked : t.marked = false)
    (hCount : t.count = 1) :
    ∃ p l, t = .leaf p l := by
  cases t with
  | leaf p l => exact ⟨p, l, rfl⟩
  | heavy p parts => cases hMarked
  | node p left right =>
      have hLeft := hRep.2.2.1.count_pos
      have hRight := hRep.2.2.2.count_pos
      rw [Shape.count_node] at hCount
      omega

/- The first insertion starts the order. -/
theorem Maintained.insertInitial
    {cfg : Config} {s s' : OmState} {t : Shape}
    {yss : List (List (Nat × Label))}
    (h : Maintained cfg s t yss)
    (hStep : omStep cfg s .insertInitial s') :
    ∃ yss', Maintained cfg s' t yss' := by
  rcases hStep with ⟨-, hOm, n, hRun, hOrder⟩
  have hStored := h.stored
  have hRep := hStored.rep
  rw [h.unmarked] at hRep
  unfold omInsertInitial at hRun
  rcases hRep.get_ptr with ⟨x, hGet, -, hCount, -⟩
  rw [hStored.root, Mem.load_of_get hGet, ok_bind] at hRun
  rcases bind_eq_ok hRun with ⟨u, hCheck, hRun⟩
  have hOne := of_check hCheck
  rw [hCount] at hOne
  rcases Shape.eq_leaf hRep h.unmarked hOne with ⟨p, l, rfl⟩
  have hLists := hStored.lists
  rw [Shape.leaves, List.forall₂_cons_left_iff] at hLists
  rcases hLists with ⟨ys, zss, hOf, hNil, rfl⟩
  cases hNil
  cases hGet.symm.trans hRep
  dsimp only [Below.asList] at hRun
  rw [ok_bind] at hRun
  rcases bind_eq_ok hRun with ⟨⟨m', k⟩, hRun₁, hRun⟩
  rcases bind_eq_ok hRun with ⟨x, -, hRun⟩
  rcases bind_eq_ok hRun with ⟨v, -, hRun⟩
  have hResult := Except.ok.inj hRun
  rw [Prod.mk.injEq] at hResult
  rcases hResult with ⟨rfl, rfl⟩
  rcases blInsertInitial_spec hOf hRun₁ with
    ⟨-, hTls, hOf'⟩
  refine ⟨[[(k, 0)]], ?_, rfl, hOrder,
    fun _ => Nat.zero_le _⟩
  constructor
  · rw [hOm]
    exact hStored.root
  · rw [hTls]
    exact hStored.rep
  · exact hStored.nodup
  · exact List.Forall₂.cons hOf' List.Forall₂.nil
  · exact hStored.nodupLists
  · exact List.nodup_singleton k
  · trivial

------------------------------------------------------------
-- Relabels
------------------------------------------------------------

/- A subtree of the tree, and the range it is in. -/
structure Subtree
    (cfg : Config) (tls : Heap TlNode) (t : Shape)
    (parent : Option Nat) (lo level : Nat) (u : Shape) :
    Prop where
  rep : Rep cfg tls parent lo level false u
  unmarked : u.marked = false
  range : InRange cfg lo level
  atRoot : parent = none → lo = 0 ∧ u = t
  belowRoot : parent ≠ none → 0 < level
  leaves : ∀ x ∈ u.leaves, x ∈ t.leaves

theorem Subtree.left
    {cfg : Config} {tls : Heap TlNode} {t a b : Shape}
    {parent : Option Nat} {lo level p : Nat}
    (h : Subtree cfg tls t parent lo level (.node p a b)) :
    Subtree cfg tls t (some p) lo (level + 1) a := by
  rcases h with ⟨hRep, hMarked, hRange, -, -, hLeaves⟩
  rcases hRep with ⟨hLt, -, hRepA, -⟩
  rw [Shape.marked, Bool.or_eq_false_iff] at hMarked
  rw [hMarked.1] at hRepA
  refine ⟨hRepA, hMarked.1, hRange.left hLt, by simp,
    by simp, ?_⟩
  intro y hy
  apply hLeaves
  rw [Shape.leaves, List.mem_append]
  exact Or.inl hy

theorem Subtree.right
    {cfg : Config} {tls : Heap TlNode} {t a b : Shape}
    {parent : Option Nat} {lo level p : Nat}
    (h : Subtree cfg tls t parent lo level (.node p a b)) :
    Subtree cfg tls t (some p)
      (lo + 2 ^ (cfg.maxLevel - level - 1)) (level + 1)
      b := by
  rcases h with ⟨hRep, hMarked, hRange, -, -, hLeaves⟩
  rcases hRep with ⟨hLt, -, -, hRepB⟩
  rw [Shape.marked, Bool.or_eq_false_iff] at hMarked
  rw [hMarked.2] at hRepB
  refine ⟨hRepB, hMarked.2, hRange.right hLt, by simp,
    by simp, ?_⟩
  intro y hy
  apply hLeaves
  rw [Shape.leaves, List.mem_append]
  exact Or.inr hy

/- A node that links lead to is the root of a subtree. -/
theorem Rep.subtree
    {cfg : Config} {tls : Heap TlNode} {root p : Nat}
    {t : Shape}
    (hRep : Rep cfg tls none 0 0 false t)
    (hMarked : t.marked = false)
    (hRoot : root = t.ptr)
    (hIn : InTree tls root p) :
    ∃ parent lo level u,
      Subtree cfg tls t parent lo level u ∧ u.ptr = p := by
  induction hIn with
  | root =>
      refine ⟨none, 0, 0, t, ?_, hRoot.symm⟩
      exact ⟨hRep, hMarked, inRange_root cfg,
        fun _ => ⟨rfl, rfl⟩, by simp, fun x hx => hx⟩
  | @left p q x hIn hGet hLeft ih =>
      rcases ih with ⟨parent, lo, level, u, hSub, rfl⟩
      cases u with
      | leaf r l =>
          cases hGet.symm.trans hSub.rep
          cases hLeft
      | heavy r parts => cases hSub.unmarked
      | node r a b =>
          rcases hSub.rep.2.1 with ⟨below, hGetU⟩
          cases hGet.symm.trans hGetU
          cases hLeft
          exact ⟨_, _, _, a, hSub.left, rfl⟩
  | @right p q x hIn hGet hRight ih =>
      rcases ih with ⟨parent, lo, level, u, hSub, rfl⟩
      cases u with
      | leaf r l =>
          cases hGet.symm.trans hSub.rep
          cases hRight
      | heavy r parts => cases hSub.unmarked
      | node r a b =>
          rcases hSub.rep.2.1 with ⟨below, hGetU⟩
          cases hGet.symm.trans hGetU
          cases hRight
          exact ⟨_, _, _, b, hSub.right, rfl⟩

/- A live leaf is a leaf of the tree. -/
theorem Stored.mem_leaves
    {cfg : Config} {m : Mem} {om : Om} {t : Shape}
    {yss : List (List (Nat × Label))} {p : Nat}
    (h : Stored cfg m om t yss)
    (hMarked : t.marked = false)
    (hLive : LiveLeaf cfg m om p) :
    ∃ l, (p, l) ∈ t.leaves := by
  have hRep := h.rep
  rw [hMarked] at hRep
  rcases hLive with ⟨hIn, x, hGet, hLevel⟩
  rcases hRep.subtree hMarked h.root hIn with
    ⟨parent, lo, level, u, hSub, rfl⟩
  cases u with
  | leaf r l =>
      exact ⟨l, hSub.leaves _ (List.mem_singleton_self _)⟩
  | heavy r parts => cases hSub.unmarked
  | node r a b =>
      rcases hSub.rep with ⟨hLt, ⟨below, hGetU⟩, -, -⟩
      cases hGet.symm.trans hGetU
      dsimp only at hLevel
      omega

/- The leaves that a relabel is given. -/
theorem Maintained.leaves
    {cfg : Config} {s : OmState} {t : Shape}
    {yss : List (List (Nat × Label))} {heavy : List Nat}
    (h : Maintained cfg s t yss)
    (hLive : ∀ p ∈ heavy, LiveLeaf cfg s.mem s.om p) :
    ∀ p ∈ heavy, ∃ l, (p, l) ∈ t.leaves :=
  fun p hp => h.stored.mem_leaves h.unmarked (hLive p hp)

/- A relabel keeps the order. -/
theorem Maintained.relabel
    {cfg : Config} {s s' : OmState} {t : Shape}
    {yss : List (List (Nat × Label))} {heavy : List Nat}
    (hCfg : cfg.WellFormed)
    (h : Maintained cfg s t yss)
    (hStep : omStep cfg s (.relabel heavy) s') :
    ∃ t' yss', Maintained cfg s' t' yss' := by
  rcases hStep with ⟨hNodup, hLive, hRun, hOrder⟩
  rcases omRelabel_spec hCfg h.stored h.unmarked
    (h.leaves hLive) hNodup hRun with ⟨t', yss', hRelabel⟩
  refine ⟨t', yss', hRelabel.stored, hRelabel.unmarked, ?_,
    fun hLogs => hRelabel.shallow hLogs (h.shallow hLogs)⟩
  rw [hOrder, h.order, hRelabel.order]

/- Every run maintains the order. -/
theorem maintained_of_reachable
    {cfg : Config} {s : OmState}
    (hCfg : cfg.WellFormed)
    (hReach : (omSystem cfg).Reachable s) :
    ∃ t yss, Maintained cfg s t yss := by
  apply hReach.invariant
    (P := fun s => ∃ t yss, Maintained cfg s t yss)
  · rintro s ⟨hOrder, m₀, hRun⟩
    exact ⟨_, _, omNew_spec hRun, rfl, hOrder,
      fun _ => Nat.zero_le _⟩
  · rintro s a s' ⟨t, yss, h⟩ hStep
    cases a with
    | insertInitial =>
        rcases h.insertInitial hStep with ⟨yss', h'⟩
        exact ⟨t, yss', h'⟩
    | insert base =>
        rcases h.insert hStep with ⟨yss', h'⟩
        exact ⟨t, yss', h'⟩
    | relabel heavy => exact h.relabel hCfg hStep

------------------------------------------------------------
-- Queries
------------------------------------------------------------

/- The leaf above a list. -/
def leafOf (m : Mem) (list : Nat) : Nat :=
  ((m.lists.get list).bind BList.above).getD 0

/- The labels of the leaf above a node and of the node. -/
def rank (m : Mem) (n : Nat) : Nat ×ₗ Nat :=
  match m.nodes.get n with
  | none => toLex (0, 0)
  | some x =>
      toLex ((leafLabel m (leafOf m x.list)).toNat,
        x.label.toNat)

theorem ListOf.leafOf_eq
    {m : Mem} {x : Nat × Nat} {ys : List (Nat × Label)}
    (h : ListOf m x ys) :
    leafOf m x.2 = x.1 := by
  rcases h.above with ⟨k, hGet, hAbove⟩
  unfold leafOf
  rw [hGet]
  simp [hAbove]

/- The record of a node of a list. -/
theorem ListOf.get_node
    {m : Mem} {x : Nat × Nat} {ys : List (Nat × Label)}
    {z : Nat × Label}
    (h : ListOf m x ys)
    (hz : z ∈ ys) :
    ∃ n, m.nodes.get z.1 = some n ∧ n.list = x.2 ∧
      n.label = z.2 := by
  rcases h.linked.chain.exists_get hz with ⟨_, _, hGet⟩
  exact ⟨_, hGet, rfl, rfl⟩

theorem ListOf.rank_eq
    {m : Mem} {x : Nat × Nat} {ys : List (Nat × Label)}
    {z : Nat × Label}
    (h : ListOf m x ys)
    (hz : z ∈ ys) :
    rank m z.1 =
      toLex ((leafLabel m x.1).toNat, z.2.toNat) := by
  rcases h.get_node hz with ⟨n, hGet, hList, hLabel⟩
  unfold rank
  rw [hGet]
  dsimp only
  rw [hList, hLabel, h.leafOf_eq]

/- A node belongs to the list of some leaf. -/
theorem exists_listOf
    {m : Mem} {ls : List (Nat × Nat)}
    {us : List (List (Nat × Label))} {q : Nat}
    (h : List.Forall₂ (ListOf m) ls us)
    (hq : q ∈ us.flatten.map Prod.fst) :
    ∃ x ∈ ls, ∃ ys, ListOf m x ys ∧
      ∃ z ∈ ys, z.1 = q := by
  induction h with
  | nil => cases hq
  | @cons x ys ls us hHead _ ih =>
      rw [List.flatten_cons, List.map_append,
        List.mem_append] at hq
      rcases hq with hq | hq
      · rw [List.mem_map] at hq
        rcases hq with ⟨z, hz, hEq⟩
        exact ⟨x, List.mem_cons_self .., ys, hHead, z, hz, hEq⟩
      · rcases ih hq with ⟨y, hy, hRest⟩
        exact ⟨y, List.mem_cons_of_mem _ hy, hRest⟩

/- The ranks grow along the lists. -/
theorem increasing_of_lists
    {m : Mem} {ls : List (Nat × Nat)}
    {us : List (List (Nat × Label))}
    (h : List.Forall₂ (ListOf m) ls us)
    (hLabels : ls.Pairwise fun x y =>
      leafLabel m x.1 < leafLabel m y.1) :
    Increasing (rank m) (us.flatten.map Prod.fst) := by
  induction h with
  | nil => exact List.Pairwise.nil
  | @cons x ys ls us hHead hRest ih =>
      rw [List.pairwise_cons] at hLabels
      unfold Increasing
      rw [List.flatten_cons, List.map_append,
        List.pairwise_append]
      refine ⟨?_, ih hLabels.2, ?_⟩
      · have hSorted := hHead.linked.sorted
        rw [List.pairwise_map] at hSorted ⊢
        apply hSorted.imp_of_mem
        intro z w hz hw hLt
        rw [hHead.rank_eq hz, hHead.rank_eq hw,
          Prod.Lex.toLex_lt_toLex]
        exact Or.inr ⟨rfl, hLt⟩
      · intro q hq r hr
        rw [List.mem_map] at hq
        rcases hq with ⟨z, hz, rfl⟩
        rcases exists_listOf hRest hr with
          ⟨y, hy, zs, hOf, w, hw, rfl⟩
        rw [hHead.rank_eq hz, hOf.rank_eq hw,
          Prod.Lex.toLex_lt_toLex]
        exact Or.inl (hLabels.1 y hy)

/- The labels of the leaves grow from left to right. -/
theorem Stored.leafLabels
    {cfg : Config} {m : Mem} {om : Om} {t : Shape}
    {yss : List (List (Nat × Label))}
    (hCfg : cfg.WellFormed)
    (h : Stored cfg m om t yss)
    (hMarked : t.marked = false) :
    t.leaves.Pairwise fun x y =>
      leafLabel m x.1 < leafLabel m y.1 := by
  have hRep := h.rep
  rw [hMarked] at hRep
  exact (hRep.leafLabels hCfg (inRange_root cfg) hMarked).2

/- A query compares ranks. -/
theorem omPrecedes_rank
    {m : Mem} {ls : List (Nat × Nat)}
    {us : List (List (Nat × Label))} {x y : Nat}
    (h : List.Forall₂ (ListOf m) ls us)
    (hLabels : ls.Pairwise fun x y =>
      leafLabel m x.1 < leafLabel m y.1)
    (hLeaves : ∀ x ∈ ls, ∃ a, m.tls.get x.1 = some a)
    (hx : x ∈ us.flatten.map Prod.fst)
    (hy : y ∈ us.flatten.map Prod.fst) :
    ∃ b, omPrecedes m (some x) (some y) = Except.ok b ∧
      (b = true ↔ rank m x < rank m y) := by
  rcases exists_listOf h hx with
    ⟨u, hu, as, hOfU, z, hz, rfl⟩
  rcases exists_listOf h hy with
    ⟨v, hv, bs, hOfV, w, hw, rfl⟩
  rcases hOfU.get_node hz with ⟨n, hGetN, hListN, hLabelN⟩
  rcases hOfV.get_node hw with ⟨k, hGetK, hListK, hLabelK⟩
  rcases hOfU.above with ⟨i, hGetI, hAboveI⟩
  rcases hOfV.above with ⟨j, hGetJ, hAboveJ⟩
  rw [hOfU.rank_eq hz, hOfV.rank_eq hw,
    Prod.Lex.toLex_lt_toLex]
  unfold omPrecedes
  dsimp only
  rw [Mem.load_of_get hGetN, ok_bind, Mem.load_of_get hGetK,
    ok_bind, hListN, hListK, hLabelN, hLabelK]
  by_cases hSame : u.2 = v.2
  · have hLeaf : u.1 = v.1 := by
      rw [hSame, hGetJ] at hGetI
      cases hGetI
      exact Option.some.inj (hAboveI.symm.trans hAboveJ)
    rw [if_pos hSame, hLeaf]
    refine ⟨_, rfl, ?_⟩
    rw [decide_eq_true_iff, BitVec.lt_def]
    constructor
    · intro hLt
      exact Or.inr ⟨rfl, hLt⟩
    · intro hLt
      rcases hLt with hLt | ⟨-, hLt⟩
      · exact absurd hLt (Nat.lt_irrefl _)
      · exact hLt
  · rcases hLeaves u hu with ⟨a, hGetA⟩
    rcases hLeaves v hv with ⟨b, hGetB⟩
    have hNe : leafLabel m u.1 ≠ leafLabel m v.1 := by
      have hDistinct :
          (ls.map fun x => leafLabel m x.1).Nodup := by
        unfold List.Nodup
        rw [List.pairwise_map]
        exact hLabels.imp BitVec.ne_of_lt
      intro hEq
      have := List.inj_on_of_nodup_map hDistinct hu hv hEq
      exact hSame (congrArg Prod.snd this)
    rw [if_neg hSame, Mem.load_of_get hGetI, ok_bind,
      Mem.load_of_get hGetJ, ok_bind, hAboveI, deref_some,
      ok_bind, hAboveJ, deref_some, ok_bind,
      Mem.load_of_get hGetA, ok_bind, Mem.load_of_get hGetB,
      ok_bind, leafLabel_of_get hGetA,
      leafLabel_of_get hGetB]
    rw [leafLabel_of_get hGetA, leafLabel_of_get hGetB,
      ← BitVec.toNat_ne_iff_ne] at hNe
    refine ⟨_, rfl, ?_⟩
    rw [decide_eq_true_iff, BitVec.lt_def]
    constructor
    · intro hLt
      exact Or.inl hLt
    · intro hLt
      rcases hLt with hLt | ⟨hEq, -⟩
      · exact hLt
      · exact absurd hEq hNe

/- A query answers for the order. -/
theorem Maintained.omPrecedes_eq
    {cfg : Config} {s : OmState} {t : Shape}
    {yss : List (List (Nat × Label))} {x y : Nat}
    (hCfg : cfg.WellFormed)
    (h : Maintained cfg s t yss)
    (hx : x ∈ s.order)
    (hy : y ∈ s.order) :
    omPrecedes s.mem (some x) (some y) =
      Except.ok (decide (Precedes s.order x y)) := by
  have hStored := h.stored
  have hLabels := hStored.leafLabels hCfg h.unmarked
  have hInc := increasing_of_lists hStored.lists hLabels
  have hRep := hStored.rep
  rw [h.unmarked] at hRep
  rw [← h.order] at hInc
  rw [h.order] at hx hy
  rcases omPrecedes_rank hStored.lists hLabels
    (fun z hz => by
      rcases hRep.get_leaf h.unmarked z hz with ⟨a, hGet, -⟩
      exact ⟨a, hGet⟩) hx hy with ⟨b, hRun, hIff⟩
  rw [← h.order] at hx hy
  rw [← hInc.precedes_iff hx hy] at hIff
  rw [hRun]
  congr 1
  rw [Bool.eq_iff_iff, hIff, decide_eq_true_iff]

------------------------------------------------------------
-- Live Leaves
------------------------------------------------------------

/- Links lead to all leaves. -/
theorem Rep.inTree
    {cfg : Config} {tls : Heap TlNode} {root : Nat}
    {parent : Option Nat} {lo level : Nat} {t : Shape}
    (hRep : Rep cfg tls parent lo level false t)
    (hMarked : t.marked = false)
    (hIn : InTree tls root t.ptr) :
    ∀ x ∈ t.leaves, InTree tls root x.1 := by
  induction t generalizing parent lo level with
  | leaf p l =>
      intro x hx
      rw [Shape.leaves, List.mem_singleton] at hx
      subst hx
      exact hIn
  | heavy p parts => cases hMarked
  | node p left right ihLeft ihRight =>
      rcases hRep with ⟨-, ⟨below, hGet⟩, hRepL, hRepR⟩
      rw [Shape.marked, Bool.or_eq_false_iff] at hMarked
      rw [hMarked.1] at hRepL
      rw [hMarked.2] at hRepR
      intro x hx
      rw [Shape.leaves, List.mem_append] at hx
      rcases hx with hx | hx
      · exact ihLeft hRepL hMarked.1
          (hIn.left hGet rfl) x hx
      · exact ihRight hRepR hMarked.2
          (hIn.right hGet rfl) x hx

/- A leaf of the tree is live. -/
theorem Stored.liveLeaf
    {cfg : Config} {m : Mem} {om : Om} {t : Shape}
    {yss : List (List (Nat × Label))} {x : Nat × Nat}
    (h : Stored cfg m om t yss)
    (hMarked : t.marked = false)
    (hx : x ∈ t.leaves) :
    LiveLeaf cfg m om x.1 := by
  have hRep := h.rep
  rw [hMarked] at hRep
  rcases hRep.get_leaf hMarked x hx with ⟨y, hGet, hLevel, -⟩
  refine ⟨?_, y, hGet, hLevel⟩
  apply hRep.inTree hMarked _ x hx
  rw [h.root]
  exact InTree.root

/- The leaf above the list of a node, as `om_get_tl` has it. -/
def omGetTl (m : Mem) (n : Nat) : Nat :=
  match m.nodes.get n with
  | some x => leafOf m x.list
  | none => 0

/- The leaf above a node is live. -/
theorem Maintained.liveLeaf
    {cfg : Config} {s : OmState} {t : Shape}
    {yss : List (List (Nat × Label))} {n : Nat}
    (h : Maintained cfg s t yss)
    (hn : n ∈ s.order) :
    LiveLeaf cfg s.mem s.om (omGetTl s.mem n) := by
  rw [h.order] at hn
  rcases exists_listOf h.stored.lists hn with
    ⟨x, hx, ys, hOf, z, hz, rfl⟩
  rcases hOf.get_node hz with ⟨k, hGet, hList, -⟩
  have hLeaf : omGetTl s.mem z.1 = x.1 := by
    unfold omGetTl
    rw [hGet]
    dsimp only
    rw [hList, hOf.leafOf_eq]
  rw [hLeaf]
  exact h.stored.liveLeaf h.unmarked hx

end OrderMaint

end PRacer
