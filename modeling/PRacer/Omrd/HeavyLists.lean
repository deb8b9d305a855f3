import PRacer.Foundations.ClaimedOnce
import PRacer.Omrd.Model

/-
  The list of heavy nodes.

  A list is marked heavy exactly while its top-level node is
  recorded, or about to be recorded by one worker, so that a
  relabel gets distinct leaves of the tree.

  Main declarations:
    * `Placed`, `Frame`
    * `Bookkeeping`, `Batches`, `bookkeeping_of_reachable`
    * `heavy_iff_recorded`, `relabel_clears_heavy`
-/

------------------------------------------------------------
-- Nodes and Their Leaves
------------------------------------------------------------

namespace PRacer

open Foundations OrderMaint

namespace Omrd

/- The field `heavy` of a list. -/
def listHeavy (m : Mem) (l : Nat) : Bool :=
  ((m.lists.get l).map BList.heavy).getD false

/- The field `heavy` of the list below a leaf. -/
def leafHeavy (m : Mem) (p : Nat) : Bool :=
  match (m.tls.get p).map TlNode.below with
  | some (.list l) => listHeavy m l
  | _ => false

/- The memory with the flag of a list set. -/
def markHeavy (m : Mem) (l : Nat) : Mem :=
  m.mapList l fun k => { k with heavy := true }

/- A leaf and its list point to each other. -/
structure LeafList
    (cfg : Config) (m : Mem) (p l : Nat) : Prop where
  down : ∃ a, m.tls.get p = some a ∧
    a.level = cfg.maxLevel ∧ a.below = .list l
  up : ∃ k, m.lists.get l = some k ∧ k.above = some p

/- A node, its list and the leaf above. -/
structure Placed
    (cfg : Config) (m : Mem) (n p l : Nat) : Prop where
  node : ∃ x, m.nodes.get n = some x ∧ x.list = l
  leaf : LeafList cfg m p l

theorem LeafList.leafHeavy_eq
    {cfg : Config} {m : Mem} {p l : Nat}
    (h : LeafList cfg m p l) :
    leafHeavy m p = listHeavy m l := by
  rcases h.down with ⟨a, hGet, -, hBelow⟩
  unfold leafHeavy
  rw [hGet, Option.map_some, hBelow]

/- Two leaves do not share a list. -/
theorem LeafList.leaf_unique
    {cfg : Config} {m : Mem} {p q l : Nat}
    (hp : LeafList cfg m p l)
    (hq : LeafList cfg m q l) :
    p = q := by
  rcases hp.up with ⟨k, hGet, hAbove⟩
  rcases hq.up with ⟨k', hGet', hAbove'⟩
  cases hGet.symm.trans hGet'
  exact Option.some.inj (hAbove.symm.trans hAbove')

/- A leaf has one list. -/
theorem LeafList.list_unique
    {cfg : Config} {m : Mem} {p l j : Nat}
    (hl : LeafList cfg m p l)
    (hj : LeafList cfg m p j) :
    l = j := by
  rcases hl.down with ⟨a, hGet, -, hBelow⟩
  rcases hj.down with ⟨b, hGet', -, hBelow'⟩
  cases hGet.symm.trans hGet'
  exact Below.list.inj (hBelow.symm.trans hBelow')

namespace Placed

variable {cfg : Config} {m : Mem} {n p l : Nat}

theorem omGetTl_eq
    (h : Placed cfg m n p l) :
    omGetTl m n = p := by
  rcases h.node with ⟨x, hNode, rfl⟩
  rcases h.leaf.up with ⟨k, hList, hAbove⟩
  unfold omGetTl leafOf
  rw [hNode]
  dsimp only
  rw [hList, Option.bind_some, hAbove, Option.getD_some]

theorem getTl_eq
    (h : Placed cfg m n p l) :
    getTl cfg m n = Except.ok p := by
  rcases h.node with ⟨x, hNode, rfl⟩
  rcases h.leaf.up with ⟨k, hList, hAbove⟩
  rcases h.leaf.down with ⟨a, hTl, hLevel, -⟩
  unfold getTl
  rw [Mem.load_of_get hNode, ok_bind, Mem.load_of_get hList,
    ok_bind, hAbove, deref_some, ok_bind,
    Mem.load_of_get hTl, ok_bind, check_of hLevel, ok_bind]
  rfl

theorem checkAbove_eq
    (h : Placed cfg m n p l) :
    checkAbove m n = Except.ok () := by
  rcases h.node with ⟨x, hNode, rfl⟩
  rcases h.leaf.up with ⟨k, hList, hAbove⟩
  unfold checkAbove
  rw [Mem.load_of_get hNode, ok_bind, Mem.load_of_get hList,
    ok_bind, check_of]
  rw [hAbove]
  exact Option.some_ne_none p

theorem readHeavy_eq
    (h : Placed cfg m n p l) :
    readHeavy m n = Except.ok (leafHeavy m p) := by
  rw [h.leaf.leafHeavy_eq]
  rcases h.node with ⟨x, hNode, rfl⟩
  rcases h.leaf.up with ⟨k, hList, -⟩
  unfold readHeavy listHeavy
  rw [Mem.load_of_get hNode, ok_bind, Mem.load_of_get hList,
    ok_bind, hList]
  rfl

/- The flag of the list is set unless it was. -/
theorem casHeavy_eq
    (h : Placed cfg m n p l) :
    casHeavy m n = Except.ok
      (if leafHeavy m p then (m, false)
        else (markHeavy m l, true)) := by
  rw [h.leaf.leafHeavy_eq]
  rcases h.node with ⟨x, hNode, rfl⟩
  rcases h.leaf.up with ⟨k, hList, -⟩
  unfold casHeavy listHeavy
  rw [Mem.load_of_get hNode, ok_bind, Mem.load_of_get hList,
    ok_bind, hList, Option.map_some, Option.getD_some]
  split
  · rfl
  · rfl

end Placed

/- A leaf of the tree and its list. -/
theorem leafList_of_mem
    {cfg : Config} {m : Mem} {om : Om} {t : Shape}
    {yss : List (List (Nat × Label))} {x : Nat × Nat}
    (h : Stored cfg m om t yss)
    (hMarked : t.marked = false)
    (hx : x ∈ t.leaves) :
    LeafList cfg m x.1 x.2 := by
  have hRep := h.rep
  rw [hMarked] at hRep
  exact ⟨hRep.get_leaf hMarked x hx, h.lists_above x hx⟩

/- A live leaf has a list. -/
theorem leafList_of_live
    {cfg : Config} {s : OmState} {t : Shape}
    {yss : List (List (Nat × Label))} {p : Nat}
    (h : Maintained cfg s t yss)
    (hLive : LiveLeaf cfg s.mem s.om p) :
    ∃ l, LeafList cfg s.mem p l := by
  rcases h.stored.mem_leaves h.unmarked hLive with ⟨l, hMem⟩
  exact ⟨l, leafList_of_mem h.stored h.unmarked hMem⟩

/- A node in order is in the list of a live leaf. -/
theorem placed_of_mem
    {cfg : Config} {s : OmState} {t : Shape}
    {yss : List (List (Nat × Label))} {n : Nat}
    (h : Maintained cfg s t yss)
    (hn : n ∈ s.order) :
    ∃ p l, Placed cfg s.mem n p l ∧
      LiveLeaf cfg s.mem s.om p := by
  rw [h.order] at hn
  rcases exists_listOf h.stored.lists hn with
    ⟨x, hx, ys, hOf, z, hz, rfl⟩
  rcases hOf.get_node hz with ⟨k, hGet, hList, -⟩
  exact ⟨x.1, x.2, ⟨⟨k, hGet, hList⟩,
    leafList_of_mem h.stored h.unmarked hx⟩,
    h.stored.liveLeaf h.unmarked hx⟩

------------------------------------------------------------
-- Changes That Keep All Nodes in Place
------------------------------------------------------------

/-
  The tree stays, and so do the lists and the labels of the
  nodes.
-/
structure Frame
    (m m' : Mem) (order : List Nat) : Prop where
  tls : m'.tls = m.tls
  above : ∀ l k, m.lists.get l = some k →
    ∃ k', m'.lists.get l = some k' ∧ k'.above = k.above
  node : ∀ n ∈ order, ∀ x, m.nodes.get n = some x →
    ∃ x', m'.nodes.get n = some x' ∧ x'.list = x.list ∧
      x'.label = x.label

namespace Frame

variable {cfg : Config} {m m' : Mem} {order : List Nat}

theorem leafList
    {p l : Nat}
    (hFrame : Frame m m' order)
    (h : LeafList cfg m p l) :
    LeafList cfg m' p l := by
  rcases h.up with ⟨k, hGet, hAbove⟩
  rcases hFrame.above l k hGet with ⟨k', hGet', hAbove'⟩
  refine ⟨?_, k', hGet', hAbove'.trans hAbove⟩
  rw [hFrame.tls]
  exact h.down

theorem placed
    {n p l : Nat}
    (hFrame : Frame m m' order)
    (hn : n ∈ order)
    (h : Placed cfg m n p l) :
    Placed cfg m' n p l := by
  rcases h.node with ⟨x, hGet, rfl⟩
  rcases hFrame.node n hn x hGet with
    ⟨x', hGet', hList, -⟩
  exact ⟨⟨x', hGet', hList⟩, hFrame.leafList h.leaf⟩

theorem liveLeaf
    {om : Om} {p : Nat}
    (hFrame : Frame m m' order) :
    LiveLeaf cfg m' om p ↔ LiveLeaf cfg m om p := by
  unfold LiveLeaf
  rw [hFrame.tls]

end Frame

/- The leaves above nodes stay. -/
theorem Frame.omGetTl_eq
    {cfg : Config} {s : OmState} {m' : Mem} {t : Shape}
    {yss : List (List (Nat × Label))} {n : Nat}
    (hFrame : Frame s.mem m' s.order)
    (h : Maintained cfg s t yss)
    (hn : n ∈ s.order) :
    omGetTl m' n = omGetTl s.mem n := by
  rcases placed_of_mem h hn with ⟨p, l, hPlaced, -⟩
  rw [hPlaced.omGetTl_eq,
    (hFrame.placed hn hPlaced).omGetTl_eq]

/- An insertion keeps the old nodes in their lists. -/
theorem frame_of_inserted
    {cfg : Config} {m m' : Mem} {om : Om} {t : Shape}
    {yss : List (List (Nat × Label))}
    {base p l : Nat} {lab new : Label}
    {ls rs : List (Nat × Nat)}
    {us vs : List (List (Nat × Label))}
    {xs ys : List (Nat × Label)}
    (h : Inserted cfg m m' l base xs lab new ys)
    (hStored : Stored cfg m om t yss)
    (hWithin : Within m base p l lab ls rs us vs xs ys) :
    Frame m m' (yss.flatten.map Prod.fst) ∧
      ∀ k, listHeavy m' k = listHeavy m k := by
  have hFrame := h.frame
  rcases hWithin.listOf.above with ⟨r, hGet, -⟩
  rcases hFrame.thisList r hGet with ⟨tail, hGet'⟩
  refine ⟨⟨hFrame.tls, ?_, ?_⟩, ?_⟩
  · intro k r' hk
    by_cases hkl : k = l
    · subst hkl
      cases hGet.symm.trans hk
      exact ⟨_, hGet', rfl⟩
    · refine ⟨r', ?_, rfl⟩
      rw [hFrame.otherLists k hkl]
      exact hk
  · intro n hn x hx
    have hLt := nodes_lt_next hStored.lists n hn
    by_cases hMem :
        n ∈ (xs ++ (base, lab) :: ys).map Prod.fst
    · rw [List.mem_map] at hMem
      rcases hMem with ⟨z, hz, rfl⟩
      rcases hWithin.listOf.linked.chain.exists_get hz with
        ⟨_, _, hOld⟩
      have hz' : z ∈ xs ++ (base, lab) ::
          (m.nodes.next, new) :: ys := by
        rw [List.mem_append, List.mem_cons] at hz ⊢
        rcases hz with hz | hz | hz
        · exact Or.inl hz
        · exact Or.inr (Or.inl hz)
        · exact Or.inr (Or.inr (List.mem_cons_of_mem _ hz))
      rcases h.linked.chain.exists_get hz' with ⟨_, _, hNew⟩
      cases hOld.symm.trans hx
      exact ⟨_, hNew, rfl, rfl⟩
    · refine ⟨x, ?_, rfl, rfl⟩
      rw [hFrame.otherNodes n (by omega) hMem]
      exact hx
  · intro k
    unfold listHeavy
    by_cases hkl : k = l
    · subst hkl
      rw [hGet, hGet']
      rfl
    · rw [hFrame.otherLists k hkl]

/- `om_insert` keeps the old nodes in their lists. -/
theorem frame_of_omInsert
    {cfg : Config} {s : OmState} {m' : Mem} {t : Shape}
    {yss : List (List (Nat × Label))} {base : Nat}
    {r : Option Nat}
    (h : Maintained cfg s t yss)
    (hBase : base ∈ s.order)
    (hRun : omInsert cfg s.mem base = Except.ok (m', r)) :
    Frame s.mem m' s.order ∧
      ∀ k, listHeavy m' k = listHeavy s.mem k := by
  rw [h.order] at hBase ⊢
  rcases h.stored.within hBase with
    ⟨p, l, lab, ls, rs, us, vs, xs, ys, hLeaves, rfl,
      hWithin⟩
  have hLeaf : (p, l) ∈ t.leaves := by
    rw [hLeaves]
    simp
  rcases h.stored.of_omInsert h.unmarked hLeaf hWithin hRun
    with ⟨rfl, -⟩ | ⟨-, new, hInserted⟩
  · refine ⟨⟨rfl, ?_, ?_⟩, fun _ => rfl⟩
    · intro k r hk
      exact ⟨r, hk, rfl⟩
    · intro n _ x hx
      exact ⟨x, hx, rfl, rfl⟩
  · exact frame_of_inserted hInserted h.stored hWithin

/- A node that `om_insert` returns is a new one. -/
theorem next_of_omInsert
    {cfg : Config} {s : OmState} {m' : Mem} {t : Shape}
    {yss : List (List (Nat × Label))} {base : Nat}
    {r : Option Nat}
    (h : Maintained cfg s t yss)
    (hBase : base ∈ s.order)
    (hRun : omInsert cfg s.mem base = Except.ok (m', r)) :
    r = none ∨ r = some s.mem.nodes.next := by
  rw [h.order] at hBase
  rcases h.stored.within hBase with
    ⟨p, l, lab, ls, rs, us, vs, xs, ys, hLeaves, rfl,
      hWithin⟩
  have hLeaf : (p, l) ∈ t.leaves := by
    rw [hLeaves]
    simp
  rcases h.stored.of_omInsert h.unmarked hLeaf hWithin hRun
    with ⟨-, hNone⟩ | ⟨hSome, -⟩
  · exact Or.inl hNone
  · exact Or.inr hSome

/- The next node is not among the nodes. -/
theorem next_notMem
    {cfg : Config} {s : OmState} {t : Shape}
    {yss : List (List (Nat × Label))}
    (h : Maintained cfg s t yss) :
    s.mem.nodes.next ∉ s.order := by
  rw [h.order]
  intro hMem
  exact Nat.lt_irrefl _
    (nodes_lt_next h.stored.lists _ hMem)

------------------------------------------------------------
-- Setting a Flag
------------------------------------------------------------

theorem listHeavy_markHeavy
    {m : Mem} {l : Nat} {k : BList}
    (hGet : m.lists.get l = some k) (j : Nat) :
    listHeavy (markHeavy m l) j =
      (listHeavy m j || decide (j = l)) := by
  unfold listHeavy markHeavy
  rw [Mem.lists_mapList, Heap.get_modify]
  by_cases hj : j = l
  · subst hj
    rw [if_pos rfl, hGet]
    simp
  · rw [if_neg hj]
    simp [hj]

/- A list with its flag set is still that list. -/
theorem linked_markHeavy
    {m : Mem} {l list : Nat} {ys : List (Nat × Label)}
    (h : Linked m list ys) :
    Linked (markHeavy m l) list ys := by
  refine ⟨?_, h.chain, h.sorted⟩
  rcases h.ends with ⟨k, hGet, hHead, hTail⟩
  unfold markHeavy
  rw [Mem.lists_mapList, Heap.get_modify]
  split
  · rw [hGet]
    exact ⟨_, rfl, hHead, hTail⟩
  · exact ⟨k, hGet, hHead, hTail⟩

theorem listOf_markHeavy
    {m : Mem} {l : Nat} {x : Nat × Nat}
    {ys : List (Nat × Label)}
    (h : ListOf m x ys) :
    ListOf (markHeavy m l) x ys := by
  refine ⟨?_, linked_markHeavy h.linked⟩
  rcases h.above with ⟨k, hGet, hAbove⟩
  unfold markHeavy
  rw [Mem.lists_mapList, Heap.get_modify]
  split
  · rw [hGet]
    exact ⟨_, rfl, hAbove⟩
  · exact ⟨k, hGet, hAbove⟩

theorem frame_markHeavy
    (m : Mem) (l : Nat) (order : List Nat) :
    Frame m (markHeavy m l) order := by
  refine ⟨rfl, ?_, ?_⟩
  · intro j k hk
    unfold markHeavy
    rw [Mem.lists_mapList, Heap.get_modify]
    split
    · rw [hk]
      exact ⟨_, rfl, rfl⟩
    · exact ⟨k, hk, rfl⟩
  · intro n _ x hx
    exact ⟨x, hx, rfl, rfl⟩

/- The order does not depend on the flags. -/
theorem maintained_markHeavy
    {cfg : Config} {s : OmState} {t : Shape}
    {yss : List (List (Nat × Label))} (l : Nat)
    (h : Maintained cfg s t yss) :
    Maintained cfg { s with mem := markHeavy s.mem l } t
      yss := by
  refine ⟨?_, h.unmarked, h.order, h.shallow⟩
  have hStored := h.stored
  constructor
  · exact hStored.root
  · exact hStored.rep
  · exact hStored.nodup
  · apply hStored.lists.imp
    intro x ys hOf
    exact listOf_markHeavy hOf
  · exact hStored.nodupLists
  · exact hStored.nodupNodes
  · exact hStored.deep

------------------------------------------------------------
-- The Invariant
------------------------------------------------------------

variable {Worker : Type}

/- The leaf that a worker is about to record. -/
def heldAt (m : Mem) : InsertPc → Option Nat
| .record base _ => some (omGetTl m base)
| _ => none

/-
  The structure is in order, the records are right, and the
  workers insert after nodes that are there.
-/
structure Bookkeeping
    (cfg : Config) (s : OmrdState Worker) : Prop where
  maintained : ∃ t yss, Maintained cfg s.om t yss
  booked : Booked (LiveLeaf cfg s.om.mem s.om.om)
    (fun p => leafHeavy s.om.mem p = true) s.heavyNodes
    fun w => heldAt s.om.mem (s.pc w)
  bases : ∀ w b, (s.pc w).base = some b → b ∈ s.om.order

/- A leaf above a base stays where it is. -/
theorem Bookkeeping.heldAt_eq
    {cfg : Config} {s : OmrdState Worker} {m' : Mem}
    {t : Shape} {yss : List (List (Nat × Label))}
    (h : Bookkeeping cfg s)
    (hMain : Maintained cfg s.om t yss)
    (hFrame : Frame s.om.mem m' s.om.order) (v : Worker) :
    heldAt m' (s.pc v) = heldAt s.om.mem (s.pc v) := by
  have hBases := h.bases v
  generalize s.pc v = pc at hBases ⊢
  cases pc with
  | record b n =>
      exact congrArg some
        (hFrame.omGetTl_eq hMain (hBases b rfl))
  | _ => rfl

/- The nodes stay in order. -/
theorem mem_orderAfter
    {base b : Nat} {order : List Nat} (r : Option Nat)
    (hb : b ∈ order) :
    b ∈ orderAfter base order r := by
  cases r with
  | none => exact hb
  | some n => exact (sublist_insertAfter base n order).subset hb

/- The structure after an insertion. -/
theorem Bookkeeping.afterInsert
    {cfg : Config} {s : OmrdState Worker}
    {m : Mem} {base : Nat} {r : Option Nat}
    (h : Bookkeeping cfg s)
    (hBase : base ∈ s.om.order)
    (hInsert : omInsert cfg s.om.mem base =
      Except.ok (m, r)) :
    Bookkeeping cfg (s.afterInsert base m r) ∧
      Frame s.om.mem m s.om.order := by
  rcases h.maintained with ⟨t, yss, hMain⟩
  rcases frame_of_omInsert hMain hBase hInsert with
    ⟨hFrame, hHeavy⟩
  have hStep : omStep cfg s.om (.insert base)
      (s.afterInsert base m r).om :=
    ⟨hBase, rfl, r, hInsert, rfl⟩
  refine ⟨⟨?_, ?_, ?_⟩, hFrame⟩
  · rcases hMain.insert hStep with ⟨yss', hMain'⟩
    exact ⟨t, yss', hMain'⟩
  · apply h.booked.congr (fun p => hFrame.liveLeaf)
    · intro p hp
      rcases leafList_of_live hMain hp with ⟨l, hLeaf⟩
      dsimp only [OmrdState.afterInsert]
      rw [hLeaf.leafHeavy_eq,
        (hFrame.leafList hLeaf).leafHeavy_eq, hHeavy]
    · exact h.heldAt_eq hMain hFrame
  · intro v b hb
    exact mem_orderAfter r (h.bases v b hb)

/- The list of a new structure is not heavy. -/
theorem omNew_light
    {cfg : Config} {m₀ m : Mem} {om : Om}
    (hRun : omNew cfg m₀ = Except.ok (m, om)) :
    (∃ a, m.tls.get om.root = some a ∧
      a.below = .list m₀.lists.next) ∧
    ∃ k, m.lists.get m₀.lists.next = some k ∧
      k.heavy = false := by
  unfold omNew tlNodeNew blNew at hRun
  simp [Mem.setTl, Mem.setList, Heap.get_modify, pure,
    Except.pure] at hRun
  rcases hRun with ⟨rfl, rfl⟩
  simp [Heap.get_modify]

/- The first node leaves the flag of its list down. -/
theorem omInsertInitial_light
    {m m' : Mem} {om : Om} {n l : Nat} {a : TlNode}
    {k : BList}
    (hRoot : m.tls.get om.root = some a)
    (hBelow : a.below = .list l)
    (hList : m.lists.get l = some k)
    (hLight : k.heavy = false)
    (hRun : omInsertInitial m om = Except.ok (m', n)) :
    listHeavy m' l = false := by
  unfold omInsertInitial at hRun
  rw [Mem.load_of_get hRoot, ok_bind] at hRun
  rcases bind_eq_ok hRun with ⟨-, -, hRun⟩
  rw [hBelow, Below.asList, ok_bind] at hRun
  rcases bind_eq_ok hRun with ⟨⟨m₁, n₁⟩, hRun₁, hRun⟩
  rcases bind_eq_ok hRun with ⟨x, -, hRun⟩
  rcases bind_eq_ok hRun with ⟨-, -, hRun⟩
  cases hRun
  unfold blInsertInitial at hRun₁
  rw [Mem.load_of_get hList, ok_bind] at hRun₁
  rcases bind_eq_ok hRun₁ with ⟨-, -, hRun₁⟩
  simp [nodeNew, insertInternal, Mem.setList, Mem.setNode,
    hList, Heap.get_modify, pure, Except.pure] at hRun₁
  rcases hRun₁ with ⟨rfl, rfl⟩
  simp [listHeavy, Heap.get_modify, hList, hLight]

/- A new structure has one list, which is not heavy. -/
theorem bookkeeping_of_starts
    {cfg : Config} {s : OmrdState Worker}
    (h : s.Starts cfg) :
    Bookkeeping cfg s := by
  rcases h with ⟨hNil, hIdle, -, -, -, m₀, m, n, hNew,
    hInitial, hOrder⟩
  have hStored := omNew_spec hNew
  have hEmpty : Maintained cfg
      { mem := m, om := s.om.om, order := [] }
      (.leaf m₀.tls.next m₀.lists.next) [[]] :=
    ⟨hStored, rfl, rfl, fun _ => Nat.zero_le _⟩
  have hFirst : omStep cfg
      { mem := m, om := s.om.om, order := [] } .insertInitial
      s.om :=
    ⟨rfl, rfl, n, hInitial, hOrder⟩
  rcases hEmpty.insertInitial hFirst with ⟨yss, hMain⟩
  refine ⟨⟨_, yss, hMain⟩, ?_, ?_⟩
  · rw [hNil]
    apply Booked.empty
    · intro p hLive
      rcases hMain.stored.mem_leaves rfl hLive with
        ⟨l, hMem⟩
      rw [Shape.leaves, List.mem_singleton] at hMem
      cases hMem
      have hLeaf := leafList_of_mem hMain.stored rfl
        (List.mem_singleton_self _)
      rcases omNew_light hNew with
        ⟨⟨a, hRoot, hBelow⟩, k, hList, hLight⟩
      have hDown := omInsertInitial_light hRoot hBelow hList
        hLight hInitial
      rw [hLeaf.leafHeavy_eq, hDown]
      exact Bool.false_ne_true
    · intro w
      rw [hIdle]
      rfl
  · intro w b hb
    rw [hIdle] at hb
    cases hb

------------------------------------------------------------
-- Relabels
------------------------------------------------------------

/- What `relabel` does, if it returns. -/
theorem of_relabel
    {cfg : Config} {s s' : OmrdState Worker}
    (hRun : s.relabel cfg = Except.ok s') :
    (s.heavyNodes = [] ∧ s' = s) ∨
      ∃ m om, omRelabel cfg s.om.mem s.om.om s.heavyNodes =
          Except.ok (m, om) ∧
        s' = { s with
          om := { s.om with mem := m, om := om }
          heavyNodes := []
          covered := fun w => s.covered w || s.covers w } := by
  unfold OmrdState.relabel at hRun
  split at hRun
  · cases hRun
    exact Or.inl ⟨‹_›, rfl⟩
  · rcases bind_eq_ok hRun with ⟨⟨m, om⟩, hRelabel, hRun⟩
    cases hRun
    exact Or.inr ⟨m, om, hRelabel, rfl⟩

/- A worker without its mutex holds no leaf. -/
theorem heldAt_of_parked
    {pc : InsertPc} (m : Mem)
    (hParked : pc.Parked) :
    heldAt m pc = none := by
  cases pc with
  | record base n => cases hParked
  | _ => rfl

/- No list is heavy after a relabel. -/
theorem Bookkeeping.relabel
    {cfg : Config} {s s' : OmrdState Worker}
    (hCfg : cfg.WellFormed)
    (h : Bookkeeping cfg s)
    (hParked : ∀ w, (s.pc w).Parked)
    (hRun : s.relabel cfg = Except.ok s') :
    Bookkeeping cfg s' ∧ s'.heavyNodes = [] ∧
      ∀ p, LiveLeaf cfg s'.om.mem s'.om.om p →
        ¬ leafHeavy s'.om.mem p = true := by
  have hHand := fun w =>
    heldAt_of_parked s.om.mem (hParked w)
  rcases of_relabel hRun with
    ⟨hNil, rfl⟩ | ⟨m, om, hRelabel, rfl⟩
  · refine ⟨h, hNil, ?_⟩
    apply h.booked.hand_over hHand
    intro p hLive hUp
    refine ⟨hLive, hUp, ?_⟩
    rw [hNil]
    exact List.not_mem_nil
  · rcases h.maintained with ⟨t, yss, hMain⟩
    rcases omRelabel_spec hCfg hMain.stored hMain.unmarked
      (hMain.leaves h.booked.liveListed) h.booked.nodup
      hRelabel with ⟨t', yss', hAfter⟩
    have hMain' : Maintained cfg
        { s.om with mem := m, om := om } t' yss' := by
      refine ⟨hAfter.stored, hAfter.unmarked, ?_,
        fun hLogs => hAfter.shallow hLogs
          (hMain.shallow hLogs)⟩
      rw [hAfter.order]
      exact hMain.order
    have hDown : ∀ p, LiveLeaf cfg m om p →
        ¬ leafHeavy m p = true := by
      apply h.booked.hand_over hHand
      intro p hLive hUp
      rcases hAfter.stored.mem_leaves hAfter.unmarked hLive
        with ⟨l, hMem⟩
      have hLeaf := leafList_of_mem hAfter.stored
        hAfter.unmarked hMem
      rw [hLeaf.leafHeavy_eq] at hUp
      rcases hAfter.leaves _ hMem with
        ⟨hOld, hNot, hSame⟩ | hNew
      · have hOldLive :=
          hMain.stored.liveLeaf hMain.unmarked hOld
        have hOldLeaf := leafList_of_mem hMain.stored
          hMain.unmarked hOld
        refine ⟨hOldLive, ?_, hNot⟩
        rw [hOldLeaf.leafHeavy_eq]
        unfold listHeavy at hUp ⊢
        rw [← hSame.record]
        exact hUp
      · rcases hNew with ⟨k, ps, hGet, hHeavy, -⟩
        unfold listHeavy at hUp
        rw [hGet, Option.map_some, hHeavy] at hUp
        cases hUp
    refine ⟨⟨⟨t', yss', hMain'⟩, ?_, h.bases⟩, rfl, hDown⟩
    exact Booked.empty hDown fun w =>
      heldAt_of_parked m (hParked w)

------------------------------------------------------------
-- Workers
------------------------------------------------------------

variable [DecidableEq Worker]

/- `try_insert` adds assertions to `om_insert`. -/
theorem of_tryInsert
    {cfg : Config} {batchInProgress : Bool} {m : Mem}
    {base : Nat} {r : Mem × Option Nat}
    (hRun : tryInsert cfg batchInProgress m base =
      Except.ok r) :
    omInsert cfg m base = Except.ok r := by
  unfold tryInsert at hRun
  rcases bind_eq_ok hRun with ⟨-, -, hRun⟩
  rcases bind_eq_ok hRun with ⟨⟨m', n⟩, hInsert, hRun⟩
  rcases bind_eq_ok hRun with ⟨-, -, hRun⟩
  cases n with
  | none =>
      cases hRun
      exact hInsert
  | some n =>
      rcases bind_eq_ok hRun with ⟨-, -, hRun⟩
      cases hRun
      exact hInsert

/- What `try_insert` does, if it returns. -/
theorem of_insertAt
    {cfg : Config} {s s' : OmrdState Worker} {w : Worker}
    {base : Nat} {found : Nat → InsertPc}
    (hRun : s.insertAt cfg w base found = Except.ok s') :
    ∃ m r, omInsert cfg s.om.mem base = Except.ok (m, r) ∧
      s' = (s.afterInsert base m r).setPc w
        (match r with
          | none => .slow base
          | some n => found n) := by
  unfold OmrdState.insertAt at hRun
  rcases bind_eq_ok hRun with ⟨⟨m, r⟩, hInsert, hRun⟩
  cases hRun
  exact ⟨m, r, of_tryInsert hInsert, rfl⟩

omit [DecidableEq Worker] in
/- What `add_heavy` does, if it returns. -/
theorem of_addHeavy
    {cfg : Config} {s s' : OmrdState Worker} {base : Nat}
    (hRun : s.addHeavy cfg base = Except.ok s') :
    ∃ p, getTl cfg s.om.mem base = Except.ok p ∧
      s' = { s with heavyNodes := s.heavyNodes ++ [p] } := by
  unfold OmrdState.addHeavy at hRun
  rcases bind_eq_ok hRun with ⟨-, -, hRun⟩
  rcases bind_eq_ok hRun with ⟨p, hGet, hRun⟩
  rcases bind_eq_ok hRun with ⟨q, -, hRun⟩
  cases hRun
  exact ⟨p, hGet, rfl⟩

/- What a step of a worker does to the structure. -/
theorem om_of_advance
    {cfg : Config} {threshold : Nat}
    {s s' : OmrdState Worker} {w : Worker}
    (hRun : s.advance cfg threshold w = Except.ok s') :
    s'.om = s.om ∨
      (∃ l, s'.om =
        { s.om with mem := markHeavy s.om.mem l }) ∨
      ∃ base m r, (s.pc w).base = some base ∧
        omInsert cfg s.om.mem base = Except.ok (m, r) ∧
        s'.om = (s.afterInsert base m r).om := by
  unfold OmrdState.advance at hRun
  cases hPc : s.pc w with
  | idle =>
      rw [hPc] at hRun
      cases hRun
      exact Or.inl rfl
  | tryInsert base =>
      rw [hPc] at hRun
      rcases of_insertAt hRun with ⟨m, r, hInsert, rfl⟩
      exact Or.inr (Or.inr ⟨base, m, r, rfl, hInsert, rfl⟩)
  | slow base =>
      rw [hPc] at hRun
      rcases bind_eq_ok hRun with ⟨heavy, -, hRun⟩
      cases hRun
      exact Or.inl rfl
  | claim base n =>
      rw [hPc] at hRun
      rcases bind_eq_ok hRun with ⟨⟨m, claimed⟩, hCas, hRun⟩
      cases hRun
      unfold casHeavy at hCas
      rcases bind_eq_ok hCas with ⟨b, -, hCas⟩
      rcases bind_eq_ok hCas with ⟨l, -, hCas⟩
      split at hCas
      · cases hCas
        exact Or.inl rfl
      · cases hCas
        exact Or.inr (Or.inl ⟨b.list, rfl⟩)
  | record base n =>
      rw [hPc] at hRun
      rcases bind_eq_ok hRun with ⟨s₁, hAdd, hRun⟩
      rcases of_addHeavy hAdd with ⟨p, -, rfl⟩
      left
      cases n with
      | none =>
          cases hRun
          rfl
      | some n =>
          cases hRun
          rfl
  | unlock base =>
      rw [hPc] at hRun
      cases hRun
      exact Or.inl rfl
  | waiting base =>
      rw [hPc] at hRun
      cases hRun
      exact Or.inl rfl
  | retry base =>
      rw [hPc] at hRun
      rcases of_insertAt hRun with ⟨m, r, hInsert, rfl⟩
      exact Or.inr (Or.inr ⟨base, m, r, rfl, hInsert, rfl⟩)
  | checkLight base n =>
      rw [hPc] at hRun
      rcases bind_eq_ok hRun with ⟨-, -, hRun⟩
      rcases bind_eq_ok hRun with ⟨heavy, -, hRun⟩
      rcases bind_eq_ok hRun with ⟨-, -, hRun⟩
      cases hRun
      exact Or.inl rfl
  | test base n =>
      rw [hPc] at hRun
      rcases bind_eq_ok hRun with ⟨-, -, hRun⟩
      rcases bind_eq_ok hRun with ⟨heavy, -, hRun⟩
      cases hRun
      exact Or.inl rfl
  | weigh base n =>
      rw [hPc] at hRun
      rcases bind_eq_ok hRun with ⟨heavy, -, hRun⟩
      cases hRun
      exact Or.inl rfl
  | leave base n =>
      rw [hPc] at hRun
      cases hRun
      exact Or.inl rfl

namespace Bookkeeping

variable {cfg : Config} {s s' : OmrdState Worker}
variable {w : Worker}

/- The bases after a worker moved. -/
theorem bases_setPc
    {pc : InsertPc}
    (h : Bookkeeping cfg s)
    (hBase : ∀ b, pc.base = some b → b ∈ s.om.order) :
    ∀ v b, ((s.setPc w pc).pc v).base = some b →
      b ∈ s.om.order := by
  intro v b hb
  by_cases hv : v = w
  · subst hv
    apply hBase
    simpa [OmrdState.setPc] using hb
  · apply h.bases v
    simpa [OmrdState.setPc, hv] using hb

theorem setFailed
    (h : Bookkeeping cfg s) (w : Worker) (b : Bool) :
    Bookkeeping cfg (s.setFailed w b) :=
  ⟨h.maintained, h.booked, h.bases⟩

/- A worker goes on without a change to the rest. -/
theorem move
    {pc : InsertPc}
    (h : Bookkeeping cfg s)
    (hBase : ∀ b, pc.base = some b → b ∈ s.om.order)
    (hHeld : heldAt s.om.mem pc =
      heldAt s.om.mem (s.pc w)) :
    Bookkeeping cfg (s.setPc w pc) := by
  refine ⟨h.maintained, ?_, h.bases_setPc hBase⟩
  apply h.booked.congr (fun _ => Iff.rfl)
    (fun _ _ => Iff.rfl)
  intro v
  by_cases hv : v = w
  · subst hv
    rw [← hHeld]
    simp [OmrdState.setPc]
  · simp [OmrdState.setPc, hv]

/- The structure after `try_insert`, in both places. -/
theorem insertAt
    {base : Nat} {found : Nat → InsertPc}
    (h : Bookkeeping cfg s)
    (hPc : (s.pc w).base = some base)
    (hFree : ∀ m, heldAt m (s.pc w) = none)
    (hFound : ∀ m n, (found n).base = some base ∧
      heldAt m (found n) = none)
    (hRun : s.insertAt cfg w base found = Except.ok s') :
    Bookkeeping cfg s' := by
  rcases of_insertAt hRun with ⟨m, r, hInsert, rfl⟩
  have hBase := h.bases w base hPc
  have hLater := (h.afterInsert hBase hInsert).1
  apply hLater.move
  · intro b hb
    have hEq : b = base := by
      cases r with
      | none => exact (Option.some.inj hb).symm
      | some n =>
          exact Option.some.inj
            (hb.symm.trans (hFound m n).1)
    rw [hEq]
    exact mem_orderAfter r hBase
  · rw [show (s.afterInsert base m r).pc = s.pc from rfl,
      hFree]
    cases r with
    | none => rfl
    | some n => exact (hFound _ n).2

/- The structure after the compare-and-swap on a flag. -/
theorem claim
    {base : Nat} {n : Option Nat} {m : Mem} {claimed : Bool}
    {pc : InsertPc}
    (h : Bookkeeping cfg s)
    (hPc : s.pc w = .claim base n)
    (hCas : casHeavy s.om.mem base =
      Except.ok (m, claimed))
    (hBase : pc.base = some base)
    (hFree : ∀ m, heldAt m pc = none) :
    Bookkeeping cfg ((s.withMem m).setPc w
      (if claimed then .record base n else pc)) := by
  have hMem : base ∈ s.om.order := by
    apply h.bases w
    rw [hPc]
    rfl
  have hEmpty : heldAt s.om.mem (s.pc w) = none := by
    rw [hPc]
    rfl
  rcases h.maintained with ⟨t, yss, hMain⟩
  rcases placed_of_mem hMain hMem with
    ⟨p, l, hPlaced, hLive⟩
  rw [hPlaced.casHeavy_eq, Except.ok.injEq] at hCas
  by_cases hUp : leafHeavy s.om.mem p = true
  · rw [if_pos hUp] at hCas
    cases hCas
    apply h.move
    · intro b hb
      exact Option.some.inj (hBase.symm.trans hb) ▸ hMem
    · rw [hEmpty]
      exact hFree _
  · rw [if_neg hUp] at hCas
    cases hCas
    have hFrame := frame_markHeavy s.om.mem l s.om.order
    rcases hPlaced.leaf.up with ⟨k, hGet, -⟩
    rw [if_pos rfl]
    refine ⟨⟨t, yss, maintained_markHeavy l hMain⟩, ?_, ?_⟩
    · apply h.booked.claim hLive hUp hEmpty
      · intro q hq
        rcases leafList_of_live hMain hq with ⟨j, hLeaf⟩
        dsimp only [OmrdState.setPc, OmrdState.withMem]
        rw [hLeaf.leafHeavy_eq,
          (hFrame.leafList hLeaf).leafHeavy_eq,
          listHeavy_markHeavy hGet, Bool.or_eq_true,
          decide_eq_true_iff]
        apply or_congr_right
        constructor
        · rintro rfl
          exact hLeaf.leaf_unique hPlaced.leaf
        · rintro rfl
          exact hLeaf.list_unique hPlaced.leaf
      · simp only [OmrdState.setPc, OmrdState.withMem,
          Function.update_self]
        exact congrArg some
          (hFrame.placed hMem hPlaced).omGetTl_eq
      · intro v hv
        simp only [OmrdState.setPc, OmrdState.withMem,
          Function.update_of_ne hv]
        exact h.heldAt_eq hMain hFrame v
    · apply h.bases_setPc
      intro b hb
      exact Option.some.inj hb ▸ hMem

/- The structure after `add_heavy`. -/
theorem record
    {base : Nat} {n : Option Nat} {pc : InsertPc}
    {s₁ : OmrdState Worker}
    (h : Bookkeeping cfg s)
    (hPc : s.pc w = .record base n)
    (hAdd : s.addHeavy cfg base = Except.ok s₁)
    (hBase : pc.base = some base)
    (hFree : ∀ m, heldAt m pc = none) :
    Bookkeeping cfg (s₁.setPc w pc) := by
  have hMem : base ∈ s.om.order := by
    apply h.bases w
    rw [hPc]
    rfl
  rcases h.maintained with ⟨t, yss, hMain⟩
  rcases placed_of_mem hMain hMem with ⟨p, l, hPlaced, -⟩
  rcases of_addHeavy hAdd with ⟨q, hGet, rfl⟩
  cases hPlaced.getTl_eq.symm.trans hGet
  refine ⟨h.maintained, ?_, ?_⟩
  · apply h.booked.record (w := w)
    · rw [hPc]
      exact congrArg some hPlaced.omGetTl_eq
    · simp only [OmrdState.setPc, Function.update_self]
      exact hFree _
    · intro v hv
      simp only [OmrdState.setPc,
        Function.update_of_ne hv]
  · apply h.bases_setPc
    intro b hb
    exact Option.some.inj (hBase.symm.trans hb) ▸ hMem

/- One step of a worker that has its mutex. -/
theorem advance
    {threshold : Nat}
    (h : Bookkeeping cfg s)
    (hRun : s.advance cfg threshold w = Except.ok s') :
    Bookkeeping cfg s' := by
  have hBases := h.bases w
  unfold OmrdState.advance at hRun
  cases hPc : s.pc w with
  | idle =>
      rw [hPc] at hRun
      cases hRun
      exact h
  | waiting base =>
      rw [hPc] at hRun
      cases hRun
      exact h
  | tryInsert base =>
      rw [hPc] at hRun
      exact h.insertAt (hPc ▸ rfl) (fun m => hPc ▸ rfl)
        (fun m n => ⟨rfl, rfl⟩) hRun
  | retry base =>
      rw [hPc] at hRun
      exact h.insertAt (hPc ▸ rfl) (fun m => hPc ▸ rfl)
        (fun m n => ⟨rfl, rfl⟩) hRun
  | slow base =>
      rw [hPc] at hRun hBases
      rcases bind_eq_ok hRun with ⟨heavy, -, hRun⟩
      cases hRun
      apply (h.setFailed w true).move
      · cases heavy with
        | false => exact hBases
        | true => exact hBases
      · rw [show (s.setFailed w true).pc = s.pc from rfl,
          hPc]
        cases heavy with
        | false => rfl
        | true => rfl
  | claim base n =>
      rw [hPc] at hRun
      rcases bind_eq_ok hRun with ⟨⟨m, claimed⟩, hCas, hRun⟩
      cases hRun
      apply h.claim hPc hCas
      · cases n with
        | none => rfl
        | some n => rfl
      · intro m
        cases n with
        | none => rfl
        | some n => rfl
  | record base n =>
      rw [hPc] at hRun
      rcases bind_eq_ok hRun with ⟨s₁, hAdd, hRun⟩
      cases n with
      | none =>
          cases hRun
          exact h.record hPc hAdd rfl (fun _ => rfl)
      | some n =>
          cases hRun
          exact h.record hPc hAdd rfl (fun _ => rfl)
  | unlock base =>
      rw [hPc] at hRun hBases
      cases hRun
      exact h.move hBases (hPc ▸ rfl)
  | checkLight base n =>
      rw [hPc] at hRun hBases
      rcases bind_eq_ok hRun with ⟨-, -, hRun⟩
      rcases bind_eq_ok hRun with ⟨heavy, -, hRun⟩
      rcases bind_eq_ok hRun with ⟨-, -, hRun⟩
      cases hRun
      exact h.move hBases (hPc ▸ rfl)
  | test base n =>
      rw [hPc] at hRun hBases
      rcases bind_eq_ok hRun with ⟨-, -, hRun⟩
      rcases bind_eq_ok hRun with ⟨heavy, -, hRun⟩
      cases hRun
      apply h.move
      · cases heavy with
        | false => exact hBases
        | true => exact hBases
      · rw [hPc]
        cases heavy with
        | false => rfl
        | true => rfl
  | weigh base n =>
      rw [hPc] at hRun hBases
      rcases bind_eq_ok hRun with ⟨heavy, -, hRun⟩
      cases hRun
      apply h.move
      · cases heavy with
        | false => exact hBases
        | true => exact hBases
      · rw [hPc]
        cases heavy with
        | false => rfl
        | true => rfl
  | leave base n =>
      rw [hPc] at hRun
      cases hRun
      apply h.move
      · intro b hb
        cases hb
      · rw [hPc]
        rfl

/- One step of a worker, calls and returns included. -/
theorem worker_step
    {threshold : Nat} {a : OmrdAction Worker}
    (h : Bookkeeping cfg s)
    (hWorker : a.ofWorker = true)
    (hStep : omrdStep cfg threshold s a s') :
    Bookkeeping cfg s' := by
  cases a with
  | start w base =>
      rcases hStep with ⟨-, hIdle, hBase, rfl⟩
      have hMove : Bookkeeping cfg
          (s.setPc w (.tryInsert base)) := by
        apply h.move
        · intro b hb
          cases hb
          exact hBase
        · rw [hIdle]
          rfl
      exact ⟨hMove.maintained, hMove.booked, hMove.bases⟩
  | run w => exact h.advance hStep
  | resume w =>
      rcases hStep with ⟨-, base, hPc, rfl⟩
      have hBases := h.bases w
      rw [hPc] at hBases
      exact (h.setFailed w false).move hBases (hPc ▸ rfl)
  | _ => cases hWorker

end Bookkeeping

------------------------------------------------------------
-- Batches
------------------------------------------------------------

/- The worker tries again, or has just succeeded. -/
def InsertPc.Retries : InsertPc → Prop
| .retry _ => True
| .checkLight _ _ => True
| _ => False

/-
  While a batch is in progress, its owner has the mutexes of
  all workers.  A worker that tries again does not ask for a
  batch.
-/
structure Batches (s : OmrdState Worker) : Prop where
  owner : s.batchInProgress = true → s.locked = true
  parked : s.locked = true → ∀ w, (s.pc w).Parked
  content : ∀ w, (s.pc w).Retries →
    s.insertFailed w = false

namespace Batches

variable {cfg : Config} {threshold : Nat}
variable {s s' : OmrdState Worker} {w : Worker}

omit [DecidableEq Worker] in
theorem of_starts
    (h : s.Starts cfg) :
    Batches s := by
  rcases h with ⟨-, -, hFailed, hOpen, hOver, -⟩
  refine ⟨?_, ?_, fun w _ => hFailed w⟩
  · intro hBatch
    rw [hOver] at hBatch
    cases hBatch
  · intro hLocked
    rw [hOpen] at hLocked
    cases hLocked

omit [DecidableEq Worker] in
theorem not_locked
    (h : Batches s)
    (hPc : ¬ (s.pc w).Parked) :
    s.locked = false := by
  rw [← Bool.not_eq_true]
  intro hLocked
  exact hPc (h.parked hLocked w)

omit [DecidableEq Worker] in
/- A relabel has the mutexes of all workers. -/
theorem all_parked
    (h : Batches s)
    (hBatch : s.batchInProgress = true) :
    ∀ w, (s.pc w).Parked :=
  h.parked (h.owner hBatch)

omit [DecidableEq Worker] in
/- The assertions on `g_batch_in_progress`. -/
theorem not_inProgress
    (h : Batches s)
    (hPc : ¬ (s.pc w).Parked) :
    s.batchInProgress = false := by
  rw [← Bool.not_eq_true]
  intro hBatch
  exact hPc (h.all_parked hBatch w)

/- A worker moves while no batch has its mutex. -/
theorem setPc
    {s₁ : OmrdState Worker} {pc : InsertPc}
    (h : Batches s)
    (hOpen : s.locked = false)
    (hContent : pc.Retries → s₁.insertFailed w = false)
    (hPc : s₁.pc = s.pc)
    (hFailed : ∀ v, v ≠ w →
      s₁.insertFailed v = s.insertFailed v)
    (hLocked : s₁.locked = s.locked)
    (hBatch : s₁.batchInProgress = s.batchInProgress) :
    Batches (s₁.setPc w pc) := by
  refine ⟨?_, ?_, ?_⟩
  · dsimp only [OmrdState.setPc]
    rw [hLocked, hBatch]
    exact h.owner
  · dsimp only [OmrdState.setPc]
    rw [hLocked, hOpen]
    intro hTrue
    cases hTrue
  · intro v hv
    dsimp only [OmrdState.setPc] at hv ⊢
    by_cases hvw : v = w
    · subst hvw
      rw [Function.update_self] at hv
      exact hContent hv
    · rw [Function.update_of_ne hvw, hPc] at hv
      rw [hFailed v hvw]
      exact h.content v hv

/- A worker that has its mutex moves. -/
theorem advance
    (h : Batches s)
    (hRun : s.advance cfg threshold w = Except.ok s') :
    Batches s' := by
  have hContent := h.content w
  have hOpen := fun hPc => h.not_locked (w := w) hPc
  unfold OmrdState.advance at hRun
  cases hPc : s.pc w with
  | idle =>
      rw [hPc] at hRun
      cases hRun
      exact h
  | waiting base =>
      rw [hPc] at hRun
      cases hRun
      exact h
  | tryInsert base =>
      rw [hPc] at hRun hOpen
      rcases of_insertAt hRun with ⟨m, r, -, rfl⟩
      refine h.setPc (hOpen id) ?_ rfl (fun _ _ => rfl) rfl rfl
      cases r with
      | none => exact False.elim
      | some n => exact False.elim
  | retry base =>
      rw [hPc] at hRun hOpen hContent
      rcases of_insertAt hRun with ⟨m, r, -, rfl⟩
      exact h.setPc (hOpen id) (fun _ => hContent trivial)
        rfl (fun _ _ => rfl) rfl rfl
  | slow base =>
      rw [hPc] at hRun hOpen
      rcases bind_eq_ok hRun with ⟨heavy, -, hRun⟩
      cases hRun
      refine h.setPc (hOpen id) ?_ rfl
        (fun v hv => Function.update_of_ne hv _ _) rfl rfl
      cases heavy with
      | false => exact False.elim
      | true => exact False.elim
  | claim base n =>
      rw [hPc] at hRun hOpen
      rcases bind_eq_ok hRun with ⟨⟨m, claimed⟩, -, hRun⟩
      cases hRun
      refine h.setPc (hOpen id) ?_ rfl (fun _ _ => rfl) rfl rfl
      cases claimed with
      | true => exact False.elim
      | false =>
          cases n with
          | none => exact False.elim
          | some n => exact False.elim
  | record base n =>
      rw [hPc] at hRun hOpen
      rcases bind_eq_ok hRun with ⟨s₁, hAdd, hRun⟩
      rcases of_addHeavy hAdd with ⟨p, -, rfl⟩
      cases n with
      | none =>
          cases hRun
          exact h.setPc (hOpen id) False.elim rfl
            (fun _ _ => rfl) rfl rfl
      | some n =>
          cases hRun
          exact h.setPc (hOpen id) False.elim rfl
            (fun _ _ => rfl) rfl rfl
  | unlock base =>
      rw [hPc] at hRun hOpen
      cases hRun
      exact h.setPc (hOpen id) False.elim rfl
        (fun _ _ => rfl) rfl rfl
  | checkLight base n =>
      rw [hPc] at hRun hOpen
      rcases bind_eq_ok hRun with ⟨-, -, hRun⟩
      rcases bind_eq_ok hRun with ⟨heavy, -, hRun⟩
      rcases bind_eq_ok hRun with ⟨-, -, hRun⟩
      cases hRun
      exact h.setPc (hOpen id) False.elim rfl
        (fun _ _ => rfl) rfl rfl
  | test base n =>
      rw [hPc] at hRun hOpen
      rcases bind_eq_ok hRun with ⟨-, -, hRun⟩
      rcases bind_eq_ok hRun with ⟨heavy, -, hRun⟩
      cases hRun
      refine h.setPc (hOpen id) ?_ rfl (fun _ _ => rfl) rfl rfl
      cases heavy with
      | false => exact False.elim
      | true => exact False.elim
  | weigh base n =>
      rw [hPc] at hRun hOpen
      rcases bind_eq_ok hRun with ⟨heavy, -, hRun⟩
      cases hRun
      refine h.setPc (hOpen id) ?_ rfl (fun _ _ => rfl) rfl rfl
      cases heavy with
      | false => exact False.elim
      | true => exact False.elim
  | leave base n =>
      rw [hPc] at hRun hOpen
      cases hRun
      exact h.setPc (hOpen id) False.elim rfl
        (fun _ _ => rfl) rfl rfl

theorem step
    {a : OmrdAction Worker}
    (h : Batches s)
    (hStep : omrdStep cfg threshold s a s') :
    Batches s' := by
  cases a with
  | start w base =>
      rcases hStep with ⟨hOpen, -, -, rfl⟩
      have hMove : Batches (s.setPc w (.tryInsert base)) :=
        h.setPc hOpen False.elim rfl (fun _ _ => rfl) rfl rfl
      exact ⟨hMove.owner, hMove.parked, hMove.content⟩
  | run w => exact h.advance hStep
  | resume w =>
      rcases hStep with ⟨hOpen, base, -, rfl⟩
      exact h.setPc hOpen
        (fun _ => Function.update_self _ _ _) rfl
        (fun v hv => Function.update_of_ne hv _ _) rfl rfl
  | lockAll =>
      rcases hStep with ⟨-, hParked, rfl⟩
      exact ⟨fun _ => rfl, fun _ => hParked, h.content⟩
  | beginBatch =>
      rcases hStep with ⟨hLocked, rfl⟩
      exact ⟨fun _ => hLocked, h.parked, h.content⟩
  | relabel =>
      rcases of_relabel hStep.2 with
        ⟨-, rfl⟩ | ⟨m, om, -, rfl⟩
      · exact h
      · exact ⟨h.owner, h.parked, h.content⟩
  | endBatch =>
      rcases hStep with ⟨-, rfl⟩
      refine ⟨?_, h.parked, h.content⟩
      intro hBatch
      cases hBatch
  | unlockAll =>
      rcases hStep with ⟨-, hOver, rfl⟩
      refine ⟨?_, ?_, h.content⟩
      · intro hBatch
        rw [hOver] at hBatch
        cases hBatch
      · intro hLocked
        cases hLocked

end Batches

------------------------------------------------------------
-- Runs
------------------------------------------------------------

theorem Bookkeeping.step
    {cfg : Config} {threshold : Nat}
    {s s' : OmrdState Worker} {a : OmrdAction Worker}
    (hCfg : cfg.WellFormed)
    (h : Bookkeeping cfg s)
    (hBatches : Batches s)
    (hStep : omrdStep cfg threshold s a s') :
    Bookkeeping cfg s' := by
  cases a with
  | start w base => exact h.worker_step rfl hStep
  | run w => exact h.worker_step rfl hStep
  | resume w => exact h.worker_step rfl hStep
  | relabel =>
      exact (h.relabel hCfg (hBatches.all_parked hStep.1)
        hStep.2).1
  | lockAll =>
      rcases hStep with ⟨-, -, rfl⟩
      exact ⟨h.maintained, h.booked, h.bases⟩
  | beginBatch =>
      rcases hStep with ⟨-, rfl⟩
      exact ⟨h.maintained, h.booked, h.bases⟩
  | endBatch =>
      rcases hStep with ⟨-, rfl⟩
      exact ⟨h.maintained, h.booked, h.bases⟩
  | unlockAll =>
      rcases hStep with ⟨-, -, rfl⟩
      exact ⟨h.maintained, h.booked, h.bases⟩

theorem batches_of_reachable
    {cfg : Config} {threshold : Nat}
    {s : OmrdState Worker}
    (hReach : (omrdSystem Worker cfg threshold).Reachable s) :
    Batches s := by
  apply hReach.invariant (P := Batches)
  · intro s hInit
    exact Batches.of_starts hInit
  · intro s a s' h hStep
    exact h.step hStep

/- In every reachable state, the records are right. -/
theorem bookkeeping_of_reachable
    {cfg : Config} {threshold : Nat}
    {s : OmrdState Worker}
    (hCfg : cfg.WellFormed)
    (hReach : (omrdSystem Worker cfg threshold).Reachable s) :
    Bookkeeping cfg s := by
  have hBoth : Bookkeeping cfg s ∧ Batches s := by
    apply hReach.invariant
      (P := fun s => Bookkeeping cfg s ∧ Batches s)
    · intro s hInit
      exact ⟨bookkeeping_of_starts hInit,
        Batches.of_starts hInit⟩
    · rintro s a s' ⟨h, hBatches⟩ hStep
      exact ⟨h.step hCfg hBatches hStep, hBatches.step hStep⟩
  exact hBoth.1

/-
  In every state of every run, with any number of workers
  inside insertions and any number of relabels before, the
  recorded nodes are distinct live leaves, and a list is
  heavy exactly if its leaf is recorded or a worker is about
  to record it.
-/
theorem heavy_iff_recorded
    {cfg : Config} {threshold : Nat}
    {s : OmrdState Worker}
    (hCfg : cfg.WellFormed)
    (hReach : (omrdSystem Worker cfg threshold).Reachable s) :
    s.heavyNodes.Nodup ∧
      (∀ p ∈ s.heavyNodes,
        LiveLeaf cfg s.om.mem s.om.om p) ∧
      ∀ p, LiveLeaf cfg s.om.mem s.om.om p →
        (leafHeavy s.om.mem p = true ↔
          p ∈ s.heavyNodes ∨
            ∃ w base n, s.pc w = .record base n ∧
              omGetTl s.om.mem base = p) := by
  have hBooked := (bookkeeping_of_reachable hCfg hReach).booked
  refine ⟨hBooked.nodup, hBooked.liveListed, ?_⟩
  intro p hp
  rw [hBooked.flagged p hp]
  apply or_congr_right
  apply exists_congr
  intro w
  cases s.pc w with
  | record base n => simp [heldAt]
  | _ => simp [heldAt]

/-
  Two workers insert after one node.  The first records the
  list, and finds no label the next time.
-/
def fillList (v w : Worker) : List (OmrdAction Worker) :=
  .start v 0 :: List.replicate 6 (.run v) ++
    .start w 0 :: List.replicate 3 (.run w) ++
    .start v 0 :: List.replicate 3 (.run v)

/- The list of the root is recorded, and a worker waits. -/
theorem heavy_iff_recorded_waiting :
    ∃ s : OmrdState Bool,
      s.heavyNodes = [0] ∧ s.pc true = .waiting 0 ∧
      s.heavyNodes.Nodup ∧
      (∀ p ∈ s.heavyNodes,
        LiveLeaf Config.small s.om.mem s.om.om p) ∧
      ∀ p, LiveLeaf Config.small s.om.mem s.om.om p →
        (leafHeavy s.om.mem p = true ↔
          p ∈ s.heavyNodes ∨
            ∃ w base n, s.pc w = .record base n ∧
              omGetTl s.om.mem base = p) := by
  have hRun : ∃ s : OmrdState Bool,
      omrdRun Config.small 62 noMemory
          (fillList true false) = Except.ok s ∧
        s.heavyNodes = [0] ∧ s.pc true = .waiting 0 :=
    ⟨_, rfl, rfl, rfl⟩
  rcases hRun with ⟨s, hRun, hHeavy, hPc⟩
  exact ⟨s, hHeavy, hPc,
    heavy_iff_recorded Config.small_wellFormed
      (reachable_of_omrdRun hRun)⟩

/-
  In every run, a relabel gets distinct live leaves, exactly
  those whose lists are heavy.  Then nothing is recorded any
  more, and there is no heavy list in the tree.
-/
theorem relabel_clears_heavy
    {cfg : Config} {threshold : Nat}
    {s s' : OmrdState Worker}
    (hCfg : cfg.WellFormed)
    (hReach : (omrdSystem Worker cfg threshold).Reachable s)
    (hStep : omrdStep cfg threshold s .relabel s') :
    s.heavyNodes.Nodup ∧
      (∀ p ∈ s.heavyNodes,
        LiveLeaf cfg s.om.mem s.om.om p) ∧
      (∀ p, LiveLeaf cfg s.om.mem s.om.om p →
        (p ∈ s.heavyNodes ↔ leafHeavy s.om.mem p = true)) ∧
      s'.heavyNodes = [] ∧
      ∀ p, LiveLeaf cfg s'.om.mem s'.om.om p →
        leafHeavy s'.om.mem p = false := by
  have h := bookkeeping_of_reachable hCfg hReach
  have hParked :=
    (batches_of_reachable hReach).all_parked hStep.1
  rcases h.relabel hCfg hParked hStep.2 with
    ⟨-, hNil, hDown⟩
  refine ⟨h.booked.nodup, h.booked.liveListed, ?_, hNil, ?_⟩
  · intro p hp
    rw [h.booked.flagged p hp]
    constructor
    · exact Or.inl
    · rintro (hMem | ⟨w, hw⟩)
      · exact hMem
      · rw [heldAt_of_parked _ (hParked w)] at hw
        cases hw
  · intro p hp
    rw [← Bool.not_eq_true]
    exact hDown p hp

/- The list that a worker waits for is split. -/
theorem relabel_clears_heavy_waiting :
    ∃ s s' : OmrdState Bool,
      s.heavyNodes = [0] ∧ s'.covered true = true ∧
      s.heavyNodes.Nodup ∧
      (∀ p ∈ s.heavyNodes,
        LiveLeaf Config.small s.om.mem s.om.om p) ∧
      (∀ p, LiveLeaf Config.small s.om.mem s.om.om p →
        (p ∈ s.heavyNodes ↔
          leafHeavy s.om.mem p = true)) ∧
      s'.heavyNodes = [] ∧
      ∀ p, LiveLeaf Config.small s'.om.mem s'.om.om p →
        leafHeavy s'.om.mem p = false := by
  have hRun : ∃ s s' : OmrdState Bool,
      omrdRun Config.small 62 noMemory
          (fillList true false ++ [.lockAll, .beginBatch]) =
        Except.ok s ∧
        perform Config.small 62 s .relabel =
          Except.ok s' ∧
        s.heavyNodes = [0] ∧ s'.covered true = true :=
    ⟨_, _, rfl, rfl, rfl, rfl⟩
  rcases hRun with ⟨s, s', hRun, hStep, hHeavy, hCovered⟩
  exact ⟨s, s', hHeavy, hCovered,
    relabel_clears_heavy Config.small_wellFormed
      (reachable_of_omrdRun hRun) (step_of_perform hStep)⟩

end Omrd

end PRacer
