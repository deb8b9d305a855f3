import PRacer.OrderMaint.Marking

/-
  The tree and the lists below its leaves.

  Main declarations:
    * `ListOf`, `Stored`
    * `NewList`, `SameList`
    * `leafSize`, `extraLeaves`, `estimate`
-/

namespace PRacer

open Foundations

namespace OrderMaint

------------------------------------------------------------
-- The Structure in Memory
------------------------------------------------------------

/- A leaf and its list, which consists of the given nodes. -/
structure ListOf
    (m : Mem) (x : Nat × Nat) (ys : List (Nat × Label)) :
    Prop where
  above : ∃ l, m.lists.get x.2 = some l ∧
    l.above = some x.1
  linked : Linked m x.2 ys

/-
  The tree, and the lists below its leaves.  During a relabel
  some of the leaves are heavy.
-/
structure Stored
    (cfg : Config) (m : Mem) (om : Om) (t : Shape)
    (yss : List (List (Nat × Label))) : Prop where
  root : om.root = t.ptr
  rep : Rep cfg m.tls none 0 0 t.marked t
  nodup : t.addrs.Nodup
  lists : List.Forall₂ (ListOf m) t.leaves yss
  nodupLists : (t.leaves.map Prod.snd).Nodup
  nodupNodes : (yss.flatten.map Prod.fst).Nodup
  deep : HeavyDeep cfg om.height 0 t

/- A list as a split leaves it. -/
def NewList (cfg : Config) (m : Mem) (list : Nat) : Prop :=
  ∃ l ps, m.lists.get list = some l ∧ l.heavy = false ∧
    Linked m list (spaced cfg 0 ps) ∧ ps ≠ [] ∧
    ps.length ≤ cfg.sublistSize

/- A list that stays as it is. -/
structure SameList (m m' : Mem) (list : Nat) : Prop where
  record : m'.lists.get list = m.lists.get list
  linked : ∀ ys, Linked m list ys → Linked m' list ys

theorem SameList.refl (m : Mem) (list : Nat) :
    SameList m m list :=
  ⟨rfl, fun _ h => h⟩

theorem SameList.trans
    {m m' m'' : Mem} {list : Nat}
    (h : SameList m m' list)
    (h' : SameList m' m'' list) :
    SameList m m'' list :=
  ⟨h'.record.trans h.record,
    fun ys hLinked => h'.linked ys (h.linked ys hLinked)⟩

theorem NewList.of_same
    {cfg : Config} {m m' : Mem} {list : Nat}
    (h : NewList cfg m list)
    (hSame : SameList m m' list) :
    NewList cfg m' list := by
  rcases h with
    ⟨l, ps, hGet, hHeavy, hLinked, hNonempty, hLe⟩
  refine ⟨l, ps, ?_, hHeavy, hSame.linked _ hLinked,
    hNonempty, hLe⟩
  rw [hSame.record]
  exact hGet

/- A list of pairs falls apart where one of its sides does. -/
theorem forall₂_middle
    {α β : Type} {R : α → β → Prop}
    {ls rs : List α} {a : α} {ys : List β}
    (h : List.Forall₂ R (ls ++ a :: rs) ys) :
    ∃ us b vs, ys = us ++ b :: vs ∧
      List.Forall₂ R ls us ∧ R a b ∧ List.Forall₂ R rs vs := by
  induction ls generalizing ys with
  | nil =>
      cases h with
      | cons hHead hRest =>
          exact ⟨[], _, _, rfl, List.Forall₂.nil, hHead, hRest⟩
  | cons x ls ih =>
      cases h with
      | @cons _ y _ ys hHead hRest =>
          rcases ih hRest with ⟨us, b, vs, rfl, hL, hA, hR⟩
          exact ⟨y :: us, b, vs, rfl,
            List.Forall₂.cons hHead hL, hA, hR⟩

/- A list whose records stay. -/
theorem ListOf.same
    {m m' : Mem} {x : Nat × Nat} {ys : List (Nat × Label)}
    (h : ListOf m x ys)
    (hRecord : m'.lists.get x.2 = m.lists.get x.2)
    (hNodes : ∀ p ∈ ys.map Prod.fst,
      m'.nodes.get p = m.nodes.get p) :
    SameList m m' x.2 ∧ ListOf m' x ys := by
  rcases h.above with ⟨k, hGet, hAbove⟩
  have hLinked : Linked m' x.2 ys :=
    h.linked.congr hRecord hNodes
  refine ⟨⟨hRecord, ?_⟩, ⟨k, hRecord.trans hGet, hAbove⟩,
    hLinked⟩
  intro zs hzs
  rw [hzs.unique h.linked]
  exact hLinked

/- Lists whose records stay. -/
theorem lists_same
    {m : Mem} (m' : Mem) {ls : List (Nat × Nat)}
    {us : List (List (Nat × Label))}
    (h : List.Forall₂ (ListOf m) ls us)
    (hRecords : ∀ x ∈ ls,
      m'.lists.get x.2 = m.lists.get x.2)
    (hNodes : ∀ ys ∈ us, ∀ p ∈ ys.map Prod.fst,
      m'.nodes.get p = m.nodes.get p) :
    List.Forall₂ (ListOf m') ls us ∧
      ∀ x ∈ ls, SameList m m' x.2 := by
  induction h with
  | nil => exact ⟨List.Forall₂.nil, by simp⟩
  | @cons x ys ls us hHead _ ih =>
      rw [List.forall_mem_cons] at hRecords hNodes
      have hSame := hHead.same hRecords.1 hNodes.1
      rcases ih hRecords.2 hNodes.2 with ⟨hRest, hOthers⟩
      refine ⟨List.Forall₂.cons hSame.2 hRest, ?_⟩
      rw [List.forall_mem_cons]
      exact ⟨hSame.1, hOthers⟩

/- Every leaf has a list. -/
theorem exists_listOf_of_mem
    {m : Mem} {ls : List (Nat × Nat)}
    {us : List (List (Nat × Label))} {x : Nat × Nat}
    (h : List.Forall₂ (ListOf m) ls us)
    (hx : x ∈ ls) :
    ∃ ys, ListOf m x ys := by
  rcases List.mem_iff_append.mp hx with ⟨as, bs, rfl⟩
  rcases forall₂_middle h with ⟨us, ys, vs, -, -, hOf, -⟩
  exact ⟨ys, hOf⟩

/- All lists below leaves are allocated. -/
theorem lists_lt_next
    {m : Mem} {ls : List (Nat × Nat)}
    {us : List (List (Nat × Label))}
    (h : List.Forall₂ (ListOf m) ls us) :
    ∀ x ∈ ls, x.2 < m.lists.next := by
  induction h with
  | nil => simp
  | @cons x ys ls us hHead _ ih =>
      rw [List.forall_mem_cons]
      rcases hHead.above with ⟨k, hGet, -⟩
      exact ⟨Heap.lt_next hGet, ih⟩

/- All nodes of the lists are among the nodes. -/
theorem mem_flatten_map
    {us : List (List (Nat × Label))}
    {ys : List (Nat × Label)} {q : Nat}
    (hys : ys ∈ us)
    (hq : q ∈ ys.map Prod.fst) :
    q ∈ us.flatten.map Prod.fst := by
  rw [List.mem_map] at hq ⊢
  rcases hq with ⟨z, hz, rfl⟩
  exact ⟨z, List.mem_flatten.mpr ⟨ys, hys, hz⟩, rfl⟩

/- The size of the list of a leaf. -/
def leafSize (m : Mem) (p : Nat) : Nat :=
  let size : Run Nat := do
    let x ← Mem.load m.tls p
    let list ← x.below.asList
    blSize m list
  size.toOption.getD 0

theorem leafSize_eq
    {m : Mem} {p l : Nat} {x : TlNode}
    {xs : List (Nat × Label)}
    (hGet : m.tls.get p = some x)
    (hBelow : x.below = .list l)
    (hLinked : Linked m l xs) :
    leafSize m p = xs.length := by
  unfold leafSize
  rw [Mem.load_of_get hGet, ok_bind, hBelow]
  dsimp only [Below.asList]
  rw [ok_bind, hLinked.blSize_eq]
  rfl

/- The number of leaves that the split of a list adds. -/
def extraLeaves (cfg : Config) (m : Mem) (p : Nat) : Nat :=
  numSublists cfg (leafSize m p) - 1

/-
  The height that a relabel finds for a leaf: its depth, and
  the levels that its new lists need.  A leaf that keeps its
  place does not count.
-/
def estimate (cfg : Config) (m : Mem) (p : Nat) : Nat :=
  let parts := numSublists cfg (leafSize m p)
  if 1 < parts then
    climb m.tls (m.tls.next + 1) (some p)
      (fastLog2Ceil cfg parts - 1)
  else 0

/- The logarithms of numbers of new lists are bounds. -/
def Config.LogsBound (cfg : Config) : Prop :=
  ∀ k ≤ numSublists cfg (2 ^ 64), k ≤ 2 ^ fastLog2Ceil cfg k

/- The tree is no deeper than the heap is large. -/
theorem Stored.depth_le
    {cfg : Config} {m : Mem} {om : Om} {t t' new : Shape}
    {yss : List (List (Nat × Label))} {p l d : Nat}
    (h : Stored cfg m om t yss)
    (hGraft : Grafts p l new t t' d) :
    d ≤ m.tls.next := by
  have := hGraft.le_depth
  have := t.depth_lt_length_addrs
  have := Heap.length_le_next h.nodup h.rep.exists_get
  omega

/- The way up from a leaf, also after changes elsewhere. -/
theorem Stored.climb_eq
    {cfg : Config} {m : Mem} {om : Om} {t t' new : Shape}
    {yss : List (List (Nat × Label))} {p l d k : Nat}
    {tls' : Heap TlNode}
    (h : Stored cfg m om t yss)
    (hGraft : Grafts p l new t t' d)
    (hSame : SameParents m.tls tls')
    (hNext : m.tls.next ≤ tls'.next) :
    climb tls' (tls'.next + 1) (some p) k = k + d + 1 := by
  have hDepth := h.depth_le hGraft
  obtain ⟨f, hf⟩ : ∃ f, tls'.next + 1 = f + d + 1 :=
    ⟨tls'.next - d, by omega⟩
  rw [hf, hGraft.climb_eq h.rep hSame, climb_none]

end OrderMaint

end PRacer
