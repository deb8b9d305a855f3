import PRacer.OrderMaint.Shape

/-
  Gathering the leaves of a subtree.

  The leaves below a node are put into an array from left to
  right, and the nodes between are taken apart.

  Main declarations:
    * `Filled`, `TakenApart`
    * `buildArrayOfLeaves_spec`
-/

namespace PRacer

open Foundations

namespace OrderMaint

------------------------------------------------------------
-- Arrays of Leaves
------------------------------------------------------------

/- The entries from an index on were filled in. -/
structure Filled
    (a b : LeafArray) (index : Nat) (ps : List Nat) :
    Prop where
  size : b.size = a.size
  cells : ∀ i p, ps[i]? = some p →
    b.cells (index + i) = some p
  before : ∀ i, i < index → b.cells i = a.cells i
  after : ∀ i, index + ps.length ≤ i → b.cells i = a.cells i

theorem Filled.refl (a : LeafArray) (index : Nat) :
    Filled a a index [] := by
  constructor <;> simp

/- Writing one entry. -/
theorem write_of_lt
    {a : LeafArray} {i : Nat} (p : Nat)
    (hLt : i < a.size) :
    ∃ b, a.write i p = Except.ok b ∧
      Filled a b i [p] := by
  refine ⟨_, if_pos hLt, rfl, ?_, ?_, ?_⟩
  · intro j q hq
    cases j with
    | zero =>
        simp only [List.getElem?_cons_zero,
          Option.some.injEq] at hq
        simp [hq]
    | succ j => simp at hq
  · intro j hj
    simp [Function.update_of_ne (Nat.ne_of_lt hj)]
  · intro j hi
    rw [List.length_singleton] at hi
    have hNe : j ≠ i := by omega
    simp [Function.update_of_ne hNe]

/- Filling in one part after the other. -/
theorem Filled.append
    {a b c : LeafArray} {index : Nat} {ps qs : List Nat}
    (hFirst : Filled a b index ps)
    (hSecond : Filled b c (index + ps.length) qs) :
    Filled a c index (ps ++ qs) := by
  constructor
  · rw [hSecond.size, hFirst.size]
  · intro i p hp
    by_cases hi : i < ps.length
    · rw [List.getElem?_append_left hi] at hp
      rw [hSecond.before _ (by omega)]
      exact hFirst.cells i p hp
    · rw [List.getElem?_append_right (by omega)] at hp
      have := hSecond.cells _ p hp
      rw [← this]
      congr 1
      omega
  · intro i hi
    rw [hSecond.before i (by omega), hFirst.before i hi]
  · intro i hi
    rw [List.length_append] at hi
    rw [hSecond.after i (by omega), hFirst.after i (by omega)]

/- A part of what was filled in. -/
theorem Filled.read
    {a b : LeafArray} {index : Nat} {ps : List Nat} {p i : Nat}
    (h : Filled a b index ps)
    (hp : ps[i]? = some p)
    (hLe : index + ps.length ≤ a.size) :
    b.read (index + i) = Except.ok p := by
  have hi : i < ps.length := by
    rw [List.getElem?_eq_some_iff] at hp
    exact hp.1
  unfold LeafArray.read
  rw [if_pos (by rw [h.size]; omega), h.cells i p hp]
  rfl

------------------------------------------------------------
-- Taking a Subtree Apart
------------------------------------------------------------

/- All nodes stay allocated and keep their lists. -/
def KeepsBelow (tls tls' : Heap TlNode) : Prop :=
  ∀ p x, tls.get p = some x →
    ∃ y, tls'.get p = some y ∧ y.below = x.below

theorem KeepsBelow.refl (tls : Heap TlNode) :
    KeepsBelow tls tls :=
  fun _ x hGet => ⟨x, hGet, rfl⟩

theorem KeepsBelow.trans
    {tls tls' tls'' : Heap TlNode}
    (h : KeepsBelow tls tls')
    (h' : KeepsBelow tls' tls'') :
    KeepsBelow tls tls'' := by
  intro p x hGet
  rcases h p x hGet with ⟨y, hy, hBelow⟩
  rcases h' p y hy with ⟨z, hz, hBelow'⟩
  exact ⟨z, hz, hBelow'.trans hBelow⟩

/- A change to other fields than `below`. -/
theorem keepsBelow_modify
    {tls : Heap TlNode} {q : Nat} {f : TlNode → TlNode}
    (hBelow : ∀ x, (f x).below = x.below) :
    KeepsBelow tls (tls.modify q f) := by
  intro p x hGet
  rw [Heap.get_modify]
  by_cases hpq : p = q
  · rw [if_pos hpq, hGet]
    exact ⟨f x, rfl, hBelow x⟩
  · rw [if_neg hpq]
    exact ⟨x, hGet, rfl⟩

/- The predecessor in a chain of leaves is unlinked. -/
private theorem unlinkPrev_spec
    {m : Mem} {tls : Heap TlNode} {prev : Option Nat}
    (hPrev : ∀ q, prev = some q → ∃ y, tls.get q = some y) :
    ∃ tls', unlinkPrev (m.withTls tls) prev =
        Except.ok (m.withTls tls') ∧
      tls'.next = tls.next ∧
      KeepsBelow tls tls' ∧
      ∀ p, prev ≠ some p → tls'.get p = tls.get p := by
  cases prev with
  | none =>
      exact ⟨tls, rfl, rfl, KeepsBelow.refl _,
        fun _ _ => rfl⟩
  | some q =>
      rcases hPrev q rfl with ⟨y, hGet⟩
      refine ⟨_, Mem.setTl_withTls _ hGet, rfl,
        keepsBelow_modify fun _ => rfl, ?_⟩
      intro p hp
      apply Heap.get_modify_of_ne
      rintro rfl
      exact hp rfl

/- The next leaf of a chain points back. -/
private theorem checkNext_of_chain
    {cfg : Config} {m : Mem} {tls : Heap TlNode} {p : Nat}
    {rest : List (Nat × Nat)}
    (hRest : SplitChain cfg tls (some p) rest) :
    checkNext (m.withTls tls) p
      (rest.head?.map Prod.fst) = Except.ok () := by
  cases rest with
  | nil => rfl
  | cons y rest =>
      rcases hRest with ⟨⟨x, hGet, -, -, -, hLeft, -⟩, -⟩
      dsimp only [List.head?_cons, Option.map_some, checkNext]
      rw [Mem.tls_withTls, Mem.load_of_get hGet, ok_bind,
        check_of hLeft]

/- The loop over the leaves that a leaf was split into. -/
theorem buildArrayOfSplitNodes_spec
    {cfg : Config} {m : Mem} {tls : Heap TlNode}
    {a : LeafArray} {f i : Nat} {prev : Option Nat}
    {parts : List (Nat × Nat)}
    (hChain : SplitChain cfg tls prev parts)
    (hNodup : (parts.map Prod.fst).Nodup)
    (hPrev : ∀ q, prev = some q →
      q ∉ parts.map Prod.fst ∧ ∃ y, tls.get q = some y)
    (hSize : i + parts.length ≤ a.size)
    (hFuel : parts.length ≤ f) :
    ∃ tls' b,
      buildArrayOfSplitNodes f (m.withTls tls) a
          (parts.head?.map Prod.fst) i =
        Except.ok (m.withTls tls', b, i + parts.length) ∧
      Filled a b i (parts.map Prod.fst) ∧
      tls'.next = tls.next ∧
      KeepsBelow tls tls' ∧
      ∀ p, p ∉ parts.map Prod.fst → prev ≠ some p →
        tls'.get p = tls.get p := by
  induction parts generalizing tls a f i prev with
  | nil =>
      refine ⟨tls, a, ?_, Filled.refl a i, rfl,
        KeepsBelow.refl _, fun _ _ _ => rfl⟩
      unfold buildArrayOfSplitNodes
      rfl
  | cons z rest ih =>
      rcases z with ⟨p, l⟩
      rcases hChain with
        ⟨⟨x, hGet, -, -, -, hLeft, hRight⟩, hRest⟩
      simp only [List.map_cons, List.nodup_cons,
        List.length_cons] at hNodup hSize hFuel
      cases f with
      | zero => omega
      | succ f =>
          rcases write_of_lt p (a := a) (i := i)
            (by omega) with ⟨a₁, hWrite, hFilled⟩
          rcases unlinkPrev_spec (m := m) (fun q hq =>
            (hPrev q hq).2) with
            ⟨tls₁, hUnlink, hNext, hBelow, hSame⟩
          have hpPrev : prev ≠ some p := by
            intro hEq
            apply (hPrev p hEq).1
            simp
          have hGet₁ : tls₁.get p = some x := by
            rw [hSame p hpPrev]
            exact hGet
          have hGet₂ := Heap.get_modify_self
            (fun x : TlNode => { x with left := none }) hGet₁
          have hGetRest : ∀ q ∈ rest.map Prod.fst,
              (tls₁.modify p fun x =>
                { x with left := none }).get q =
                  tls.get q := by
            intro q hq
            have hqp : q ≠ p := by
              rintro rfl
              exact hNodup.1 hq
            rw [Heap.get_modify_of_ne _ hqp]
            apply hSame
            intro hEq
            apply (hPrev q hEq).1
            exact List.mem_cons_of_mem _ hq
          have hPrev' : ∀ q, some p = some q →
              q ∉ rest.map Prod.fst ∧
                ∃ y, (tls₁.modify p fun x =>
                  { x with left := none }).get q = some y := by
            intro q hq
            cases hq
            exact ⟨hNodup.1, _, hGet₂⟩
          rcases ih (f := f) (i := i + 1) (a := a₁)
              (hRest.congr hGetRest) hNodup.2 hPrev'
              (by rw [hFilled.size]; omega) (by omega) with
            ⟨tls', b, hRun, hFilled', hNext', hBelow', hSame'⟩
          refine ⟨tls', b, ?_, hFilled.append hFilled',
            ?_, ?_, ?_⟩
          · unfold buildArrayOfSplitNodes
            dsimp only [List.head?_cons, Option.map_some]
            rw [hWrite, ok_bind, Mem.tls_withTls,
              Mem.load_of_get hGet, ok_bind, hRight,
              checkNext_of_chain hRest, ok_bind, hLeft,
              hUnlink, ok_bind, Mem.setTl_withTls _ hGet₁,
              ok_bind, Mem.tls_withTls,
              Mem.load_of_get hGet₂, ok_bind]
            dsimp only
            rw [hRight, hRun, List.length_cons]
            congr 3
            omega
          · rw [hNext']
            exact hNext
          · apply hBelow.trans
            apply KeepsBelow.trans _ hBelow'
            exact keepsBelow_modify fun _ => rfl
          · intro q hq hqPrev
            rw [List.map_cons, List.mem_cons, not_or] at hq
            have hpq : some p ≠ some q := by
              intro hEq
              exact hq.1 (Option.some.inj hEq).symm
            rw [hSame' q hq.2 hpq,
              Heap.get_modify_of_ne _ hq.1]
            exact hSame q hqPrev

/- A node that has no children is freed if it is marked. -/
private theorem freeMarked_spec
    {m : Mem} {tls : Heap TlNode} {n : Nat} {x : TlNode}
    (hGet : tls.get n = some x)
    (hLeft : x.left = none)
    (hRight : x.right = none) :
    ∃ tls', freeMarked (m.withTls tls) n =
        Except.ok (m.withTls tls') ∧
      tls'.next = tls.next ∧
      (∀ p, p ≠ n → tls'.get p = tls.get p) ∧
      (x.needsRebalance = false → tls' = tls) := by
  unfold freeMarked
  rw [Mem.tls_withTls, Mem.load_of_get hGet, ok_bind,
    check_of hLeft, ok_bind, check_of hRight, ok_bind]
  cases hMark : x.needsRebalance with
  | false => exact ⟨tls, rfl, rfl, fun _ _ => rfl, fun _ => rfl⟩
  | true =>
      refine ⟨tls.free n, ?_, rfl, ?_, ?_⟩
      · rw [if_pos rfl]
        unfold tlNodeFree
        rw [Mem.tls_withTls, Mem.load_of_get hGet, ok_bind]
        rfl
      · intro p hp
        rw [Heap.get_free, if_neg hp]
      · intro hFalse
        cases hFalse

/- What `buildArrayOfLeaves` leaves behind. -/
structure TakenApart
    (tls tls' : Heap TlNode) (t : Shape) (mark : Bool) :
    Prop where
  next : tls'.next = tls.next
  frame : ∀ p, p ∉ t.addrs → tls'.get p = tls.get p
  leaves : ∀ x ∈ t.leaves, ∃ y, tls'.get x.1 = some y ∧
    y.below = .list x.2
  root : mark = false → ∃ y, tls.get t.ptr = some y ∧
    tls'.get t.ptr = some
      { y with left := none, right := none }

/- The leaves that a heavy leaf was split into. -/
private theorem buildArrayOfLeaves_heavy
    {cfg : Config} {m : Mem} {tls : Heap TlNode}
    {a : LeafArray} {f i : Nat} {parent : Option Nat}
    {lo level p : Nat} {mark : Bool}
    {parts : List (Nat × Nat)}
    (hRep : Rep cfg tls parent lo level mark (.heavy p parts))
    (hNodup : (Shape.heavy p parts).addrs.Nodup)
    (hSize : i + parts.length ≤ a.size) :
    ∃ tls' b,
      buildArrayOfLeaves cfg (f + 1) (m.withTls tls) a
          (some p) i (i + parts.length) =
        Except.ok (m.withTls tls', b) ∧
      Filled a b i (parts.map Prod.fst) ∧
      TakenApart tls tls' (.heavy p parts) mark := by
  rcases hRep with ⟨hTwo, ⟨first, hFirst, hGet⟩, hChain⟩
  rw [Shape.addrs, List.nodup_cons] at hNodup
  have hFuel : parts.length ≤ tls.next := by
    have := Heap.length_le_next hNodup.2 (h := tls) (by
      intro q hq
      rw [List.mem_map] at hq
      rcases hq with ⟨x, hx, rfl⟩
      rcases hChain.get x hx with ⟨y, hy, -⟩
      exact ⟨y, hy⟩)
    rw [List.length_map] at this
    exact this
  have hNoPrev : ∀ q, (none : Option Nat) = some q →
      q ∉ parts.map Prod.fst ∧ ∃ y, tls.get q = some y := by
    intro q hq
    cases hq
  rcases buildArrayOfSplitNodes_spec (m := m) hChain hNodup.2
    hNoPrev hSize hFuel with
    ⟨tls₁, b, hRun, hFilled, hNext, hBelow, hSame⟩
  have hGet₁ := (hSame p hNodup.1 (by simp)).trans hGet
  rcases freeMarked_spec (m := m) hGet₁ rfl rfl with
    ⟨tls₂, hFree, hNext₂, hSame₂, hKeep₂⟩
  refine ⟨tls₂, b, ?_, hFilled, ?_⟩
  · unfold buildArrayOfLeaves
    have hLeaf : isLeaf cfg
        { label := BitVec.ofNat 64 lo
          level := cfg.maxLevel
          numLeaves := parts.length
          parent := parent
          left := none
          right := none
          below := .splitNodes first
          needsRebalance := mark } = true := by
      simp [isLeaf]
    rw [Mem.tls_withTls, Mem.load_of_get hGet, ok_bind,
      if_pos hLeaf]
    unfold buildArrayOfLeaf
    dsimp only
    rw [if_neg (by omega)]
    dsimp only [Below.asSplitNodes]
    rw [ok_bind, ← hFirst, Mem.tls_withTls, hRun, ok_bind]
    dsimp only
    rw [check_of rfl, ok_bind]
    simp only [pure, Except.pure, ok_bind, hFree]
  · constructor
    · rw [hNext₂, hNext]
    · intro q hq
      rw [Shape.addrs, List.mem_cons, not_or] at hq
      rw [hSame₂ q hq.1, hSame q hq.2 (by simp)]
    · intro x hx
      have hNe : x.1 ≠ p := by
        rintro rfl
        exact hNodup.1 (List.mem_map_of_mem hx)
      rcases hChain.get x hx with ⟨y, hy, hyBelow⟩
      rcases hBelow x.1 y hy with ⟨z, hz, hzBelow⟩
      rw [hSame₂ x.1 hNe]
      exact ⟨z, hz, hzBelow.trans hyBelow⟩
    · intro hMark
      rw [hKeep₂ hMark]
      exact ⟨_, hGet, hGet₁⟩

/- A single leaf. -/
private theorem buildArrayOfLeaves_leaf
    {cfg : Config} {m : Mem} {tls : Heap TlNode}
    {a : LeafArray} {f i : Nat} {parent : Option Nat}
    {lo level p l : Nat}
    (hRep : Rep cfg tls parent lo level false (.leaf p l))
    (hSize : i + 1 ≤ a.size) :
    ∃ tls' b,
      buildArrayOfLeaves cfg (f + 1) (m.withTls tls) a
          (some p) i (i + 1) =
        Except.ok (m.withTls tls', b) ∧
      Filled a b i [p] ∧
      TakenApart tls tls' (.leaf p l) false := by
  unfold Rep at hRep
  rcases write_of_lt p (a := a) (i := i) (by omega) with
    ⟨b, hWrite, hFilled⟩
  rcases freeMarked_spec (m := m) hRep rfl rfl with
    ⟨tls', hFree, hNext, hSame, hKeep⟩
  have hEq := hKeep rfl
  subst hEq
  refine ⟨_, b, ?_, hFilled, rfl, fun _ _ => rfl, ?_, ?_⟩
  · unfold buildArrayOfLeaves
    rw [Mem.tls_withTls, Mem.load_of_get hRep, ok_bind,
      if_pos (by simp [isLeaf])]
    unfold buildArrayOfLeaf
    dsimp only
    rw [if_pos rfl, hWrite, ok_bind, check_of rfl, ok_bind]
    simp only [pure, Except.pure, ok_bind, hFree]
  · intro x hx
    rw [Shape.leaves, List.mem_singleton] at hx
    subst hx
    exact ⟨_, hRep, rfl⟩
  · intro _
    exact ⟨_, hRep, hRep⟩

/-
  The leaves below a node are put into the array in their
  order, and stay allocated with their lists.
-/
theorem buildArrayOfLeaves_spec
    {cfg : Config} {m : Mem} {tls : Heap TlNode}
    {a : LeafArray} {f i : Nat} {parent : Option Nat}
    {lo level : Nat} {mark : Bool} {t : Shape}
    (hRep : Rep cfg tls parent lo level mark t)
    (hNodup : t.addrs.Nodup)
    (hMark : t.marked = false → mark = false)
    (hSize : i + t.count ≤ a.size)
    (hFuel : t.depth < f) :
    ∃ tls' b,
      buildArrayOfLeaves cfg f (m.withTls tls) a
          (some t.ptr) i (i + t.count) =
        Except.ok (m.withTls tls', b) ∧
      Filled a b i (t.leaves.map Prod.fst) ∧
      TakenApart tls tls' t mark := by
  induction t generalizing tls a f i parent lo level mark with
  | leaf p l =>
      cases f with
      | zero => omega
      | succ f =>
          have hFalse := hMark rfl
          subst hFalse
          exact buildArrayOfLeaves_leaf hRep hSize
  | heavy p parts =>
      cases f with
      | zero => omega
      | succ f => exact buildArrayOfLeaves_heavy hRep hNodup hSize
  | node p left right ihLeft ihRight =>
      cases f with
      | zero => omega
      | succ f =>
          rcases hRep with
            ⟨hLevel, ⟨below, hGet⟩, hLeft, hRight⟩
          simp only [Shape.addrs, List.nodup_cons,
            List.mem_append, not_or, List.nodup_append'] at hNodup
          rcases hNodup with
            ⟨⟨hpLeft, hpRight⟩, hNodupL, hNodupR, hDisj⟩
          rw [Shape.count_node] at hSize
          simp only [Shape.depth] at hFuel
          rcases ihLeft (f := f) (i := i) (a := a) hLeft
            hNodupL (by simp) (by omega) (by omega) with
            ⟨tls₁, b₁, hRun₁, hFilled₁, hApart₁⟩
          have hRight₁ := hRight.congr fun q hq =>
            hApart₁.frame q fun hqL => hDisj hqL hq
          have hLen : (left.leaves.map Prod.fst).length =
              left.count := by
            simp [Shape.count]
          rcases ihRight (f := f) (i := i + left.count)
            (a := b₁) hRight₁ hNodupR (by simp)
            (by rw [hFilled₁.size]; omega) (by omega) with
            ⟨tls₂, b₂, hRun₂, hFilled₂, hApart₂⟩
          have hGet₂ := (hApart₂.frame p hpRight).trans
            ((hApart₁.frame p hpLeft).trans hGet)
          have hGet₃ := Heap.get_modify_self
            (fun x : TlNode =>
              { x with left := none, right := none }) hGet₂
          rcases freeMarked_spec (m := m) hGet₃ rfl rfl with
            ⟨tls₄, hFree, hNext₄, hSame₄, hKeep₄⟩
          rcases hLeft.get_ptr with ⟨xl, hGetL, -, hCountL, -⟩
          have hOther : ∀ q, q ≠ p →
              tls₄.get q = tls₂.get q := by
            intro q hq
            rw [hSame₄ q hq, Heap.get_modify_of_ne _ hq]
          refine ⟨tls₄, b₂, ?_, ?_, ?_, ?_, ?_, ?_⟩
          · unfold buildArrayOfLeaves
            dsimp only [Shape.ptr]
            rw [Mem.tls_withTls, Mem.load_of_get hGet,
              ok_bind, if_neg (by simp [isLeaf]; omega)]
            dsimp only
            rw [deref_some, ok_bind, Mem.load_of_get hGetL,
              ok_bind, hCountL, hRun₁, ok_bind]
            dsimp only
            rw [Shape.count_node, ← Nat.add_assoc, hRun₂,
              ok_bind]
            dsimp only
            rw [Mem.setTl_withTls _ hGet₂, ok_bind, hFree,
              ok_bind]
            rfl
          · rw [Shape.leaves, List.map_append]
            apply hFilled₁.append
            rw [hLen]
            exact hFilled₂
          · rw [hNext₄, Heap.next_modify, hApart₂.next,
              hApart₁.next]
          · intro q hq
            simp only [Shape.addrs, List.mem_cons,
              List.mem_append, not_or] at hq
            rw [hOther q hq.1, hApart₂.frame q hq.2.2,
              hApart₁.frame q hq.2.1]
          · intro x hx
            rw [Shape.leaves, List.mem_append] at hx
            rcases hx with hx | hx
            · have hxL := left.leaves_subset_addrs x hx
              have hNe : x.1 ≠ p := by
                rintro rfl
                exact hpLeft hxL
              rw [hOther x.1 hNe,
                hApart₂.frame x.1 fun hxR => hDisj hxL hxR]
              exact hApart₁.leaves x hx
            · have hNe : x.1 ≠ p := by
                rintro rfl
                exact hpRight
                  (right.leaves_subset_addrs x hx)
              rw [hOther x.1 hNe]
              exact hApart₂.leaves x hx
          · intro hFalse
            subst hFalse
            refine ⟨_, hGet, ?_⟩
            rw [hKeep₄ rfl]
            exact hGet₃

end OrderMaint

end PRacer
