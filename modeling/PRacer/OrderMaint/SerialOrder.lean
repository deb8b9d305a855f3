import PRacer.OrderMaint.SplitLoop

/-
  The order in which the parallel loop of a relabel could
  have run serially.

  An iteration that has begun owes what it does to the nodes
  above its leaf.  Once that is done, the memory is what the
  serial loop leaves.

  Main declarations:
    * `Ancestors`, `Owes`
    * `LoopState.Serial`, `serial_of_reachable`
    * `serial_of_complete`, `attempts_run`
-/

namespace PRacer

open Foundations

namespace OrderMaint

------------------------------------------------------------
-- The Way to the Root
------------------------------------------------------------

/- The nodes from a node to the root. -/
inductive Ancestors (tls : Heap TlNode) :
    Option Nat → List Nat → Prop
| root : Ancestors tls none []
| up {q : Nat} {x : TlNode} {qs : List Nat} :
    tls.get q = some x → Ancestors tls x.parent qs →
      Ancestors tls (some q) (q :: qs)

namespace Ancestors

variable {tls tls' : Heap TlNode} {c : Option Nat}
variable {qs qs' : List Nat}

theorem of_same
    (h : Ancestors tls c qs)
    (hSame : SameParents tls tls') :
    Ancestors tls' c qs := by
  induction h with
  | root => exact Ancestors.root
  | up hGet _ ih =>
      rcases hSame _ _ hGet with ⟨y, hGet', hParent⟩
      apply Ancestors.up hGet'
      rw [hParent]
      exact ih

theorem lt_next
    (h : Ancestors tls c qs) :
    ∀ q ∈ qs, q < tls.next := by
  induction h with
  | root =>
      intro q hq
      cases hq
  | up hGet _ ih =>
      rw [List.forall_mem_cons]
      exact ⟨Heap.lt_next hGet, ih⟩

theorem unique
    (h : Ancestors tls c qs)
    (h' : Ancestors tls c qs') :
    qs = qs' := by
  induction h generalizing qs' with
  | root =>
      cases h'
      rfl
  | up hGet _ ih =>
      cases h' with
      | up hGet' hRest =>
          cases hGet.symm.trans hGet'
          rw [ih hRest]

/- Above each node on the way, the way is shorter. -/
theorem suffix
    (h : Ancestors tls c qs) :
    ∀ q ∈ qs, ∃ rs, Ancestors tls (some q) (q :: rs) ∧
      rs.length < qs.length := by
  induction h with
  | root =>
      intro q hq
      cases hq
  | @up q x qs hGet hRest ih =>
      rw [List.forall_mem_cons]
      refine ⟨⟨qs, hRest.up hGet, ?_⟩, ?_⟩
      · rw [List.length_cons]
        omega
      · intro r hr
        rcases ih r hr with ⟨rs, hAbove, hLt⟩
        refine ⟨rs, hAbove, ?_⟩
        rw [List.length_cons]
        omega

/- No node is met twice. -/
theorem nodup
    (h : Ancestors tls c qs) :
    qs.Nodup := by
  induction h with
  | root => exact List.nodup_nil
  | @up q x qs hGet hRest ih =>
      rw [List.nodup_cons]
      refine ⟨?_, ih⟩
      intro hMem
      rcases hRest.suffix q hMem with ⟨rs, hAbove, hLt⟩
      have hSame := (hRest.up hGet).unique hAbove
      cases hSame
      exact Nat.lt_irrefl _ hLt

theorem length_le
    (h : Ancestors tls c qs) :
    qs.length ≤ tls.next := by
  apply Heap.length_le_next h.nodup
  intro q hq
  rcases h.suffix q hq with ⟨rs, hAbove, -⟩
  cases hAbove with
  | up hGet _ => exact ⟨_, hGet⟩

/- The way up counts and marks these nodes. -/
theorem updateSizes_eq
    {m : Mem} {extra f h : Nat}
    (hUp : Ancestors tls c qs)
    (hSame : SameParents tls m.tls)
    (hFuel : qs.length ≤ f) :
    updateSizes extra f m c h =
      Except.ok (settle m (qs.map fun q => (q, extra)),
        h + qs.length) := by
  induction hUp generalizing m f h with
  | root => exact updateSizes_none _ _ _ _
  | @up q x qs hGet _ ih =>
      rw [List.length_cons] at hFuel ⊢
      cases f with
      | zero => omega
      | succ f =>
          rcases hSame q x hGet with ⟨y, hGet', hParent⟩
          unfold updateSizes
          rw [Mem.load_of_get hGet', ok_bind,
            Mem.setTl_of_get _ hGet', ok_bind, hParent,
            ih _ (by omega)]
          · rw [List.map_cons, Nat.add_assoc,
              Nat.add_comm 1]
            rfl
          · apply hSame.trans
            apply SameParents.modify
            intro z
            rfl

end Ancestors

/- The leaves that were not split are among the addresses. -/
theorem Shape.plain_subset_addrs (t : Shape) :
    ∀ x ∈ t.plain, x.1 ∈ t.addrs := by
  induction t with
  | leaf p l =>
      intro x hx
      rw [Shape.plain, List.mem_singleton] at hx
      rw [hx, Shape.addrs, List.mem_singleton]
  | heavy p parts =>
      intro x hx
      cases hx
  | node p left right ihLeft ihRight =>
      intro x hx
      rw [Shape.plain, List.mem_append] at hx
      rw [Shape.addrs, List.mem_cons, List.mem_append]
      rcases hx with hx | hx
      · exact Or.inr (Or.inl (ihLeft x hx))
      · exact Or.inr (Or.inr (ihRight x hx))

/- On the way up from a leaf there are no other leaves. -/
theorem Grafts.ancestors
    {cfg : Config} {tls : Heap TlNode}
    {parent : Option Nat} {p l d lo level : Nat}
    {new t t' : Shape} {qs : List Nat}
    (hGraft : Grafts p l new t t' d)
    (hRep : Rep cfg tls parent lo level t.marked t)
    (hNodup : t.addrs.Nodup)
    (hUp : Ancestors tls parent qs) :
    ∃ ps, Ancestors tls (some p) (ps ++ qs) ∧
      ∀ q ∈ ps, q ∈ t.addrs ∧
        (q = p ∨ ∀ x ∈ t.plain, x.1 ≠ q) := by
  induction hGraft generalizing parent lo level qs with
  | leaf =>
      refine ⟨[p], hUp.up hRep, ?_⟩
      intro q hq
      rw [List.mem_singleton] at hq
      rw [Shape.addrs, List.mem_singleton]
      exact ⟨hq, Or.inl hq⟩
  | @left r d a a' b _ ih =>
      rcases hRep with ⟨-, ⟨below, hGet⟩, hRepL, -⟩
      rw [Shape.addrs, List.nodup_cons, List.mem_append,
        not_or, List.nodup_append'] at hNodup
      rcases hNodup with
        ⟨⟨hrL, hrR⟩, hNodupL, hNodupR, hDisj⟩
      have hUp' : Ancestors tls (some r) (r :: qs) :=
        Ancestors.up hGet hUp
      rcases ih hRepL hNodupL hUp' with ⟨ps, hWay, hApart⟩
      refine ⟨ps ++ [r], ?_, ?_⟩
      · rw [List.append_assoc]
        exact hWay
      intro q hq
      rw [List.mem_append, List.mem_singleton] at hq
      rcases hq with hq | rfl
      · rcases hApart q hq with ⟨hMem, hOr⟩
        refine ⟨by simp [Shape.addrs, hMem], ?_⟩
        apply hOr.imp id
        intro hNe x hx
        rw [Shape.plain, List.mem_append] at hx
        rcases hx with hx | hx
        · exact hNe x hx
        · rintro rfl
          exact hDisj hMem (b.plain_subset_addrs x hx)
      · refine ⟨by simp [Shape.addrs], Or.inr ?_⟩
        intro x hx hEq
        rw [Shape.plain, List.mem_append] at hx
        rw [← hEq] at hrL hrR
        rcases hx with hx | hx
        · exact hrL (a.plain_subset_addrs x hx)
        · exact hrR (b.plain_subset_addrs x hx)
  | @right r d a b b' _ ih =>
      rcases hRep with ⟨-, ⟨below, hGet⟩, -, hRepR⟩
      rw [Shape.addrs, List.nodup_cons, List.mem_append,
        not_or, List.nodup_append'] at hNodup
      rcases hNodup with
        ⟨⟨hrL, hrR⟩, hNodupL, hNodupR, hDisj⟩
      have hUp' : Ancestors tls (some r) (r :: qs) :=
        Ancestors.up hGet hUp
      rcases ih hRepR hNodupR hUp' with ⟨ps, hWay, hApart⟩
      refine ⟨ps ++ [r], ?_, ?_⟩
      · rw [List.append_assoc]
        exact hWay
      intro q hq
      rw [List.mem_append, List.mem_singleton] at hq
      rcases hq with hq | rfl
      · rcases hApart q hq with ⟨hMem, hOr⟩
        refine ⟨by simp [Shape.addrs, hMem], ?_⟩
        apply hOr.imp id
        intro hNe x hx
        rw [Shape.plain, List.mem_append] at hx
        rcases hx with hx | hx
        · rintro rfl
          exact hDisj (a.plain_subset_addrs x hx) hMem
        · exact hNe x hx
      · refine ⟨by simp [Shape.addrs], Or.inr ?_⟩
        intro x hx hEq
        rw [Shape.plain, List.mem_append] at hx
        rw [← hEq] at hrL hrR
        rcases hx with hx | hx
        · exact hrL (a.plain_subset_addrs x hx)
        · exact hrR (b.plain_subset_addrs x hx)

/- What an iteration does before the way up. -/
theorem startSplit_spec
    {cfg : Config} {m m₁ : Mem} {om : Om} {p l : Nat}
    {t : Shape} {yss : List (List (Nat × Label))} {b : Body}
    (hCfg : cfg.WellFormed)
    (hStored : Stored cfg m om t yss)
    (hPlain : (p, l) ∈ t.plain)
    (hRun : startSplit cfg m om p = Except.ok (m₁, b)) :
    SameParents m.tls m₁.tls ∧
      (b = .done ∨ ∃ extra h, b = .climb (some p) extra h) := by
  rcases Grafts.exists_of_plain hPlain with
    ⟨ls, rs, d, hOld, hAll⟩
  rcases hAll (.leaf p l) with ⟨t₀, hGraft, -⟩
  rcases hGraft.get_leaf hStored.rep with
    ⟨a, hGet, -, -, -, hBelow, hMark, -⟩
  have hLists := hStored.lists
  rw [hOld] at hLists
  rcases forall₂_middle hLists with
    ⟨us, xs, vs, -, -, hOf, -⟩
  rcases hOf.above with ⟨r, hList, hAbove⟩
  unfold startSplit at hRun
  rw [Mem.load_of_get hGet, ok_bind] at hRun
  rcases bind_eq_ok hRun with ⟨u₁, -, hRun⟩
  rcases bind_eq_ok hRun with ⟨u₂, -, hRun⟩
  rcases bind_eq_ok hRun with ⟨u₃, -, hRun⟩
  rw [hBelow] at hRun
  dsimp only [Below.asList] at hRun
  rw [ok_bind] at hRun
  rcases bind_eq_ok hRun with ⟨⟨m₀, k₀⟩, hSplitRun, -⟩
  have hNonempty := nonempty_of_split hOf.linked hSplitRun
  rcases split_spec hCfg hOf.linked hNonempty hList hAbove
    hGet hBelow with ⟨m₂, parts, chunks, hRun₂, hSplit⟩
  have hParents := hSplit.sameParents hGet
  dsimp only at hRun₂
  rw [hRun₂, ok_bind] at hRun
  dsimp only at hRun
  by_cases hTwo : 1 < parts.length
  · rw [if_pos hTwo] at hRun
    rcases hSplit.opened with ⟨first, -, hOpened⟩
    rw [Mem.setTl_of_get _ hOpened, ok_bind] at hRun
    cases hRun
    refine ⟨?_, Or.inr ⟨_, _, rfl⟩⟩
    apply hParents.trans
    apply SameParents.modify
    intro x
    rfl
  · rw [if_neg hTwo] at hRun
    rcases hSplit.opened with ⟨first, hFirst, -⟩
    have hLength := hSplit.lists.length_eq
    cases parts with
    | nil => cases hFirst
    | cons part parts =>
        rw [List.length_cons] at hTwo
        obtain rfl : parts = [] :=
          List.length_eq_zero_iff.mp (by omega)
        rw [List.length_singleton] at hLength
        rcases List.length_eq_one_iff.mp hLength.symm with
          ⟨ps, rfl⟩
        rcases part with ⟨n, k⟩
        rcases hSplit.relist (o := Body.done) hGet hMark
          with ⟨m', hRelist, hRelisted⟩
        cases hRelist.symm.trans hRun
        refine ⟨?_, Or.inl rfl⟩
        have hFresh := (hSplit.fresh (n, k) (by simp)).1
        intro q x hGetQ
        have hqLt := Heap.lt_next hGetQ
        by_cases hqp : q = p
        · rw [hqp] at hGetQ ⊢
          cases hGet.symm.trans hGetQ
          exact ⟨_, hRelisted.leaf, rfl⟩
        · rw [hRelisted.otherTls q hqp (by omega),
            hSplit.otherTls q hqLt hqp]
          exact ⟨x, hGetQ, rfl⟩

------------------------------------------------------------
-- The Serial Order
------------------------------------------------------------

/- A leaf that keeps its place. -/
theorem splitHeavy_of_done
    {cfg : Config} {m m₁ : Mem} {om : Om} {p : Nat}
    (hRun : startSplit cfg m om p =
      Except.ok (m₁, .done)) :
    splitHeavy cfg m om p = Except.ok (m₁, om) := by
  rw [splitHeavy_eq, hRun]
  rfl

/- A leaf above which nodes are counted up. -/
theorem splitHeavy_of_climb
    {cfg : Config} {m m₁ : Mem} {om : Om} {p extra k : Nat}
    {c : Option Nat} {qs : List Nat}
    (hRun : startSplit cfg m om p =
      Except.ok (m₁, .climb c extra k))
    (hUp : Ancestors m₁.tls c qs) :
    splitHeavy cfg m om p =
      Except.ok (settle m₁ (qs.map fun q => (q, extra)),
        { om with height := max om.height (k + qs.length) }) := by
  have hLength := hUp.length_le
  rw [splitHeavy_eq, hRun, ok_bind]
  dsimp only
  rw [hUp.updateSizes_eq (SameParents.refl _) (by omega)]
  rfl

/- The last leaf of a serial loop. -/
theorem splitAllHeavy_concat
    {cfg : Config} {m m₁ m₂ : Mem} {om om₁ om₂ : Om}
    {order : List Nat} {p : Nat}
    (hRun : splitAllHeavy cfg m om order =
      Except.ok (m₁, om₁))
    (hLast : splitHeavy cfg m₁ om₁ p = Except.ok (m₂, om₂)) :
    splitAllHeavy cfg m om (order ++ [p]) =
      Except.ok (m₂, om₂) := by
  induction order generalizing m om with
  | nil =>
      cases hRun
      rw [List.nil_append, splitAllHeavy, hLast, ok_bind]
      rfl
  | cons q order ih =>
      unfold splitAllHeavy at hRun
      rcases bind_eq_ok hRun with ⟨⟨m₀, om₀⟩, hFirst, hRun⟩
      rw [List.cons_append, splitAllHeavy, hFirst, ok_bind]
      exact ih hRun

/-
  What an iteration that has begun still does: the nodes it
  counts up, and the height that it found.
-/
inductive Owes (tls : Heap TlNode) :
    Body → List (Nat × Nat) × Nat → Prop
| start (p : Nat) : Owes tls (.start p) ([], 0)
| climb {c : Option Nat} {extra h : Nat} {qs : List Nat} :
    Ancestors tls c qs →
      Owes tls (.climb c extra h)
        (qs.map fun q => (q, extra), h + qs.length)
| mark {q extra h : Nat} {x : TlNode} {qs : List Nat} :
    tls.get q = some x → Ancestors tls x.parent qs →
      Owes tls (.mark q extra h)
        ((q, 0) :: qs.map fun q => (q, extra),
          h + 1 + qs.length)
| raise (r : Raise) : Owes tls (.raise r) ([], r.target)
| done : Owes tls .done ([], 0)

theorem Owes.of_same
    {tls tls' : Heap TlNode} {b : Body}
    {o : List (Nat × Nat) × Nat}
    (h : Owes tls b o)
    (hSame : SameParents tls tls') :
    Owes tls' b o := by
  cases h with
  | start p => exact Owes.start p
  | climb hUp => exact Owes.climb (hUp.of_same hSame)
  | mark hGet hUp =>
      rcases hSame _ _ hGet with ⟨y, hGet', hParent⟩
      apply Owes.mark hGet'
      rw [hParent]
      exact hUp.of_same hSame
  | raise r => exact Owes.raise r
  | done => exact Owes.done

theorem Owes.lt_next
    {tls : Heap TlNode} {b : Body}
    {o : List (Nat × Nat) × Nat}
    (h : Owes tls b o) :
    ∀ q ∈ o.1, q.1 < tls.next := by
  cases h with
  | start p =>
      intro q hq
      cases hq
  | climb hUp =>
      intro q hq
      rw [List.mem_map] at hq
      rcases hq with ⟨r, hr, rfl⟩
      exact hUp.lt_next r hr
  | mark hGet hUp =>
      rw [List.forall_mem_cons]
      refine ⟨Heap.lt_next hGet, ?_⟩
      intro q hq
      rw [List.mem_map] at hq
      rcases hq with ⟨r, hr, rfl⟩
      exact hUp.lt_next r hr
  | raise r =>
      intro q hq
      cases hq
  | done =>
      intro q hq
      cases hq

theorem owes_lt_next
    {tls : Heap TlNode} {bodies : List Body}
    {os : List (List (Nat × Nat) × Nat)}
    (h : List.Forall₂ (Owes tls) bodies os) :
    ∀ q ∈ os.flatMap Prod.fst, q.1 < tls.next := by
  induction h with
  | nil =>
      intro q hq
      cases hq
  | cons hHead _ ih =>
      intro q hq
      rw [List.flatMap_cons, List.mem_append] at hq
      rcases hq with hq | hq
      · exact hHead.lt_next q hq
      · exact ih q hq

/- The leaf of an iteration that has not begun. -/
def Body.waits : Body → Option Nat
| .start p => some p
| _ => none

/- The leaves whose iterations have not begun. -/
def waiting (bodies : List Body) : List Nat :=
  bodies.filterMap Body.waits

/-
  Once the iterations that have begun are over, the memory is
  what the serial loop makes of their leaves in that order.
-/
structure LoopState.Serial
    (cfg : Config) (m : Mem) (om : Om) (heavy : List Nat)
    (s : LoopState) (order : List Nat)
    (os : List (List (Nat × Nat) × Nat)) : Prop where
  owes : List.Forall₂ (Owes s.mem.tls) s.bodies os
  serial : splitAllHeavy cfg m om order =
    Except.ok (settle s.mem (os.flatMap Prod.fst),
      { s.om with
        height := (os.map Prod.snd).foldl max s.om.height })
  perm : (order ++ waiting s.bodies).Perm heavy
  apart : ∀ o ∈ os.flatMap Prod.fst, o.1 ∉ waiting s.bodies
  seen : ∀ r, Body.raise r ∈ s.bodies → r.old ≤ s.om.height

/- One element of a list. -/
theorem exists_middle
    {α : Type} {l : List α} {i : Nat} {a : α}
    (h : l[i]? = some a) :
    ∃ as bs, l = as ++ a :: bs ∧
      ∀ b, l.set i b = as ++ b :: bs := by
  induction l generalizing i with
  | nil => cases h
  | cons x l ih =>
      cases i with
      | zero =>
          cases h
          exact ⟨[], l, rfl, fun _ => rfl⟩
      | succ i =>
          rcases ih h with ⟨as, bs, rfl, hSet⟩
          refine ⟨x :: as, bs, rfl, ?_⟩
          intro b
          rw [List.set_cons_succ, hSet, List.cons_append]

/- The largest number can be found in another order. -/
theorem foldl_max_max
    (ns : List Nat) (h i : Nat) :
    ns.foldl max (max h i) = max (ns.foldl max h) i := by
  induction ns generalizing h with
  | nil => rfl
  | cons n ns ih =>
      rw [List.foldl_cons, List.foldl_cons, max_right_comm, ih]

theorem foldl_max_middle
    (us vs : List Nat) (h i : Nat) :
    (us ++ i :: vs).foldl max h =
      (us ++ vs).foldl max (max h i) := by
  rw [List.foldl_append, List.foldl_cons, ← foldl_max_max,
    List.foldl_append]

namespace LoopState.Serial

variable {cfg : Config} {m : Mem} {om : Om}
variable {heavy order : List Nat} {s s' : LoopState}
variable {us vs : List (List (Nat × Nat) × Nat)}
variable {o o' : List (Nat × Nat) × Nat}
variable {as bs : List Body} {b b' : Body}

/- A step of an iteration that had begun. -/
theorem advance
    (h : s.Serial cfg m om heavy order (us ++ o :: vs))
    (hBodies : s.bodies = as ++ b :: bs)
    (hBodies' : s'.bodies = as ++ b' :: bs)
    (hLeft : List.Forall₂ (Owes s.mem.tls) as us)
    (hRight : List.Forall₂ (Owes s.mem.tls) bs vs)
    (hParents : SameParents s.mem.tls s'.mem.tls)
    (hOwes : Owes s'.mem.tls b' o')
    (hMem : settle s'.mem (us.flatMap Prod.fst ++
        (o'.1 ++ vs.flatMap Prod.fst)) =
      settle s.mem (us.flatMap Prod.fst ++
        (o.1 ++ vs.flatMap Prod.fst)))
    (hOm : ∀ k, { s'.om with height := k } =
      { s.om with height := k })
    (hLe : s.om.height ≤ s'.om.height)
    (hMax : max s'.om.height o'.2 = max s.om.height o.2)
    (hSeen : ∀ r, b' = .raise r → r.old ≤ s'.om.height)
    (hWaits : b.waits = none)
    (hWaits' : b'.waits = none)
    (hSub : ∀ q ∈ o'.1, ∃ r ∈ o.1, r.1 = q.1) :
    s'.Serial cfg m om heavy order (us ++ o' :: vs) := by
  have hSame : waiting s'.bodies = waiting s.bodies := by
    unfold waiting
    rw [hBodies, hBodies', List.filterMap_append,
      List.filterMap_append, List.filterMap_cons_none hWaits,
      List.filterMap_cons_none hWaits']
  have hOf : ∀ c q, Owes s.mem.tls c q →
      Owes s'.mem.tls c q :=
    fun c q hOwes => hOwes.of_same hParents
  constructor
  · rw [hBodies']
    apply List.rel_append (hLeft.imp hOf)
    exact List.Forall₂.cons hOwes (hRight.imp hOf)
  · rw [h.serial, List.flatMap_append, List.flatMap_append,
      List.flatMap_cons, List.flatMap_cons, hMem,
      List.map_append, List.map_append, List.map_cons,
      List.map_cons, foldl_max_middle, foldl_max_middle, hMax,
      hOm]
  · rw [hSame]
    exact h.perm
  · rw [hSame]
    have hApart := h.apart
    simp only [List.flatMap_append, List.flatMap_cons,
      List.mem_append] at hApart ⊢
    rintro q (hq | hq | hq)
    · exact hApart q (Or.inl hq)
    · rcases hSub q hq with ⟨r, hr, hEq⟩
      rw [← hEq]
      exact hApart r (Or.inr (Or.inl hr))
    · exact hApart q (Or.inr (Or.inr hq))
  · intro r hr
    have hSeenAll := h.seen
    rw [hBodies] at hSeenAll
    rw [hBodies', List.mem_append, List.mem_cons] at hr
    rcases hr with hr | hr | hr
    · have := hSeenAll r (by simp [hr])
      omega
    · exact hSeen r hr.symm
    · have := hSeenAll r (by simp [hr])
      omega

/- A step that changes nothing but where an iteration is. -/
theorem advance_same
    (h : s.Serial cfg m om heavy order (us ++ o :: vs))
    (hBodies : s.bodies = as ++ b :: bs)
    (hBodies' : s'.bodies = as ++ b' :: bs)
    (hLeft : List.Forall₂ (Owes s.mem.tls) as us)
    (hRight : List.Forall₂ (Owes s.mem.tls) bs vs)
    (hMem : s'.mem = s.mem)
    (hOm : s'.om = s.om)
    (hOwes : Owes s.mem.tls b' o')
    (hFst : o'.1 = o.1)
    (hMax : max s.om.height o'.2 = max s.om.height o.2)
    (hSeen : ∀ r, b' = .raise r → r.old ≤ s.om.height)
    (hWaits : b.waits = none)
    (hWaits' : b'.waits = none) :
    s'.Serial cfg m om heavy order (us ++ o' :: vs) := by
  apply h.advance hBodies hBodies' hLeft hRight
  · rw [hMem]
    exact SameParents.refl _
  · rw [hMem]
    exact hOwes
  · rw [hMem, hFst]
  · intro k
    rw [hOm]
  · rw [hOm]
  · rw [hOm]
    exact hMax
  · rw [hOm]
    exact hSeen
  · exact hWaits
  · exact hWaits'
  · intro q hq
    rw [hFst] at hq
    exact ⟨q, hq, rfl⟩

/- An iteration begins. -/
theorem begin
    {t : Shape} {yss : List (List (Nat × Label))} {p : Nat}
    (hCfg : cfg.WellFormed)
    (hStored : Stored cfg m om t yss)
    (hPlain : ∀ p ∈ heavy, ∃ l, (p, l) ∈ t.plain)
    (hNodup : heavy.Nodup)
    (h : s.Serial cfg m om heavy order (us ++ ([], 0) :: vs))
    (hBodies : s.bodies = as ++ .start p :: bs)
    (hBodies' : s'.bodies = as ++ b' :: bs)
    (hLeft : List.Forall₂ (Owes s.mem.tls) as us)
    (hRight : List.Forall₂ (Owes s.mem.tls) bs vs)
    (hOm : s'.om = s.om)
    (hRun : startSplit cfg s.mem s.om p =
      Except.ok (s'.mem, b')) :
    ∃ o', s'.Serial cfg m om heavy (order ++ [p])
      (us ++ o' :: vs) := by
  have hWaiting : waiting s.bodies =
      waiting as ++ p :: waiting bs := by
    unfold waiting
    rw [hBodies, List.filterMap_append]
    rfl
  have hPerm := h.perm
  rw [hWaiting] at hPerm
  have hAllNodup := hPerm.nodup_iff.mpr hNodup
  simp only [List.nodup_append', List.nodup_cons,
    List.disjoint_append_right, List.disjoint_cons_right]
    at hAllNodup
  rcases hAllNodup with
    ⟨hOrder, ⟨-, ⟨hpBs, -⟩, hpAs, -⟩, hDisjAs, hpOrder,
      hDisjBs⟩
  have hHeavy : ∀ q, q ∈ order ∨ q ∈ waiting as ∨ q = p ∨
      q ∈ waiting bs → ∃ l, (q, l) ∈ t.plain := by
    intro q hq
    apply hPlain
    rw [← hPerm.mem_iff]
    simp only [List.mem_append, List.mem_cons]
    exact hq
  rcases splitAllHeavy_spec hCfg hStored
    (fun q hq => hHeavy q (Or.inl hq)) hOrder h.serial with
    ⟨t₁, yss₁, hSplits⟩
  have hPlain₁ : ∀ q, q ∉ order →
      q ∈ waiting as ∨ q = p ∨ q ∈ waiting bs →
        ∃ l, (q, l) ∈ t₁.plain := by
    intro q hNot hq
    rcases hHeavy q (Or.inr hq) with ⟨l, hl⟩
    exact ⟨l, hSplits.plain _ hl hNot⟩
  rcases hPlain₁ p hpOrder (Or.inr (Or.inl rfl)) with
    ⟨l, hpPlain⟩
  obtain ⟨owed, hOwed⟩ : ∃ owed, owed =
      us.flatMap Prod.fst ++ vs.flatMap Prod.fst := ⟨_, rfl⟩
  obtain ⟨om₁, hOm₁⟩ : ∃ om₁, om₁ = { s.om with
      height := (us.map Prod.snd ++ vs.map Prod.snd).foldl
        max s.om.height } := ⟨_, rfl⟩
  have hSerial := h.serial
  have hApart := h.apart
  have hLt := owes_lt_next h.owes
  have hRoot : om₁.root = s.om.root := by rw [hOm₁]
  rw [List.flatMap_append, List.flatMap_cons,
    List.nil_append, ← hOwed] at hSplits hSerial hApart hLt
  rw [List.map_append, List.map_cons, foldl_max_middle,
    Nat.max_zero, ← hOm₁] at hSplits hSerial
  rw [hWaiting] at hApart
  have hBegin := startSplit_settle hRoot
    (fun q hq => ⟨fun hEq => hApart q hq (by simp [hEq]),
      hLt q hq⟩) hRun
  rcases startSplit_spec hCfg hSplits.stored hpPlain hBegin
    with ⟨hParents₁, hBody⟩
  have hParents : SameParents s.mem.tls s'.mem.tls :=
    ((SameParents.settle s.mem owed).trans hParents₁).trans
      (SameParents.of_settle s'.mem owed)
  obtain ⟨o', hOwes', hSerial', hApart', hWaits', hRaise⟩ :
      ∃ o', Owes s'.mem.tls b' o' ∧
        splitAllHeavy cfg m om (order ++ [p]) =
          Except.ok (settle s'.mem
            ((us ++ o' :: vs).flatMap Prod.fst),
            { s'.om with
              height := ((us ++ o' :: vs).map
                Prod.snd).foldl max s'.om.height }) ∧
        (∀ q ∈ o'.1, q.1 ∉ waiting as ++ waiting bs) ∧
        b'.waits = none ∧ ∀ r, b' ≠ .raise r := by
    rw [hOm]
    rcases hBody with rfl | ⟨extra, k, rfl⟩
    · refine ⟨([], 0), Owes.done, ?_, ?_, rfl, ?_⟩
      · rw [List.flatMap_append, List.flatMap_cons,
          List.nil_append, ← hOwed, List.map_append,
          List.map_cons, foldl_max_middle, Nat.max_zero,
          ← hOm₁]
        exact splitAllHeavy_concat hSerial
          (splitHeavy_of_done hBegin)
      · intro q hq
        cases hq
      · intro r hr
        cases hr
    · rcases Grafts.exists_of_plain hpPlain with
        ⟨ls, rs, d, hLeaves, hAll⟩
      rcases hAll (.leaf p l) with ⟨t₂, hGraft, -⟩
      rcases hGraft.ancestors hSplits.stored.rep
        hSplits.stored.nodup Ancestors.root with
        ⟨ps, hUp, hAbove⟩
      rw [List.append_nil] at hUp
      have hUp₁ := hUp.of_same hParents₁
      have hUp' := hUp₁.of_same
        (SameParents.of_settle s'.mem owed)
      refine ⟨_, Owes.climb hUp', ?_, ?_, rfl, ?_⟩
      · rw [splitAllHeavy_concat hSerial
          (splitHeavy_of_climb hBegin hUp₁), hOm₁, hOwed,
          List.flatMap_append, List.flatMap_cons,
          List.map_append, List.map_cons, foldl_max_middle,
          foldl_max_max, settle_append, settle_append,
          settle_append, settle_comm (settle s'.mem _)]
      · intro q hq
        rw [List.mem_map] at hq
        rcases hq with ⟨r, hr, rfl⟩
        dsimp only
        rw [List.mem_append]
        intro hMem
        rcases (hAbove r hr).2 with rfl | hNe
        · exact hMem.elim hpAs hpBs
        · have hNot : r ∉ order := fun hIn =>
            hMem.elim (hDisjAs hIn) (hDisjBs hIn)
          rcases hPlain₁ r hNot
            (hMem.imp id Or.inr) with ⟨j, hj⟩
          exact hNe _ hj rfl
      · intro r hr
        cases hr
  have hWaiting' : waiting s'.bodies =
      waiting as ++ waiting bs := by
    unfold waiting
    rw [hBodies', List.filterMap_append,
      List.filterMap_cons_none hWaits']
  refine ⟨o', ?_, hSerial', ?_, ?_, ?_⟩
  · rw [hBodies']
    have hOf : ∀ c q, Owes s.mem.tls c q →
        Owes s'.mem.tls c q :=
      fun c q hOwes => hOwes.of_same hParents
    apply List.rel_append (hLeft.imp hOf)
    exact List.Forall₂.cons hOwes' (hRight.imp hOf)
  · rw [hWaiting', List.append_assoc, List.singleton_append]
    apply List.Perm.trans _ hPerm
    apply List.Perm.append_left
    exact List.perm_middle.symm
  · rw [hWaiting']
    intro q hq
    rw [List.flatMap_append, List.flatMap_cons,
      List.mem_append, List.mem_append] at hq
    have hOld : q ∈ owed → q.1 ∉ waiting as ++ waiting bs := by
      intro hMem hIn
      apply hApart q hMem
      rw [List.mem_append, List.mem_cons]
      rw [List.mem_append] at hIn
      exact hIn.imp id Or.inr
    rw [hOwed, List.mem_append] at hOld
    rcases hq with hq | hq | hq
    · exact hOld (Or.inl hq)
    · exact hApart' q hq
    · exact hOld (Or.inr hq)
  · intro r hr
    have hSeen := h.seen
    rw [hBodies] at hSeen
    rw [hBodies', List.mem_append, List.mem_cons] at hr
    rw [hOm]
    rcases hr with hr | hr | hr
    · exact hSeen r (by simp [hr])
    · exact absurd hr.symm (hRaise r)
    · exact hSeen r (by simp [hr])

/- Every step of the loop keeps to the serial order. -/
theorem step
    {t : Shape} {yss : List (List (Nat × Label))} {i : Nat}
    {os : List (List (Nat × Nat) × Nat)}
    (hCfg : cfg.WellFormed)
    (hStored : Stored cfg m om t yss)
    (hPlain : ∀ p ∈ heavy, ∃ l, (p, l) ∈ t.plain)
    (hNodup : heavy.Nodup)
    (h : s.Serial cfg m om heavy order os)
    (hStep : loopStep cfg s i s') :
    ∃ order' os', s'.Serial cfg m om heavy order' os' := by
  rcases hStep with ⟨b, b', hAt, hOpen, hRun, hBodies'⟩
  rcases exists_middle hAt with ⟨as, bs, hBodies, hSet⟩
  rw [hSet] at hBodies'
  have hOwes := h.owes
  rw [hBodies] at hOwes
  rcases forall₂_middle hOwes with
    ⟨us, o, vs, rfl, hLeft, hOf, hRight⟩
  cases hOf with
  | start p =>
      unfold bodyStep at hRun
      rcases bind_eq_ok hRun with ⟨⟨m₁, b₁⟩, hStart, hRun⟩
      injection hRun with hRun
      injection hRun with hMem hRun
      injection hRun with hOm hBody
      subst hBody
      rw [hMem] at hStart
      rcases h.begin hCfg hStored hPlain hNodup hBodies
        hBodies' hLeft hRight hOm.symm hStart with
        ⟨o', h'⟩
      exact ⟨_, _, h'⟩
  | @climb c extra k qs hUp =>
      cases hUp with
      | root =>
          injection hRun with hRun
          injection hRun with hMem hRun
          injection hRun with hOm hBody
          subst hBody
          refine ⟨_, _, h.advance_same hBodies hBodies' hLeft
            hRight hMem.symm hOm.symm (Owes.raise _) rfl rfl
            ?_ rfl rfl⟩
          intro r hr
          cases hr
          exact Nat.le_refl _
      | @up q x qs hGet hUp =>
          rw [bodyStep_climb hGet] at hRun
          injection hRun with hRun
          injection hRun with hMem hRun
          injection hRun with hOm hBody
          subst hBody
          have hParents : SameParents s.mem.tls
              s'.mem.tls := by
            rw [← hMem]
            exact SameParents.modify _ _ fun _ => rfl
          rcases hParents q x hGet with ⟨y, hGet', hParent⟩
          have hUp' := hUp.of_same hParents
          rw [← hParent] at hUp'
          refine ⟨_, _, h.advance hBodies hBodies' hLeft
            hRight hParents (Owes.mark hGet' hUp') ?_ ?_ ?_
            ?_ ?_ rfl rfl ?_⟩
          · rw [List.map_cons, List.cons_append,
              List.cons_append, settle_middle, settle_middle,
              ← hMem]
            congr 1
            unfold Mem.mapTl
            dsimp only
            rw [Heap.modify_modify]
            rfl
          · intro j
            rw [← hOm]
          · rw [← hOm]
          · rw [← hOm]
            dsimp only
            rw [List.length_cons]
            congr 1
            omega
          · intro r hr
            cases hr
          · intro r hr
            rw [List.mem_cons] at hr
            rw [List.map_cons]
            rcases hr with rfl | hr
            · exact ⟨_, List.mem_cons_self, rfl⟩
            · exact ⟨r, List.mem_cons_of_mem _ hr, rfl⟩
  | @mark q extra k x qs hGet hUp =>
      rw [bodyStep_mark hGet] at hRun
      injection hRun with hRun
      injection hRun with hMem hRun
      injection hRun with hOm hBody
      subst hBody
      have hParents : SameParents s.mem.tls s'.mem.tls := by
        rw [← hMem]
        exact SameParents.modify _ _ fun _ => rfl
      refine ⟨_, _, h.advance hBodies hBodies' hLeft hRight
        hParents (Owes.climb (hUp.of_same hParents)) ?_ ?_ ?_
        ?_ ?_ rfl rfl ?_⟩
      · rw [List.cons_append, settle_middle, ← hMem]
        rfl
      · intro j
        rw [← hOm]
      · rw [← hOm]
      · rw [← hOm]
      · intro r hr
        cases hr
      · intro r hr
        exact ⟨r, List.mem_cons_of_mem _ hr, rfl⟩
  | raise r =>
      unfold bodyStep at hRun
      dsimp only at hRun
      have hSeen := h.seen r (by simp [hBodies])
      by_cases hTry : r.Open
      · rw [if_pos hTry] at hRun
        injection hRun with hRun
        injection hRun with hMem hRun
        injection hRun with hOm hBody
        subst hBody
        have hHeight : s'.om.height =
            (r.swap s.om.height).1 := by
          rw [← hOm]
        have hLe : s.om.height ≤ (r.swap s.om.height).1 :=
          Raise.le_swap hTry
        refine ⟨_, _, h.advance hBodies hBodies' hLeft hRight
          ?_ (Owes.raise _) ?_ ?_ ?_ ?_ ?_ rfl rfl ?_⟩
        · rw [hMem]
          exact SameParents.refl _
        · rw [hMem]
        · intro j
          rw [← hOm]
        · rw [hHeight]
          exact hLe
        · rw [hHeight, Raise.swap_target]
          exact Raise.max_swap hTry
        · intro r' hr
          cases hr
          rw [hHeight, Raise.swap_old]
          exact hLe
        · intro q hq
          cases hq
      · rw [if_neg hTry] at hRun
        injection hRun with hRun
        injection hRun with hMem hRun
        injection hRun with hOm hBody
        subst hBody
        refine ⟨_, _, h.advance_same hBodies hBodies' hLeft
          hRight hMem.symm hOm.symm Owes.done rfl ?_ ?_ rfl
          rfl⟩
        · unfold Raise.Open at hTry
          dsimp only
          omega
        · intro r' hr
          cases hr
  | done => exact absurd rfl hOpen

end LoopState.Serial

------------------------------------------------------------
-- Complete Runs
------------------------------------------------------------

section

variable {cfg : Config} {m : Mem} {om : Om} {heavy : List Nat}
variable {t : Shape} {yss : List (List (Nat × Label))}
variable {s : LoopState}

/- Iterations that owe nothing. -/
theorem flatMap_of_settled
    (os : List (List (Nat × Nat) × Nat))
    (h : ∀ o ∈ os, o = ([], 0)) :
    os.flatMap Prod.fst = [] ∧
      ∀ k, (os.map Prod.snd).foldl max k = k := by
  induction os with
  | nil => exact ⟨rfl, fun _ => rfl⟩
  | cons o os ih =>
      rw [List.forall_mem_cons] at h
      rcases h with ⟨rfl, hRest⟩
      rcases ih hRest with ⟨hFst, hSnd⟩
      refine ⟨hFst, ?_⟩
      intro k
      rw [List.map_cons, List.foldl_cons, Nat.max_zero]
      exact hSnd k

/- Before the loop, no iteration has begun. -/
theorem LoopState.Serial.init
    (hMem : s.mem = m)
    (hOm : s.om = om)
    (hBodies : s.bodies = heavy.map .start) :
    s.Serial cfg m om heavy []
      (heavy.map fun _ => ([], 0)) := by
  have hSettled := flatMap_of_settled
    (heavy.map fun _ => ([], 0)) (by simp)
  have hWaiting : waiting s.bodies = heavy := by
    unfold waiting
    rw [hBodies, List.filterMap_map]
    exact List.filterMap_some
  constructor
  · rw [hBodies, List.forall₂_map_left_iff,
      List.forall₂_map_right_iff, List.forall₂_same]
    intro p _
    exact Owes.start p
  · rw [hSettled.1, hSettled.2, hMem, hOm]
    rfl
  · rw [hWaiting, List.nil_append]
  · rw [hSettled.1]
    intro o ho
    cases ho
  · intro r hr
    rw [hBodies, List.mem_map] at hr
    rcases hr with ⟨p, -, hp⟩
    cases hp

/- Every run of the loop keeps to a serial order. -/
theorem serial_of_reachable
    (hCfg : cfg.WellFormed)
    (hStored : Stored cfg m om t yss)
    (hPlain : ∀ p ∈ heavy, ∃ l, (p, l) ∈ t.plain)
    (hNodup : heavy.Nodup)
    (hReach : (loopSystem cfg m om heavy).Reachable s) :
    ∃ order os, s.Serial cfg m om heavy order os := by
  apply hReach.invariant
    (P := fun s => ∃ order os,
      s.Serial cfg m om heavy order os)
  · rintro s ⟨hMem, hOm, hBodies⟩
    exact ⟨_, _, LoopState.Serial.init hMem hOm hBodies⟩
  · rintro s i s' ⟨order, os, h⟩ hStep
    exact h.step hCfg hStored hPlain hNodup hStep

/- A loop that is over did what a serial loop does. -/
theorem serial_of_complete
    (hCfg : cfg.WellFormed)
    (hStored : Stored cfg m om t yss)
    (hPlain : ∀ p ∈ heavy, ∃ l, (p, l) ∈ t.plain)
    (hNodup : heavy.Nodup)
    (hReach : (loopSystem cfg m om heavy).Reachable s)
    (hDone : s.Complete) :
    ∃ order, order.Perm heavy ∧
      splitAllHeavy cfg m om order =
        Except.ok (s.mem, s.om) := by
  rcases serial_of_reachable hCfg hStored hPlain hNodup
    hReach with ⟨order, os, h⟩
  have hOs : ∀ o ∈ os, o = ([], 0) := by
    intro o ho
    rcases List.mem_iff_append.mp ho with ⟨us, vs, rfl⟩
    rcases forall₂_middle h.owes.flip with
      ⟨as, b, bs, hBodies, -, hOwes, -⟩
    have hb := hDone b (by simp [hBodies])
    rw [hb] at hOwes
    cases hOwes
    rfl
  have hWaiting : waiting s.bodies = [] := by
    unfold waiting
    rw [List.filterMap_eq_nil_iff]
    intro b hb
    rw [hDone b hb]
    rfl
  have hSettled := flatMap_of_settled _ hOs
  have hPerm := h.perm
  have hSerial := h.serial
  rw [hWaiting, List.append_nil] at hPerm
  rw [hSettled.1, hSettled.2] at hSerial
  exact ⟨order, hPerm, hSerial⟩

------------------------------------------------------------
-- The Compare-and-Swap Loop
------------------------------------------------------------

/- No step lowers the height. -/
theorem bodyStep_height_le
    {m' : Mem} {om' : Om} {b b' : Body}
    (hRun : bodyStep cfg m om b = Except.ok (m', om', b')) :
    om.height ≤ om'.height := by
  cases b with
  | start p =>
      rcases bind_eq_ok hRun with ⟨⟨m₁, b₁⟩, -, hRun⟩
      cases hRun
      exact Nat.le_refl _
  | climb c extra k =>
      cases c with
      | none =>
          cases hRun
          exact Nat.le_refl _
      | some q =>
          rcases bind_eq_ok hRun with ⟨m₁, -, hRun⟩
          cases hRun
          exact Nat.le_refl _
  | mark q extra k =>
      rcases bind_eq_ok hRun with ⟨m₁, -, hRun⟩
      rcases bind_eq_ok hRun with ⟨x, -, hRun⟩
      cases hRun
      exact Nat.le_refl _
  | raise r =>
      unfold bodyStep at hRun
      dsimp only at hRun
      split at hRun
      · rename_i hTry
        cases hRun
        exact Raise.le_swap hTry
      · cases hRun
        exact Nat.le_refl _
  | done =>
      cases hRun
      exact Nat.le_refl _

/- An attempt of an iteration can always be made. -/
theorem exists_step_of_raise
    {i : Nat} {r : Raise}
    (hAt : s.bodies[i]? = some (.raise r)) :
    ∃ s', loopStep cfg s i s' := by
  have hRun : ∃ om' b', bodyStep cfg s.mem s.om (.raise r) =
      Except.ok (s.mem, om', b') := by
    unfold bodyStep
    dsimp only
    split
    · exact ⟨_, _, rfl⟩
    · exact ⟨_, _, rfl⟩
  rcases hRun with ⟨om', b', hRun⟩
  exact ⟨{ mem := s.mem, om := om'
           bodies := s.bodies.set i b' }, _, b', hAt,
    by simp, hRun, rfl⟩

/- The attempts that are left to an iteration. -/
def attempts (s : LoopState) (i : Nat) : Nat :=
  match s.bodies[i]? with
  | some (.raise r) => r.left s.om.height + 1
  | _ => 0

/- Whether an iteration has come to the height. -/
def Raising (s : LoopState) (i : Nat) : Prop :=
  (∃ r, s.bodies[i]? = some (.raise r)) ∨
    s.bodies[i]? = some .done

/- Each step of the iteration itself is an attempt. -/
theorem attempts_step
    {s' : LoopState} {i j : Nat}
    (hSeen : ∀ r, Body.raise r ∈ s.bodies →
      r.old ≤ s.om.height)
    (hRaising : Raising s i)
    (hStep : loopStep cfg s j s') :
    Raising s' i ∧
      attempts s' i + (if j = i then 1 else 0) ≤
        attempts s i := by
  rcases hStep with ⟨b, b', hAt, hOpen, hRun, hBodies⟩
  have hLe := bodyStep_height_le hRun
  have hLt : j < s.bodies.length := by
    rw [List.getElem?_eq_some_iff] at hAt
    exact hAt.1
  by_cases hji : j = i
  · subst hji
    have hAt' : s'.bodies[j]? = some b' := by
      rw [hBodies, List.getElem?_set_self hLt]
    rw [if_pos rfl]
    rcases hRaising with ⟨r, hr⟩ | hDone
    · cases hAt.symm.trans hr
      have hOld := hSeen r (List.mem_of_getElem? hAt)
      unfold attempts Raising
      rw [hAt, hAt']
      unfold bodyStep at hRun
      dsimp only at hRun
      by_cases hTry : r.Open
      · rw [if_pos hTry] at hRun
        injection hRun with hRun
        injection hRun with hMem hRun
        injection hRun with hOm hBody
        subst hBody
        refine ⟨Or.inl ⟨_, rfl⟩, ?_⟩
        rw [← hOm]
        have := Raise.left_swap_lt hTry hOld
        dsimp only
        omega
      · rw [if_neg hTry] at hRun
        injection hRun with hRun
        injection hRun with hMem hRun
        injection hRun with hOm hBody
        subst hBody
        refine ⟨Or.inr rfl, ?_⟩
        dsimp only
        omega
    · cases hAt.symm.trans hDone
      exact absurd rfl hOpen
  · have hSame : s'.bodies[i]? = s.bodies[i]? := by
      rw [hBodies, List.getElem?_set_ne hji]
    unfold Raising attempts
    rw [hSame, if_neg hji]
    refine ⟨hRaising, ?_⟩
    rcases hRaising with ⟨r, hr⟩ | hDone
    · have hOld := hSeen r (List.mem_of_getElem? hr)
      have := Raise.left_mono hOld hLe
      rw [hr]
      dsimp only
      omega
    · rw [hDone]

/- An iteration makes no more attempts than it has left. -/
theorem attempts_run
    {s' : LoopState} {i : Nat} {acts : List Nat}
    (hCfg : cfg.WellFormed)
    (hStored : Stored cfg m om t yss)
    (hPlain : ∀ p ∈ heavy, ∃ l, (p, l) ∈ t.plain)
    (hNodup : heavy.Nodup)
    (hReach : (loopSystem cfg m om heavy).Reachable s)
    (hRaising : Raising s i)
    (hRun : (loopSystem cfg m om heavy).Run s acts s') :
    Raising s' i ∧
      attempts s' i + acts.count i ≤ attempts s i := by
  induction hRun with
  | refl => exact ⟨hRaising, by simp⟩
  | @tail u v acts j hRun hStep ih =>
      rcases ih with ⟨hNow, hLe⟩
      rcases hReach with ⟨s₀, first, hInit, hFirst⟩
      have hReachU : (loopSystem cfg m om heavy).Reachable u :=
        ⟨s₀, _, hInit, hFirst.append hRun⟩
      rcases serial_of_reachable hCfg hStored hPlain hNodup
        hReachU with ⟨order, os, h⟩
      rcases attempts_step h.seen hNow hStep with
        ⟨hNext, hLess⟩
      refine ⟨hNext, ?_⟩
      rw [List.count_append, List.count_singleton]
      by_cases hji : j = i
      · rw [if_pos hji] at hLess
        simp only [hji, beq_self_eq_true, if_true]
        omega
      · rw [if_neg hji] at hLess
        simp only [beq_iff_eq, hji, if_false]
        omega

end

end OrderMaint

end PRacer
