import PRacer.Omrd.HeavyLists

/-
  Room for a node after another one.

  What counts is the label of a node and the label after it:
  insertions after other nodes do not change them, and a
  relabel spreads them.

  Main declarations:
    * `spot`, `Full`, `Wide`
    * `spot_of_omInsert`, `spot_of_omRelabel`
    * `omInsert_of_full`, `omInsert_of_room`
-/

------------------------------------------------------------
-- Labels around a Node
------------------------------------------------------------

namespace PRacer

open Foundations OrderMaint

namespace Omrd

/- The label of a node, and that of the node after it. -/
def spot (m : Mem) (n : Nat) :
    Option (Label × Option Label) :=
  (m.nodes.get n).map fun x =>
    (x.label, x.next.bind fun next =>
      (m.nodes.get next).map BlNode.label)

/- The label of the first of some nodes. -/
def firstLabel (ys : List (Nat × Label)) : Option Label :=
  ys.head?.map Prod.snd

/- A chain has its nodes one after the other. -/
theorem spot_of_chain
    {m : Mem} {self : Nat} {prev : Option Nat}
    {xs ys : List (Nat × Label)} {z : Nat × Label}
    (h : Chain m.nodes self prev (xs ++ z :: ys)) :
    spot m z.1 = some (z.2, firstLabel ys) := by
  induction xs generalizing prev with
  | nil =>
      rcases h with ⟨hGet, hRest⟩
      unfold spot
      rw [hGet]
      cases ys with
      | nil => rfl
      | cons y ys =>
          simp only [Option.map_some, linkedNode,
            firstNode_cons, Option.bind_some]
          rw [hRest.1]
          rfl
  | cons x xs ih => exact ih h.2

theorem spot_of_linked
    {m : Mem} {list : Nat} {xs ys : List (Nat × Label)}
    {z : Nat × Label}
    (h : Linked m list (xs ++ z :: ys)) :
    spot m z.1 = some (z.2, firstLabel ys) :=
  spot_of_chain h.chain

/- A list that stays has the same labels. -/
theorem spot_of_same
    {m m' : Mem} {x : Nat × Nat} {ys : List (Nat × Label)}
    {z : Nat × Label}
    (hOf : ListOf m x ys)
    (hSame : SameList m m' x.2)
    (hz : z ∈ ys) :
    spot m' z.1 = spot m z.1 := by
  rcases List.mem_iff_append.mp hz with ⟨as, bs, rfl⟩
  rw [spot_of_linked hOf.linked,
    spot_of_linked (hSame.linked _ hOf.linked)]

/- An insertion changes what is after its base only. -/
theorem spot_of_inserted
    {cfg : Config} {m m' : Mem} {l base : Nat}
    {lab new : Label} {xs ys : List (Nat × Label)}
    {z : Nat × Label}
    (hLinked : Linked m l (xs ++ (base, lab) :: ys))
    (h : Inserted cfg m m' l base xs lab new ys)
    (hz : z ∈ xs ++ (base, lab) :: ys)
    (hNe : z.1 ≠ base) :
    spot m' z.1 = spot m z.1 := by
  have hAfter := h.linked
  rw [List.mem_append, List.mem_cons] at hz
  rcases hz with hz | rfl | hz
  · rcases List.mem_iff_append.mp hz with ⟨as, bs, rfl⟩
    rw [List.append_assoc, List.cons_append]
      at hLinked hAfter
    rw [spot_of_linked hLinked, spot_of_linked hAfter]
    cases bs with
    | nil => rfl
    | cons b bs => rfl
  · exact absurd rfl hNe
  · rcases List.mem_iff_append.mp hz with ⟨as, bs, rfl⟩
    rw [← List.cons_append, ← List.append_assoc]
      at hLinked
    rw [← List.cons_append, ← List.cons_append,
      ← List.append_assoc] at hAfter
    rw [spot_of_linked hLinked, spot_of_linked hAfter]

/- `om_insert` keeps the labels around all other nodes. -/
theorem spot_of_omInsert
    {cfg : Config} {s : OmState} {m' : Mem} {t : Shape}
    {yss : List (List (Nat × Label))} {base n : Nat}
    {r : Option Nat}
    (h : Maintained cfg s t yss)
    (hBase : base ∈ s.order)
    (hRun : omInsert cfg s.mem base = Except.ok (m', r))
    (hn : n ∈ s.order)
    (hNe : n ≠ base) :
    spot m' n = spot s.mem n := by
  have hStored := h.stored
  rw [h.order] at hBase hn
  rcases hStored.within hBase with
    ⟨p, l, lab, ls, rs, us, vs, xs, ys, hLeaves, rfl,
      hWithin⟩
  have hLeaf : (p, l) ∈ t.leaves := by
    rw [hLeaves]
    simp
  rcases hStored.of_omInsert h.unmarked hLeaf hWithin hRun
    with ⟨rfl, -⟩ | ⟨-, new, hInserted⟩
  · rfl
  · rcases hStored.insert hLeaves hWithin hInserted with
      ⟨-, -, hSame⟩
    rcases exists_listOf hStored.lists hn with
      ⟨x, hx, zs, hOf, z, hz, rfl⟩
    rw [hLeaves, List.mem_append, List.mem_cons] at hx
    by_cases hThis : x = (p, l)
    · subst hThis
      have hEq := hOf.linked.unique hWithin.listOf.linked
      rw [hEq] at hz
      exact spot_of_inserted hWithin.listOf.linked hInserted
        hz hNe
    · apply spot_of_same hOf _ hz
      apply hSame
      rw [List.mem_append]
      rcases hx with hx | hx | hx
      · exact Or.inl hx
      · exact absurd hx hThis
      · exact Or.inr hx

------------------------------------------------------------
-- Room and Gaps
------------------------------------------------------------

/- There is a label after `lab` and before the next one. -/
def RoomAt (cfg : Config) (lab : Label) :
    Option Label → Prop
| none => lab ≠ cfg.maxLabel
| some y => ∃ new, lab < new ∧ new < y

theorem room_iff_roomAt
    (cfg : Config) (lab : Label)
    (ys : List (Nat × Label)) :
    Room cfg lab ys ↔ RoomAt cfg lab (firstLabel ys) := by
  cases ys with
  | nil => exact Iff.rfl
  | cons y ys => exact Iff.rfl

/- The distance to the next label. -/
def gapOf
    (cfg : Config) (lab : Label) (next : Option Label) : Nat :=
  (next.getD cfg.maxLabel).toNat - lab.toNat

/- Nothing can be inserted after a node. -/
def Full (cfg : Config) (m : Mem) (n : Nat) : Prop :=
  ∃ lab next, spot m n = some (lab, next) ∧
    ¬ RoomAt cfg lab next

/- The gap after a node is not less than `k`. -/
def Wide
    (cfg : Config) (m : Mem) (k n : Nat) : Prop :=
  ∃ lab next, spot m n = some (lab, next) ∧
    k ≤ gapOf cfg lab next

theorem Full.congr
    {cfg : Config} {m m' : Mem} {n : Nat}
    (h : Full cfg m n)
    (hSpot : spot m' n = spot m n) :
    Full cfg m' n := by
  unfold Full
  rw [hSpot]
  exact h

theorem Wide.congr
    {cfg : Config} {m m' : Mem} {k n : Nat}
    (h : Wide cfg m k n)
    (hSpot : spot m' n = spot m n) :
    Wide cfg m' k n := by
  unfold Wide
  rw [hSpot]
  exact h

/- A new list around one of its nodes. -/
theorem spaced_split
    {cfg : Config} {i : Nat} {ps : List Nat}
    {as bs : List (Nat × Label)} {z : Nat × Label}
    (h : spaced cfg i ps = as ++ z :: bs) :
    z.2 = labelAt cfg (i + as.length) ∧
      i + as.length < i + ps.length ∧
      (firstLabel bs = none ∨
        firstLabel bs =
          some (labelAt cfg (i + as.length + 1)) ∧
        i + as.length + 1 < i + ps.length) := by
  induction as generalizing i ps with
  | nil =>
      cases ps with
      | nil => cases h
      | cons p ps =>
          rw [List.nil_append, spaced, List.cons.injEq] at h
          rcases h with ⟨rfl, rfl⟩
          refine ⟨rfl, by simp, ?_⟩
          cases ps with
          | nil => exact Or.inl rfl
          | cons q ps => exact Or.inr ⟨rfl, by simp⟩
  | cons a as ih =>
      cases ps with
      | nil => cases h
      | cons p ps =>
          rw [List.cons_append, spaced, List.cons.injEq] at h
          rcases ih h.2 with ⟨hLabel, hLt, hNext⟩
          simp only [List.length_cons]
          rw [show i + (as.length + 1) =
              i + 1 + as.length by omega,
            show i + (ps.length + 1) =
              i + 1 + ps.length by omega]
          exact ⟨hLabel, hLt, hNext⟩

section Default

variable {machine : Machine}

/- The gaps of a new list. -/
theorem gap_of_spaced
    {ps : List Nat} {as bs : List (Nat × Label)}
    {z : Nat × Label}
    (hLength : ps.length ≤ 64)
    (h : spaced (Config.default machine) 0 ps =
      as ++ z :: bs) :
    2 ^ 58 - 1 ≤ gapOf (Config.default machine) z.2
      (firstLabel bs) := by
  have hCfg := Config.default_wellFormed machine
  have hSize : (Config.default machine).sublistSize = 64 :=
    rfl
  have hInterval :
      (Config.default machine).nodeInterval.toNat = 2 ^ 58 :=
    rfl
  have hMax := maxLabel_toNat machine
  rcases spaced_split h with ⟨hLabel, hLt, hNext⟩
  rw [Nat.zero_add, Nat.zero_add] at hLt
  rw [Nat.zero_add] at hLabel hNext
  have hNat := toNat_labelAt hCfg (i := as.length) (by omega)
  rw [hInterval] at hNat
  unfold gapOf
  rw [hLabel, hNat]
  rcases hNext with hNone | ⟨hSome, hLt'⟩
  · rw [hNone, Option.getD_none, hMax]
    omega
  · rw [Nat.zero_add] at hLt'
    have hNat' := toNat_labelAt hCfg (i := as.length + 1)
      (by omega)
    rw [hInterval] at hNat'
    rw [hSome, Option.getD_some, hNat']
    omega

/-
  A relabel spreads the labels around the nodes below the
  leaves that it is given, and either spreads or leaves the
  labels around the others.
-/
theorem spot_of_omRelabel
    {s : OmState} {m : Mem} {om : Om} {t : Shape}
    {yss : List (List (Nat × Label))} {heavy : List Nat}
    {n : Nat}
    (h : Maintained (Config.default machine) s t yss)
    (hLive : ∀ p ∈ heavy,
      LiveLeaf (Config.default machine) s.mem s.om p)
    (hNodup : heavy.Nodup)
    (hRun : omRelabel (Config.default machine) s.mem s.om
      heavy = Except.ok (m, om))
    (hn : n ∈ s.order) :
    Wide (Config.default machine) m (2 ^ 58 - 1) n ∨
      (omGetTl s.mem n ∉ heavy ∧
        spot m n = spot s.mem n) := by
  rcases omRelabel_spec (Config.default_wellFormed machine)
    h.stored h.unmarked (h.leaves hLive) hNodup hRun with
    ⟨t', yss', hAfter⟩
  rw [h.order, ← hAfter.order] at hn
  rcases exists_listOf hAfter.stored.lists hn with
    ⟨x, hx, zs, hOf, z, hz, rfl⟩
  rcases hAfter.leaves x hx with
    ⟨hOld, hNot, hSame⟩ | hNew
  · right
    rcases exists_listOf_of_mem h.stored.lists hOld with
      ⟨ys, hOfOld⟩
    have hEq := (hSame.linked ys hOfOld.linked).unique
      hOf.linked
    rw [← hEq] at hz
    rcases hOfOld.get_node hz with ⟨k, hGet, hList, -⟩
    have hPlaced :
        Placed (Config.default machine) s.mem z.1 x.1 x.2 :=
      ⟨⟨k, hGet, hList⟩,
        leafList_of_mem h.stored h.unmarked hOld⟩
    rw [hPlaced.omGetTl_eq]
    exact ⟨hNot, spot_of_same hOfOld hSame hz⟩
  · left
    rcases hNew with
      ⟨l, ps, -, -, hLinked, -, hLength⟩
    rw [hOf.linked.unique hLinked] at hz
    rcases List.mem_iff_append.mp hz with ⟨as, bs, hSplit⟩
    rw [hSplit] at hLinked
    exact ⟨_, _, spot_of_linked hLinked,
      gap_of_spaced hLength hSplit⟩

------------------------------------------------------------
-- Insertions
------------------------------------------------------------

/- Two nodes are in one list. -/
def SameBList (m : Mem) (x y : Nat) : Prop :=
  ∃ a b, m.nodes.get x = some a ∧ m.nodes.get y = some b ∧
    a.list = b.list

/- An insertion without room changes nothing. -/
theorem omInsert_of_full
    {s : OmState} {t : Shape}
    {yss : List (List (Nat × Label))} {base : Nat}
    (h : Maintained (Config.default machine) s t yss)
    (hBase : base ∈ s.order)
    (hFull : Full (Config.default machine) s.mem base) :
    omInsert (Config.default machine) s.mem base =
      Except.ok (s.mem, none) := by
  rw [h.order] at hBase
  rcases h.stored.within hBase with
    ⟨p, l, lab, ls, rs, us, vs, xs, ys, hLeaves, rfl,
      hWithin⟩
  have hLeaf : (p, l) ∈ t.leaves := by
    rw [hLeaves]
    simp
  have hLinked := hWithin.listOf.linked
  rcases hFull with ⟨lab', next, hSpot, hNoRoom⟩
  cases hSpot.symm.trans (spot_of_linked hLinked)
  rw [← room_iff_roomAt] at hNoRoom
  rw [h.stored.omInsert_eq h.unmarked hLeaf hWithin,
    blInsert_of_no_room hLinked hNoRoom, ok_bind]
  rfl

/- The gap that an insertion halves. -/
theorem gap_of_exactLabel
    {lab new : Label} {ys : List (Nat × Label)}
    (hWide : 2 ^ 58 - 1 ≤
      gapOf (Config.default machine) lab (firstLabel ys))
    (hNew : new.toNat =
      exactLabel (Config.default machine) lab ys) :
    2 ^ 56 ≤
      gapOf (Config.default machine) new (firstLabel ys) := by
  have hMax := maxLabel_toNat machine
  unfold gapOf at hWide ⊢
  cases ys with
  | nil =>
      simp only [exactLabel, hMax] at hNew
      rw [firstLabel, List.head?_nil, Option.map_none,
        Option.getD_none, hMax] at hWide ⊢
      split at hNew
      · omega
      · omega
  | cons y ys =>
      simp only [exactLabel] at hNew
      rw [firstLabel, List.head?_cons, Option.map_some,
        Option.getD_some] at hWide ⊢
      split at hNew
      · omega
      · omega

/- With a wide gap there is room. -/
theorem roomAt_of_wide
    {lab : Label} {next : Option Label}
    (hWide : 2 ≤ gapOf (Config.default machine) lab next) :
    RoomAt (Config.default machine) lab next := by
  unfold gapOf at hWide
  cases next with
  | none =>
      rintro rfl
      rw [Option.getD_none, Nat.sub_self] at hWide
      omega
  | some y =>
      rw [Option.getD_some] at hWide
      refine ⟨lab + 1, ?_, ?_⟩
      · bv_omega
      · bv_omega

/- What an insertion for which there is room leads to. -/
structure Fitted
    (cfg : Config) (m m' : Mem) (base : Nat) : Prop where
  run : omInsert cfg m base =
    Except.ok (m', some m.nodes.next)
  sameList : SameBList m' m.nodes.next base
  wide : Wide cfg m (2 ^ 58 - 1) base →
    Wide cfg m' (2 ^ 56) m.nodes.next

theorem omInsert_of_room
    {s : OmState} {t : Shape}
    {yss : List (List (Nat × Label))} {base : Nat}
    {lab : Label} {next : Option Label}
    (h : Maintained (Config.default machine) s t yss)
    (hBase : base ∈ s.order)
    (hSpot : spot s.mem base = some (lab, next))
    (hRoom : RoomAt (Config.default machine) lab next) :
    ∃ m', Fitted (Config.default machine) s.mem m' base := by
  rw [h.order] at hBase
  rcases h.stored.within hBase with
    ⟨p, l, lab, ls, rs, us, vs, xs, ys, hLeaves, rfl,
      hWithin⟩
  have hLeaf : (p, l) ∈ t.leaves := by
    rw [hLeaves]
    simp
  have hLinked := hWithin.listOf.linked
  have hAround := spot_of_linked hLinked
  cases hSpot.symm.trans hAround
  rw [← room_iff_roomAt] at hRoom
  rcases blInsert_of_room hLinked hRoom with
    ⟨m', new, hRun, hInserted, hNew⟩
  have hAfter := hInserted.linked
  have hSplit : xs ++ (base, lab) ::
      (s.mem.nodes.next, new) :: ys =
        (xs ++ [(base, lab)]) ++
          (s.mem.nodes.next, new) :: ys := by
    simp
  obtain ⟨a, hGetBase, hLab, hListA⟩ :
      ∃ a, m'.nodes.get base = some a ∧ a.label = lab ∧
        a.list = l :=
    ⟨_, hAfter.chain.get_middle, rfl, rfl⟩
  rw [hSplit] at hAfter
  obtain ⟨b, hGetNew, hNewLab, hListB⟩ :
      ∃ b, m'.nodes.get s.mem.nodes.next = some b ∧
        b.label = new ∧ b.list = l :=
    ⟨_, hAfter.chain.get_middle, rfl, rfl⟩
  have hLt : a.label < b.label := by
    rw [hLab, hNewLab]
    exact hInserted.above
  refine ⟨m', ?_, ?_, ?_⟩
  · rw [h.stored.omInsert_eq h.unmarked hLeaf hWithin, hRun,
      ok_bind]
    dsimp only
    rw [Mem.load_of_get hGetNew, ok_bind,
      Mem.load_of_get hGetBase, ok_bind, check_of hLt,
      ok_bind]
    rfl
  · exact ⟨b, a, hGetNew, hGetBase,
      hListB.trans hListA.symm⟩
  · rintro ⟨lab', next', hSpot', hGap⟩
    cases hSpot'.symm.trans hAround
    exact ⟨_, _, spot_of_linked hAfter,
      gap_of_exactLabel hGap hNew⟩

/- The labels around a node in order. -/
theorem exists_spot
    {cfg : Config} {s : OmState} {t : Shape}
    {yss : List (List (Nat × Label))} {n : Nat}
    (threshold : Nat)
    (h : Maintained cfg s t yss)
    (hn : n ∈ s.order) :
    ∃ lab next, spot s.mem n = some (lab, next) ∧
      isHeavy cfg threshold s.mem n = Except.ok
        (decide (next.getD cfg.maxLabel - lab <
          BitVec.twoPow 64 (64 - threshold))) := by
  rw [h.order] at hn
  rcases exists_listOf h.stored.lists hn with
    ⟨x, hx, zs, hOf, z, hz, rfl⟩
  rcases List.mem_iff_append.mp hz with ⟨as, bs, rfl⟩
  refine ⟨_, _, spot_of_linked hOf.linked, ?_⟩
  have hRest := hOf.linked.chain.suffix
  unfold isHeavy
  rw [Mem.load_of_get hRest.1, ok_bind]
  cases bs with
  | nil => rfl
  | cons b bs =>
      dsimp only [linkedNode, firstNode_cons]
      rw [Mem.load_of_get hRest.2.1]
      rfl

/- A node with a wide gap is not heavy. -/
theorem isHeavy_of_wide
    {s : OmState} {t : Shape}
    {yss : List (List (Nat × Label))} {n : Nat}
    (h : Maintained (Config.default machine) s t yss)
    (hn : n ∈ s.order)
    (hWide : Wide (Config.default machine) s.mem (2 ^ 56)
      n) :
    isHeavy (Config.default machine) defaultHeavyThreshold
      s.mem n = Except.ok false := by
  rcases exists_spot defaultHeavyThreshold h hn with
    ⟨lab, next, hSpot, hHeavy⟩
  rcases hWide with ⟨lab', next', hSpot', hGap⟩
  cases hSpot.symm.trans hSpot'
  have hPow :
      (BitVec.twoPow 64 (64 - defaultHeavyThreshold)).toNat =
        2 ^ 32 := rfl
  unfold gapOf at hGap
  rw [hHeavy]
  congr 1
  rw [decide_eq_false_iff_not, BitVec.lt_def, hPow]
  bv_omega

end Default

end Omrd

end PRacer
