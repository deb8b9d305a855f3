import Mathlib.Data.List.Forall2
import PRacer.Foundations.AddressedOrder
import PRacer.ShadowStack.SpTree

/-
  The two orders decide the series-parallel relation of the
  strands of a fork-join program.

  The hooks place the nodes of every frame at the paths that
  the walk of the program gives to its strands.

  Main declarations:
    * `Layout`, `Layout.Fits`
    * `ShadowStack.exec_spec`
    * `ShadowStack.spOrder`
-/

namespace PRacer

open Foundations

------------------------------------------------------------
-- Layouts
------------------------------------------------------------

/-
  The addresses of the nodes of both orders, and the paths
  that have branches.
-/
structure Layout where
  english : Nat → List Nat
  hebrew : Nat → List Nat
  expanded : Path → Prop

namespace Layout

/- Both orders list their nodes at the addresses. -/
structure Fits (L : Layout) (s : ShadowStack) : Prop where
  english :
    Grown s.english L.english
      fun q => ∃ p, L.expanded p ∧ Path.english p = q
  hebrew :
    Grown s.hebrew L.hebrew
      fun q => ∃ p, L.expanded p ∧ Path.hebrew p = q

/- A pair of nodes stands at a path. -/
structure At
    (L : Layout) (s : ShadowStack)
    (n : Nat × Nat) (p : Path) : Prop where
  mem_english : n.1 ∈ s.english.nodes
  mem_hebrew : n.2 ∈ s.hebrew.nodes
  english : L.english n.1 = Path.english p
  hebrew : L.hebrew n.2 = Path.hebrew p

/- A pair of fields of a frame: both empty, or at a path. -/
inductive NodesAt (L : Layout) (s : ShadowStack) :
    Option Nat → Option Nat → Option Path → Prop
| empty : NodesAt L s none none none
| node {e h : Nat} {p : Path} :
    L.At s (e, h) p → NodesAt L s (some e) (some h) (some p)

/- Where the nodes of a frame stand. -/
structure FrameAt
    (L : Layout) (s : ShadowStack) (f : FrameData)
    (current cont sync : Option Path)
    (helper : Bool) : Prop where
  current :
    NodesAt L s f.currentEnglish f.currentHebrew current
  cont : NodesAt L s f.contEnglish f.contHebrew cont
  sync : NodesAt L s f.syncEnglish f.syncHebrew sync
  helper : f.helper = helper

/- Nothing at or below the path has branches. -/
def Open (L : Layout) (p : Path) : Prop :=
  ∀ q, p <+: q → ¬ L.expanded q

/-
  What an execution does: it keeps the places of all nodes,
  gives branches to paths in its scope only, and goes through
  strands at the listed paths.
-/
structure Ran
    (L : Layout) (s : ShadowStack)
    (L' : Layout) (s' : ShadowStack)
    (Scope : Path → Prop) (paths : List Path) : Prop where
  fits : L'.Fits s'
  keeps : ∀ n p, L.At s n p → L'.At s' n p
  expanded :
    ∀ q, L'.expanded q → L.expanded q ∨ Scope q
  strands :
    ∃ nodes, s'.strands = s.strands ++ nodes ∧
      List.Forall₂ (L'.At s') nodes paths

variable {L L' L'' : Layout} {s s' s'' : ShadowStack}
variable {Scope Scope' : Path → Prop}
variable {paths paths' : List Path}

theorem NodesAt.mono
    {e h : Option Nat} {p : Option Path}
    (hAt : NodesAt L s e h p)
    (hKeeps : ∀ n p, L.At s n p → L'.At s' n p) :
    NodesAt L' s' e h p := by
  cases hAt with
  | empty => exact NodesAt.empty
  | node hNode => exact NodesAt.node (hKeeps _ _ hNode)

theorem FrameAt.mono
    {f : FrameData} {current cont sync : Option Path}
    {helper : Bool}
    (hFrame : FrameAt L s f current cont sync helper)
    (hKeeps : ∀ n p, L.At s n p → L'.At s' n p) :
    FrameAt L' s' f current cont sync helper where
  current := hFrame.current.mono hKeeps
  cont := hFrame.cont.mono hKeeps
  sync := hFrame.sync.mono hKeeps
  helper := hFrame.helper

/- An execution that leaves both orders alone. -/
theorem Ran.of_orders
    (hFits : L.Fits s)
    (hEnglish : s'.english = s.english)
    (hHebrew : s'.hebrew = s.hebrew)
    (hStrands : ∃ nodes, s'.strands = s.strands ++ nodes ∧
      List.Forall₂ (L.At s) nodes paths) :
    Ran L s L s' (fun _ => False) paths := by
  have hKeeps : ∀ n p, L.At s n p → L.At s' n p := by
    intro n p hAt
    exact
      { mem_english := hEnglish ▸ hAt.mem_english
        mem_hebrew := hHebrew ▸ hAt.mem_hebrew
        english := hAt.english
        hebrew := hAt.hebrew }
  refine ⟨⟨?_, ?_⟩, hKeeps, fun _ hq => Or.inl hq, ?_⟩
  · rw [hEnglish]
    exact hFits.english
  · rw [hHebrew]
    exact hFits.hebrew
  · rcases hStrands with ⟨nodes, hEq, hNodes⟩
    exact ⟨nodes, hEq,
      hNodes.imp fun n p hAt => hKeeps n p hAt⟩

theorem Ran.trans
    (hFirst : Ran L s L' s' Scope paths)
    (hSecond : Ran L' s' L'' s'' Scope' paths') :
    Ran L s L'' s'' (fun q => Scope q ∨ Scope' q)
      (paths ++ paths') where
  fits := hSecond.fits
  keeps n p hAt := hSecond.keeps n p (hFirst.keeps n p hAt)
  expanded q hq := by
    rcases hSecond.expanded q hq with hq | hq
    · rcases hFirst.expanded q hq with hq | hq
      · exact Or.inl hq
      · exact Or.inr (Or.inl hq)
    · exact Or.inr (Or.inr hq)
  strands := by
    rcases hFirst.strands with ⟨nodes, hEq, hNodes⟩
    rcases hSecond.strands with ⟨nodes', hEq', hNodes'⟩
    refine ⟨nodes ++ nodes', by simp [hEq', hEq], ?_⟩
    exact List.rel_append
      (hNodes.imp fun n p hAt => hSecond.keeps n p hAt)
      hNodes'

theorem Ran.mono
    (hRan : Ran L s L' s' Scope paths)
    (hScope : ∀ q, Scope q → Scope' q) :
    Ran L s L' s' Scope' paths where
  fits := hRan.fits
  keeps := hRan.keeps
  expanded q hq := (hRan.expanded q hq).imp_right (hScope q)
  strands := hRan.strands

/- The same execution, with its strands listed otherwise. -/
theorem Ran.weaken
    (hRan : Ran L s L' s' Scope paths)
    (hScope : ∀ q, Scope q → Scope' q)
    (hPaths : paths = paths') :
    Ran L s L' s' Scope' paths' :=
  hPaths ▸ hRan.mono hScope

/- A path outside the scope stays open. -/
theorem Ran.stays_open
    (hRan : Ran L s L' s' Scope paths)
    {p : Path} (hOpen : L.Open p)
    (hScope : ∀ q, p <+: q → ¬ Scope q) :
    L'.Open p := by
  intro q hPrefix hq
  rcases hRan.expanded q hq with hq | hq
  · exact hOpen q hPrefix hq
  · exact hScope q hPrefix hq

end Layout

------------------------------------------------------------
-- The Hooks
------------------------------------------------------------

namespace ShadowStack

open Layout

variable {L : Layout} {s : ShadowStack}
variable {f parent child : FrameData} {rest : List FrameData}
variable {p : Path} {pending : Option Path}

theorem strand_spec
    (hFits : L.Fits s)
    (hFrames : s.frames = f :: rest)
    {cont sync : Option Path} {helper : Bool}
    (hf : FrameAt L s f (some p) cont sync helper) :
    ∃ s', s.strand = some s' ∧ s'.frames = f :: rest ∧
      Ran L s L s' (fun _ => False) [p] := by
  rcases f with ⟨cE, cH, kE, kH, sE, sH, helper'⟩
  have hCurrent := hf.current
  simp only at hCurrent
  cases hCurrent with
  | node hNode =>
      unfold strand
      rw [hFrames]
      refine ⟨_, rfl, rfl, ?_⟩
      exact Ran.of_orders hFits rfl rfl
        ⟨[_], rfl,
          List.Forall₂.cons hNode List.Forall₂.nil⟩

/- An execution without strands that changes frames only. -/
private theorem ran_of_frames
    (hFits : L.Fits s) (frames : List FrameData) :
    Ran L s L { s with frames := frames }
      (fun _ => False) [] :=
  Ran.of_orders hFits rfl rfl
    ⟨[], by simp, List.Forall₂.nil⟩

theorem doEnterBegin_spec
    (hFits : L.Fits s)
    (hFrames : s.frames = parent :: rest)
    {cont sync : Option Path} {helper : Bool}
    (hParent : FrameAt L s parent (some p) cont sync helper) :
    ∃ s' f, s.doEnterBegin = some s' ∧
      s'.frames = f :: parent :: rest ∧
      FrameAt L s' f (some p) none none false ∧
      Ran L s L s' (fun _ => False) [] := by
  unfold doEnterBegin
  rw [hFrames]
  have hRan := ran_of_frames hFits
  refine ⟨_, _, rfl, rfl, ?_, hRan _⟩
  exact
    { current := hParent.current.mono (hRan _).keeps
      cont := NodesAt.empty
      sync := NodesAt.empty
      helper := rfl }

theorem doSyncBegin_spec
    (hFits : L.Fits s)
    (hFrames : s.frames = f :: rest)
    (hf : FrameAt L s f (some p) none pending false) :
    ∃ s' f', s.doSyncBegin = some s' ∧
      s'.frames = f' :: rest ∧
      FrameAt L s' f' (some (pending.getD p)) none none
        false ∧
      Ran L s L s' (fun _ => False) [] := by
  rcases f with ⟨cE, cH, kE, kH, sE, sH, helper⟩
  rcases hf with ⟨hCurrent, hCont, hSync, hHelper⟩
  simp only at hCurrent hCont hSync hHelper
  subst hHelper
  cases hCont
  cases hCurrent with
  | node hNode =>
      cases hSync with
      | empty =>
          refine ⟨s, _, ?_, hFrames, ?_, ?_⟩
          · simp [doSyncBegin, hFrames]
          · exact ⟨NodesAt.node hNode, NodesAt.empty,
              NodesAt.empty, rfl⟩
          · exact Ran.of_orders hFits rfl rfl
              ⟨[], by simp, List.Forall₂.nil⟩
      | node hSyncNode =>
          have hRan := ran_of_frames hFits
          unfold doSyncBegin
          rw [hFrames]
          refine ⟨_, _, rfl, rfl, ?_, hRan _⟩
          exact ⟨NodesAt.node
            ((hRan _).keeps _ _ hSyncNode),
            NodesAt.empty, NodesAt.empty, rfl⟩

/- Returning from a call. -/
theorem doLeaveEnd_call
    (hFits : L.Fits s)
    (hFrames : s.frames = child :: parent :: rest)
    (hChild : FrameAt L s child (some p) none none false)
    {current sync : Option Path} {helper : Bool}
    (hParent : FrameAt L s parent current none sync helper) :
    ∃ s' f', s.doLeaveEnd = some s' ∧
      s'.frames = f' :: rest ∧
      FrameAt L s' f' (some p) none sync helper ∧
      Ran L s L s' (fun _ => False) [] := by
  have hRan := ran_of_frames hFits
  rcases parent with ⟨cE, cH, kE, kH, sE, sH, helper'⟩
  rcases child with ⟨cE', cH', kE', kH', sE', sH', helper''⟩
  rcases hParent with ⟨hCurrent, hCont, hSync, hHelper⟩
  have hNotHelper := hChild.helper
  simp only at hCont hNotHelper
  subst hNotHelper
  cases hCont
  unfold doLeaveEnd
  rw [hFrames]
  refine ⟨_, _, rfl, rfl, ?_, hRan _⟩
  exact
    { current := hChild.current.mono (hRan _).keeps
      cont := NodesAt.empty
      sync := hSync.mono (hRan _).keeps
      helper := hHelper }

/- Returning from a spawn, to the continuation. -/
theorem doLeaveEnd_spawn
    (hFits : L.Fits s)
    (hFrames : s.frames = child :: parent :: rest)
    (hChild : child.helper = true)
    {sync : Path}
    (hParent :
      FrameAt L s parent none (some p) (some sync) false) :
    ∃ s' f', s.doLeaveEnd = some s' ∧
      s'.frames = f' :: rest ∧
      FrameAt L s' f' (some p) none (some sync) false ∧
      Ran L s L s' (fun _ => False) [] := by
  have hRan := ran_of_frames hFits
  rcases parent with ⟨cE, cH, kE, kH, sE, sH, helper⟩
  rcases child with ⟨cE', cH', kE', kH', sE', sH', helper'⟩
  rcases hParent with ⟨hCurrent, hCont, hSync, hHelper⟩
  simp only at hCurrent hCont hSync hHelper hChild
  subst hHelper hChild
  cases hCurrent
  cases hCont with
  | node hContNode =>
      cases hSync with
      | node hSyncNode =>
          unfold doLeaveEnd
          rw [hFrames]
          refine ⟨_, _, rfl, rfl, ?_, hRan _⟩
          exact
            { current := NodesAt.node
                ((hRan _).keeps _ _ hContNode)
              cont := NodesAt.empty
              sync := NodesAt.node
                ((hRan _).keeps _ _ hSyncNode)
              helper := rfl }

------------------------------------------------------------
-- Spawning
------------------------------------------------------------

/- Below a path, an order lists itself and its sync only. -/
def SyncBelow
    (o : OrderList) (addr : Nat → List Nat)
    (p : List Nat) : Prop :=
  ∀ n ∈ o.nodes, p <+: addr n →
    addr n = p ∨ p ++ [2] <+: addr n

theorem SyncBelow.of_leaf
    {o : OrderList} {addr : Nat → List Nat}
    {Expanded : List Nat → Prop} {p : List Nat}
    (hGrown : Grown o addr Expanded)
    (hLeaf : ¬ Expanded p) :
    SyncBelow o addr p :=
  fun _ hn hPrefix =>
    Or.inl (hGrown.eq_of_prefix hLeaf hn hPrefix)

/- Inserting the sync node of a path without branches. -/
theorem grown_insert_sync
    {o : OrderList} {addr : Nat → List Nat}
    {Expanded : List Nat → Prop} {p : List Nat} {n : Nat}
    (hGrown : Grown o addr Expanded)
    (hLeaf : ¬ Expanded p)
    (hn : n ∈ o.nodes) (hAddr : addr n = p) :
    ∃ addr',
      Grown (o.insert n).2 addr'
        (fun q => Expanded q ∨ q = p) ∧
      (∀ m ∈ o.nodes, addr' m = addr m) ∧
      addr' o.next = p ++ [2] ∧
      SyncBelow (o.insert n).2 addr' p := by
  have hBelow := SyncBelow.of_leaf hGrown hLeaf
  have hOld : ∀ m ∈ o.nodes,
      Function.update addr o.next (p ++ [2]) m = addr m :=
    fun m hm =>
      Function.update_of_ne (OrderList.ne_next hm) _ _
  refine ⟨_, hGrown.insert (c := 2) hn (Or.inl hAddr)
    fun m hm hPrefix => ?_, hOld,
    Function.update_self _ _ _, ?_⟩
  · rw [hGrown.eq_of_prefix hLeaf hm hPrefix, hAddr]
    exact Or.inl (le_refl p)
  · intro m hm hPrefix
    rcases (OrderList.mem_insert hn).mp hm with rfl | hm
    · rw [Function.update_self]
      exact Or.inr (List.prefix_refl _)
    · rw [hOld m hm] at hPrefix ⊢
      exact Or.inl (hGrown.eq_of_prefix hLeaf hm hPrefix)

/- Inserting the two other branches of a path. -/
theorem grown_insert_branches
    {o : OrderList} {addr : Nat → List Nat}
    {Expanded : List Nat → Prop} {p : List Nat} {n : Nat}
    (hGrown : Grown o addr Expanded)
    (hBelow : SyncBelow o addr p)
    (hn : n ∈ o.nodes) (hAddr : addr n = p) :
    ∃ addr',
      Grown ((o.insert n).2.insert o.next).2 addr'
        (fun q => Expanded q ∨ q = p) ∧
      (∀ m ∈ o.nodes, addr' m = addr m) ∧
      addr' o.next = p ++ [0] ∧
      addr' (o.next + 1) = p ++ [1] := by
  subst hAddr
  refine hGrown.insert_two (by decide) hn
    fun m hm hPrefix => ?_
  rcases hBelow m hm hPrefix with hEq | hSync
  · exact Or.inl hEq
  · exact Or.inr ⟨2, by decide, hSync⟩

theorem mem_insert_insert
    {o : OrderList} {n m : Nat} (hn : n ∈ o.nodes) :
    m ∈ ((o.insert n).2.insert o.next).2.nodes ↔
      m = o.next + 1 ∨ m = o.next ∨ m ∈ o.nodes := by
  have hNext : o.next ∈ (o.insert n).2.nodes :=
    (OrderList.mem_insert hn).mpr (Or.inl rfl)
  rw [OrderList.mem_insert hNext, OrderList.mem_insert hn]
  rfl

/- The layout after a path got branches. -/
def branched
    (L : Layout) (english hebrew : Nat → List Nat)
    (p : Path) : Layout where
  english := english
  hebrew := hebrew
  expanded := fun q => L.expanded q ∨ q = p

theorem not_expanded_english
    (hOpen : L.Open p) :
    ¬ ∃ q, L.expanded q ∧ Path.english q = Path.english p := by
  rintro ⟨q, hq, hEq⟩
  rw [Path.english_injective hEq] at hq
  exact hOpen p (List.prefix_refl p) hq

theorem not_expanded_hebrew
    (hOpen : L.Open p) :
    ¬ ∃ q, L.expanded q ∧ Path.hebrew q = Path.hebrew p := by
  rintro ⟨q, hq, hEq⟩
  rw [Path.hebrew_injective hEq] at hq
  exact hOpen p (List.prefix_refl p) hq

/- The new layout fits if both orders have grown below `p`. -/
theorem fits_branched
    {s' : ShadowStack} {english hebrew : Nat → List Nat}
    (hEnglish : Grown s'.english english fun q =>
      (∃ r, L.expanded r ∧ Path.english r = q) ∨
        q = Path.english p)
    (hHebrew : Grown s'.hebrew hebrew fun q =>
      (∃ r, L.expanded r ∧ Path.hebrew r = q) ∨
        q = Path.hebrew p) :
    (branched L english hebrew p).Fits s' where
  english := by
    refine hEnglish.mono ?_
    rintro q (⟨r, hr, hEq⟩ | rfl)
    · exact ⟨r, Or.inl hr, hEq⟩
    · exact ⟨p, Or.inr rfl, rfl⟩
  hebrew := by
    refine hHebrew.mono ?_
    rintro q (⟨r, hr, hEq⟩ | rfl)
    · exact ⟨r, Or.inl hr, hEq⟩
    · exact ⟨p, Or.inr rfl, rfl⟩

/-
  The sync nodes are there, or the first spawn makes them.
  The other fields of the frame stay.
-/
theorem firstOfGroup_spec
    (hFits : L.Fits s)
    {e h : Nat}
    (hNode : L.At s (e, h) p)
    (hSync : NodesAt L s parent.syncEnglish parent.syncHebrew
      pending)
    (hOpen : L.Open p) :
    ∃ s' L' syncEnglish syncHebrew,
      s.firstOfGroup parent e h =
        some ({ parent with
          syncEnglish := some syncEnglish
          syncHebrew := some syncHebrew }, s') ∧
      L'.At s' (syncEnglish, syncHebrew)
        (pending.getD (p ++ [.sync])) ∧
      Ran L s L' s' (fun q => q = p) [] ∧
      SyncBelow s'.english L'.english (Path.english p) ∧
      SyncBelow s'.hebrew L'.hebrew (Path.hebrew p) := by
  rcases parent with ⟨cE, cH, kE, kH, sE, sH, helper⟩
  simp only at hSync
  have hLeafE := not_expanded_english hOpen
  have hLeafH := not_expanded_hebrew hOpen
  cases hSync with
  | node hSyncNode =>
      refine ⟨s, L, _, _, rfl, hSyncNode, ?_,
        SyncBelow.of_leaf hFits.english hLeafE,
        SyncBelow.of_leaf hFits.hebrew hLeafH⟩
      exact (Ran.of_orders hFits rfl rfl
        ⟨[], by simp, List.Forall₂.nil⟩).mono
          fun _ hFalse => hFalse.elim
  | empty =>
      rcases grown_insert_sync hFits.english hLeafE
        hNode.mem_english hNode.english with
        ⟨english, hGrownE, hOldE, hNewE, hBelowE⟩
      rcases grown_insert_sync hFits.hebrew hLeafH
        hNode.mem_hebrew hNode.hebrew with
        ⟨hebrew, hGrownH, hOldH, hNewH, hBelowH⟩
      refine ⟨{ s with
          english := (s.english.insert e).2
          hebrew := (s.hebrew.insert h).2 },
        branched L english hebrew p, s.english.next,
        s.hebrew.next, rfl, ?_, ?_, hBelowE, hBelowH⟩
      · exact
          { mem_english :=
              (OrderList.mem_insert hNode.mem_english).mpr
                (Or.inl rfl)
            mem_hebrew :=
              (OrderList.mem_insert hNode.mem_hebrew).mpr
                (Or.inl rfl)
            english := hNewE.trans (by
              simp [Path.english, Branch.englishRank])
            hebrew := hNewH.trans (by
              simp [Path.hebrew, Branch.hebrewRank]) }
      · refine ⟨fits_branched hGrownE hGrownH, ?_, ?_,
          ⟨[], by simp, List.Forall₂.nil⟩⟩
        · intro n q hAt
          exact
            { mem_english :=
                (OrderList.mem_insert hNode.mem_english).mpr
                  (Or.inr hAt.mem_english)
              mem_hebrew :=
                (OrderList.mem_insert hNode.mem_hebrew).mpr
                  (Or.inr hAt.mem_hebrew)
              english :=
                (hOldE _ hAt.mem_english).trans hAt.english
              hebrew :=
                (hOldH _ hAt.mem_hebrew).trans hAt.hebrew }
        · intro q hq
          exact hq

/-
  The child and the continuation of a spawn: english lists
  the child first, hebrew the continuation.
-/
theorem spawn_spec
    (hFits : L.Fits s)
    {e h : Nat}
    (hNode : L.At s (e, h) p)
    (hBelowE :
      SyncBelow s.english L.english (Path.english p))
    (hBelowH :
      SyncBelow s.hebrew L.hebrew (Path.hebrew p))
    (frames : List FrameData) :
    let s' : ShadowStack :=
      { s with
        english :=
          ((s.english.insert e).2.insert s.english.next).2
        hebrew :=
          ((s.hebrew.insert h).2.insert s.hebrew.next).2
        frames := frames }
    ∃ L' : Layout,
      L'.At s' (s.english.next, s.hebrew.next + 1)
        (p ++ [.child]) ∧
      L'.At s' (s.english.next + 1, s.hebrew.next)
        (p ++ [.cont]) ∧
      Ran L s L' s' (fun q => q = p) [] := by
  intro s'
  rcases grown_insert_branches hFits.english hBelowE
    hNode.mem_english hNode.english with
    ⟨english, hGrownE, hOldE, hFirstE, hSecondE⟩
  rcases grown_insert_branches hFits.hebrew hBelowH
    hNode.mem_hebrew hNode.hebrew with
    ⟨hebrew, hGrownH, hOldH, hFirstH, hSecondH⟩
  have hMemE : ∀ m, m ∈ s'.english.nodes ↔
      m = s.english.next + 1 ∨ m = s.english.next ∨
        m ∈ s.english.nodes :=
    fun m => mem_insert_insert hNode.mem_english
  have hMemH : ∀ m, m ∈ s'.hebrew.nodes ↔
      m = s.hebrew.next + 1 ∨ m = s.hebrew.next ∨
        m ∈ s.hebrew.nodes :=
    fun m => mem_insert_insert hNode.mem_hebrew
  refine ⟨branched L english hebrew p, ?_, ?_,
    fits_branched hGrownE hGrownH, ?_, fun q hq => hq,
    ⟨[], by simp [s'], List.Forall₂.nil⟩⟩
  · exact
      { mem_english := (hMemE _).mpr (Or.inr (Or.inl rfl))
        mem_hebrew := (hMemH _).mpr (Or.inl rfl)
        english := hFirstE.trans (by
          simp [Path.english, Branch.englishRank])
        hebrew := hSecondH.trans (by
          simp [Path.hebrew, Branch.hebrewRank]) }
  · exact
      { mem_english := (hMemE _).mpr (Or.inl rfl)
        mem_hebrew := (hMemH _).mpr (Or.inr (Or.inl rfl))
        english := hSecondE.trans (by
          simp [Path.english, Branch.englishRank])
        hebrew := hFirstH.trans (by
          simp [Path.hebrew, Branch.hebrewRank]) }
  · intro n q hAt
    exact
      { mem_english :=
          (hMemE _).mpr (Or.inr (Or.inr hAt.mem_english))
        mem_hebrew :=
          (hMemH _).mpr (Or.inr (Or.inr hAt.mem_hebrew))
        english :=
          (hOldE _ hAt.mem_english).trans hAt.english
        hebrew := (hOldH _ hAt.mem_hebrew).trans hAt.hebrew }

theorem doDetachBegin_spec
    (hFits : L.Fits s)
    (hFrames : s.frames = parent :: rest)
    (hParent : FrameAt L s parent (some p) none pending false)
    (hOpen : L.Open p) :
    ∃ s' L' child parent', s.doDetachBegin = some s' ∧
      s'.frames = child :: parent' :: rest ∧
      FrameAt L' s' child (some (p ++ [.child])) none none
        true ∧
      FrameAt L' s' parent' none (some (p ++ [.cont]))
        (some (pending.getD (p ++ [.sync]))) false ∧
      Ran L s L' s' (fun q => q = p) [] := by
  rcases parent with ⟨cE, cH, kE, kH, sE, sH, helper⟩
  rcases hParent with ⟨hCurrent, hCont, hSync, hHelper⟩
  simp only at hCurrent hCont hSync hHelper
  subst hHelper
  cases hCont
  cases hCurrent with
  | @node e h _ hNode =>
      let group : FrameData :=
        ⟨some e, some h, none, none, sE, sH, false⟩
      have hGroupSync : NodesAt L s group.syncEnglish
          group.syncHebrew pending := hSync
      rcases firstOfGroup_spec hFits hNode hGroupSync hOpen with
        ⟨s₁, L₁, syncE, syncH, hGroup, hSyncNode, hFirst,
          hBelowE, hBelowH⟩
      let child : FrameData :=
        { currentEnglish := some s₁.english.next
          currentHebrew := some (s₁.hebrew.next + 1)
          contEnglish := none
          contHebrew := none
          syncEnglish := none
          syncHebrew := none
          helper := true }
      let parent' : FrameData :=
        { currentEnglish := none
          currentHebrew := none
          contEnglish := some (s₁.english.next + 1)
          contHebrew := some s₁.hebrew.next
          syncEnglish := some syncE
          syncHebrew := some syncH
          helper := false }
      rcases spawn_spec hFirst.fits (hFirst.keeps _ _ hNode)
        hBelowE hBelowH (child :: parent' :: rest) with
        ⟨L₂, hChild, hContNode, hSecond⟩
      refine ⟨{ s₁ with
          english :=
            ((s₁.english.insert e).2.insert
              s₁.english.next).2
          hebrew :=
            ((s₁.hebrew.insert h).2.insert s₁.hebrew.next).2
          frames := child :: parent' :: rest },
        L₂, child, parent', ?_, rfl, ?_, ?_, ?_⟩
      · unfold doDetachBegin
        rw [hFrames]
        simp only [group] at hGroup
        simp only [Bool.false_eq_true, if_false, hGroup]
        rfl
      · exact ⟨NodesAt.node hChild, NodesAt.empty,
          NodesAt.empty, rfl⟩
      · exact ⟨NodesAt.empty, NodesAt.node hContNode,
          NodesAt.node (hSecond.keeps _ _ hSyncNode), rfl⟩
      · exact (hFirst.trans hSecond).mono
          fun q hq => hq.elim id id

------------------------------------------------------------
-- Executions
------------------------------------------------------------

/- Two branches of a path are disjoint. -/
theorem branch_unique
    {q : Path} {x y : Branch}
    (hx : p ++ [x] <+: q) (hy : p ++ [y] <+: q) :
    x = y := by
  have hSame : p ++ [x] = p ++ [y] := by
    rcases List.prefix_or_prefix_of_prefix hx hy with h | h
    · exact h.eq_of_length (by simp)
    · exact (h.eq_of_length (by simp)).symm
  simpa using hSame

/- What lies below a pending sync is not in its branches. -/
theorem Pending.disjoint
    {sync q : Path}
    (hPending : Code.Pending p (some sync))
    (hSync : sync <+: q) : ¬ p <+: q := by
  intro hBelow
  rcases hPending sync rfl with ⟨r, x, hx, hr, rfl⟩
  exact hx (branch_unique (hr.trans hBelow) hSync)

/- The scope of a walk: its path, and its pending sync. -/
def WalkScope
    (p : Path) (pending : Option Path) (q : Path) : Prop :=
  p <+: q ∨ ∃ sync ∈ pending, sync <+: q

/-
  Executing the rest of a function follows its walk, and ends
  in the same frame at the end of the walk.
-/
theorem exec_spec
    (code : Code)
    (hFits : L.Fits s)
    (hFrames : s.frames = f :: rest)
    (hf : FrameAt L s f (some p) none pending false)
    (hPending : Code.Pending p pending)
    (hOpen : L.Open p)
    (hSyncOpen : ∀ sync ∈ pending, L.Open sync) :
    ∃ s' L' f', exec code s = some s' ∧
      s'.frames = f' :: rest ∧
      FrameAt L' s' f' (some (code.walk p pending).last)
        none none false ∧
      L'.Open (code.walk p pending).last ∧
      Ran L s L' s' (WalkScope p pending)
        ((code.walk p pending).block ++
          (code.walk p pending).afterSync) := by
  induction code generalizing s L f rest p pending with
  | done =>
      rcases strand_spec hFits hFrames hf with
        ⟨s₁, h₁, hFrames₁, hRan₁⟩
      rcases doSyncBegin_spec hRan₁.fits hFrames₁
        (hf.mono hRan₁.keeps) with
        ⟨s₂, f₂, h₂, hFrames₂, hf₂, hRan₂⟩
      rcases strand_spec hRan₂.fits hFrames₂ hf₂ with
        ⟨s₃, h₃, hFrames₃, hRan₃⟩
      refine ⟨s₃, L, f₂, ?_, hFrames₃, hf₂.mono hRan₃.keeps,
        ?_, ?_⟩
      · simp [exec, h₁, h₂, h₃]
      · cases pending with
        | none => exact hOpen
        | some sync => exact hSyncOpen sync rfl
      · refine ((hRan₁.trans hRan₂).trans hRan₃).mono ?_
        rintro q ((hFalse | hFalse) | hFalse) <;>
          exact hFalse.elim
  | sync rest' ih =>
      rcases strand_spec hFits hFrames hf with
        ⟨s₁, h₁, hFrames₁, hRan₁⟩
      rcases doSyncBegin_spec hRan₁.fits hFrames₁
        (hf.mono hRan₁.keeps) with
        ⟨s₂, f₂, h₂, hFrames₂, hf₂, hRan₂⟩
      have hNextOpen : L.Open (pending.getD p) := by
        cases pending with
        | none => exact hOpen
        | some sync => exact hSyncOpen sync rfl
      rcases ih hRan₂.fits hFrames₂ hf₂
        (Code.Pending.none _) hNextOpen
        (by rintro _ ⟨⟩) with
        ⟨s₃, L₃, f₃, h₃, hFrames₃, hf₃, hEnd, hRan₃⟩
      refine ⟨s₃, L₃, f₃, ?_, hFrames₃, hf₃, hEnd, ?_⟩
      · simp [exec, h₁, h₂, h₃]
      · refine ((hRan₁.trans hRan₂).trans hRan₃).mono ?_
        rintro q ((hFalse | hFalse) | (hBelow | ⟨_, ⟨⟩, _⟩))
        · exact hFalse.elim
        · exact hFalse.elim
        · cases pending with
          | none => exact Or.inl hBelow
          | some sync => exact Or.inr ⟨sync, rfl, hBelow⟩
  | call body rest' ihBody ihRest =>
      have hInner := Code.walk_bounds body p none
        (Code.Pending.none p)
      have hBelow := hInner.last_below
      rcases strand_spec hFits hFrames hf with
        ⟨s₁, h₁, hFrames₁, hRan₁⟩
      have hf₁ := hf.mono hRan₁.keeps
      rcases doEnterBegin_spec hRan₁.fits hFrames₁ hf₁ with
        ⟨s₂, g₂, h₂, hFrames₂, hg₂, hRan₂⟩
      rcases ihBody hRan₂.fits hFrames₂ hg₂
        (Code.Pending.none p) hOpen (by rintro _ ⟨⟩) with
        ⟨s₃, L₃, g₃, h₃, hFrames₃, hg₃, hEnd₃, hRan₃⟩
      have hf₃ := (hf₁.mono hRan₂.keeps).mono hRan₃.keeps
      rcases doLeaveEnd_call hRan₃.fits hFrames₃ hg₃ hf₃ with
        ⟨s₄, f₄, h₄, hFrames₄, hf₄, hRan₄⟩
      have hSyncOpen₃ : ∀ sync ∈ pending, L₃.Open sync := by
        intro sync hSync
        cases hSync
        refine hRan₃.stays_open (hSyncOpen sync rfl) ?_
        rintro q hq (hq' | ⟨_, ⟨⟩, _⟩)
        exact Pending.disjoint hPending hq hq'
      rcases ihRest hRan₄.fits hFrames₄ hf₄
        (hPending.mono hBelow) hEnd₃ hSyncOpen₃ with
        ⟨s₅, L₅, f₅, h₅, hFrames₅, hf₅, hEnd₅, hRan₅⟩
      refine ⟨s₅, L₅, f₅, ?_, hFrames₅, hf₅, hEnd₅, ?_⟩
      · simp [exec, h₁, h₂, h₃, h₄, h₅]
      · refine ((((hRan₁.trans hRan₂).trans
          hRan₃).trans hRan₄).trans hRan₅).weaken ?_
            (by simp [Code.walk])
        rintro q ((((hq | hq) | (hq | ⟨_, ⟨⟩, _⟩)) | hq) |
          (hq | hq))
        · exact hq.elim
        · exact hq.elim
        · exact Or.inl hq
        · exact hq.elim
        · exact Or.inl (hBelow.trans hq)
        · exact Or.inr hq
  | spawn body rest' ihBody ihRest =>
      have hInner := Code.walk_bounds body (p ++ [.child]) none
        (Code.Pending.none _)
      have hChildPending :=
        hPending.spawn (x := .child) (by decide)
      have hContPending :=
        hPending.spawn (x := .cont) (by decide)
      rcases strand_spec hFits hFrames hf with
        ⟨s₁, h₁, hFrames₁, hRan₁⟩
      have hf₁ := hf.mono hRan₁.keeps
      rcases doDetachBegin_spec hRan₁.fits hFrames₁ hf₁ hOpen
        with ⟨s₂, L₂, g₂, f₂, h₂, hFrames₂, hg₂, hf₂, hRan₂⟩
      -- What is below a branch of `p` is open in `L₂`.
      have hBranch : ∀ x : Branch, L₂.Open (p ++ [x]) := by
        intro x
        refine hRan₂.stays_open
          (fun q hq => hOpen q
            ((List.prefix_append _ _).trans hq)) ?_
        rintro q hq rfl
        have hLength := hq.length_le
        rw [List.length_append, List.length_singleton]
          at hLength
        omega
      have hSync₂ : L₂.Open (pending.getD (p ++ [.sync])) := by
        cases pending with
        | none => exact hBranch .sync
        | some sync =>
            refine hRan₂.stays_open (hSyncOpen sync rfl) ?_
            rintro q hq rfl
            exact Pending.disjoint hPending hq
              (List.prefix_refl _)
      rcases strand_spec hRan₂.fits hFrames₂ hg₂ with
        ⟨s₃, h₃, hFrames₃, hRan₃⟩
      have hg₃ := hg₂.mono hRan₃.keeps
      rcases doEnterBegin_spec hRan₃.fits hFrames₃ hg₃ with
        ⟨s₄, b₄, h₄, hFrames₄, hb₄, hRan₄⟩
      rcases ihBody hRan₄.fits hFrames₄ hb₄
        (Code.Pending.none _) (hBranch .child)
        (by rintro _ ⟨⟩) with
        ⟨s₅, L₅, b₅, h₅, hFrames₅, hb₅, hEnd₅, hRan₅⟩
      have hg₅ := (hg₃.mono hRan₄.keeps).mono hRan₅.keeps
      rcases doLeaveEnd_call hRan₅.fits hFrames₅ hb₅ hg₅ with
        ⟨s₆, g₆, h₆, hFrames₆, hg₆, hRan₆⟩
      rcases strand_spec hRan₆.fits hFrames₆ hg₆ with
        ⟨s₇, h₇, hFrames₇, hRan₇⟩
      have hf₇ := ((((hf₂.mono hRan₃.keeps).mono
        hRan₄.keeps).mono hRan₅.keeps).mono
          hRan₆.keeps).mono hRan₇.keeps
      rcases doLeaveEnd_spawn hRan₇.fits hFrames₇
        (hg₆.mono hRan₇.keeps).helper hf₇ with
        ⟨s₈, f₈, h₈, hFrames₈, hf₈, hRan₈⟩
      have hCont₅ : L₅.Open (p ++ [.cont]) := by
        refine hRan₅.stays_open (hBranch .cont) ?_
        rintro q hq (hq' | ⟨_, ⟨⟩, _⟩)
        exact absurd (branch_unique hq hq') (by decide)
      have hSync₅ : ∀ sync ∈
          some (pending.getD (p ++ [.sync])),
          L₅.Open sync := by
        rintro _ ⟨⟩
        refine hRan₅.stays_open hSync₂ ?_
        rintro q hq (hq' | ⟨_, ⟨⟩, _⟩)
        exact Pending.disjoint hChildPending hq hq'
      rcases ihRest hRan₈.fits hFrames₈ hf₈ hContPending
        hCont₅ hSync₅ with
        ⟨s₉, L₉, f₉, h₉, hFrames₉, hf₉, hEnd₉, hRan₉⟩
      refine ⟨s₉, L₉, f₉, ?_, hFrames₉, hf₉, hEnd₉, ?_⟩
      · simp [exec, h₁, h₂, h₃, h₄, h₅, h₆, h₇, h₈, h₉]
      · refine ((((((((hRan₁.trans hRan₂).trans hRan₃).trans
          hRan₄).trans hRan₅).trans hRan₆).trans hRan₇).trans
            hRan₈).trans hRan₉).weaken ?_
              (by simp [Code.walk])
        rintro q ((((((((hq | rfl) | hq) | hq) |
          (hq | ⟨_, ⟨⟩, _⟩)) | hq) | hq) | hq) | (hq | hq))
        · exact hq.elim
        · exact Or.inl (List.prefix_refl _)
        · exact hq.elim
        · exact hq.elim
        · exact Or.inl ((List.prefix_append _ _).trans hq)
        · exact hq.elim
        · exact hq.elim
        · exact hq.elim
        · exact Or.inl ((List.prefix_append _ _).trans hq)
        · rcases hq with ⟨_, ⟨⟩, hq⟩
          cases pending with
          | none =>
              exact Or.inl ((List.prefix_append _ _).trans hq)
          | some sync => exact Or.inr ⟨sync, rfl, hq⟩

------------------------------------------------------------
-- SP-Order
------------------------------------------------------------

/- The layout before any spawn. -/
def baseLayout : Layout where
  english := fun _ => []
  hebrew := fun _ => []
  expanded := fun _ => False

/- Related lists are related at every position. -/
private theorem exists_related
    {α β : Type*} {R : α → β → Prop}
    {xs : List α} {ys : List β}
    (hRelated : List.Forall₂ R xs ys)
    {k : Nat} {x : α} (hx : xs[k]? = some x) :
    ∃ y, ys[k]? = some y ∧ R x y := by
  rcases List.getElem?_eq_some_iff.mp hx with ⟨hk, rfl⟩
  have hk' : k < ys.length := hRelated.length_eq ▸ hk
  exact ⟨ys[k], List.getElem?_eq_getElem hk',
    hRelated.get hk hk'⟩

/- A whole program runs, along its walk. -/
theorem run_spec (main : Code) :
    ∃ (s : ShadowStack) (L : Layout),
      run main = some s ∧ L.Fits s ∧
      List.Forall₂ (L.At s) s.strands
        ((main.walk [] none).block ++
          (main.walk [] none).afterSync) := by
  have hFits : baseLayout.Fits initStrand :=
    ⟨Grown.singleton _ rfl, Grown.singleton _ rfl⟩
  have hNode : baseLayout.At initStrand (0, 0) [] :=
    { mem_english := List.mem_singleton.mpr rfl
      mem_hebrew := List.mem_singleton.mpr rfl
      english := rfl
      hebrew := rfl }
  rcases exec_spec main hFits rfl
    ⟨NodesAt.node hNode, NodesAt.empty, NodesAt.empty, rfl⟩
    (Code.Pending.none []) (fun _ _ hFalse => hFalse)
    (by rintro _ ⟨⟩) with
    ⟨s, L, f, hRun, -, -, -, hRan⟩
  rcases hRan.strands with ⟨nodes, hEq, hNodes⟩
  refine ⟨s, L, hRun, hRan.fits, ?_⟩
  rw [hEq]
  exact hNodes

def PrecedesInEnglish
    (s : ShadowStack) (x y : Nat × Nat) : Prop :=
  Precedes s.english.nodes x.1 y.1

def PrecedesInHebrew
    (s : ShadowStack) (x y : Nat × Nat) : Prop :=
  Precedes s.hebrew.nodes x.2 y.2

variable {x y : Nat × Nat} {q : Path}

theorem precedesInEnglish_iff
    (hFits : L.Fits s)
    (hx : L.At s x p) (hy : L.At s y q) :
    s.PrecedesInEnglish x y ↔
      Path.english p < Path.english q := by
  unfold PrecedesInEnglish
  rw [hFits.english.increasing.precedes_iff
    hx.mem_english hy.mem_english, hx.english, hy.english]

theorem precedesInHebrew_iff
    (hFits : L.Fits s)
    (hx : L.At s x p) (hy : L.At s y q) :
    s.PrecedesInHebrew x y ↔
      Path.hebrew p < Path.hebrew q := by
  unfold PrecedesInHebrew
  rw [hFits.hebrew.increasing.precedes_iff
    hx.mem_hebrew hy.mem_hebrew, hx.hebrew, hy.hebrew]

/- Different pairs of nodes stand at different paths. -/
theorem path_ne
    (hFits : L.Fits s)
    (hx : L.At s x p) (hy : L.At s y q)
    (hne : x ≠ y) : p ≠ q := by
  rintro rfl
  refine hne (Prod.ext ?_ ?_)
  · exact hFits.english.increasing.rank_injOn
      hx.mem_english hy.mem_english
      (hx.english.trans hy.english.symm)
  · exact hFits.hebrew.increasing.rank_injOn
      hx.mem_hebrew hy.mem_hebrew
      (hx.hebrew.trans hy.hebrew.symm)

/- What the orders say about an earlier and a later strand. -/
theorem orders_of_compose
    (hFits : L.Fits s)
    (hx : L.At s x p) (hy : L.At s y q)
    (hne : x ≠ y)
    {composition : Composition}
    (hHolds : composition.Holds p q) :
    (s.PrecedesInEnglish x y ∧
      ¬ s.PrecedesInEnglish y x) ∧
    (s.PrecedesInHebrew x y ↔ composition = .series) ∧
    (s.PrecedesInHebrew y x ↔ composition = .parallel) := by
  have hPath := path_ne hFits hx hy hne
  rw [precedesInEnglish_iff hFits hx hy,
    precedesInEnglish_iff hFits hy hx,
    precedesInHebrew_iff hFits hx hy,
    precedesInHebrew_iff hFits hy hx]
  cases composition with
  | series =>
      have hEnglish : Path.english p < Path.english q :=
        lt_of_le_of_ne hHolds.1
          (Path.english_injective.ne hPath)
      have hHebrew : Path.hebrew p < Path.hebrew q :=
        lt_of_le_of_ne hHolds.2
          (Path.hebrew_injective.ne hPath)
      simp [hEnglish, hHebrew, hEnglish.not_gt,
        hHebrew.not_gt]
  | parallel =>
      have hEnglish := hHolds.1
      have hHebrew := hHolds.2
      simp [hEnglish, hHebrew, hEnglish.not_gt,
        hHebrew.not_gt]

/-
  Every program runs to its end without a failed assertion,
  and the orders decide the relation of all its strands with
  different current nodes.
-/
theorem spOrder (main : Code) :
    ∃ s, run main = some s ∧
      s.strands.length = main.spTree.size ∧
      ∀ (i j : Nat) (x y : Nat × Nat),
        s.strands[i]? = some x → s.strands[j]? = some y →
        x ≠ y →
        (main.spTree.Precedes i j ↔
          s.PrecedesInEnglish x y ∧
            s.PrecedesInHebrew x y) ∧
        (main.spTree.Parallel i j ↔
          (s.PrecedesInEnglish x y ∧
            s.PrecedesInHebrew y x) ∨
          (s.PrecedesInEnglish y x ∧
            s.PrecedesInHebrew x y)) := by
  rcases run_spec main with ⟨s, L, hRun, hFits, hNodes⟩
  have hMatches := Code.matches_walk main []
  refine ⟨s, hRun, ?_, ?_⟩
  · rw [hNodes.length_eq, hMatches.length]
  · intro i j x y hx hy hne
    rcases exists_related hNodes hx with ⟨p, hp, hxAt⟩
    rcases exists_related hNodes hy with ⟨q, hq, hyAt⟩
    rcases lt_trichotomy i j with hij | rfl | hij
    · have hOrders := orders_of_compose hFits hxAt hyAt hne
        (hMatches.holds i j p q hij hp hq)
      simp [SpTree.Precedes, SpTree.Parallel, hij,
        hij.not_gt, hOrders]
    · rw [hx] at hy
      exact absurd (Option.some.inj hy) hne
    · have hOrders := orders_of_compose hFits hyAt hxAt
        hne.symm (hMatches.holds j i q p hij hq hp)
      simp [SpTree.Precedes, SpTree.Parallel, hij,
        hij.not_gt, hOrders]

/- A spawned child and the continuation of its parent. -/
theorem spOrder_spawn :
    ∃ s, run (.spawn .done .done) = some s ∧
      ∃ x y, s.strands[1]? = some x ∧
        s.strands[5]? = some y ∧
        ((Code.spTree (.spawn .done .done)).Parallel 1 5 ↔
          (s.PrecedesInEnglish x y ∧
            s.PrecedesInHebrew y x) ∨
          (s.PrecedesInEnglish y x ∧
            s.PrecedesInHebrew x y)) := by
  rcases spOrder (.spawn .done .done) with
    ⟨s, hRun, -, hOrders⟩
  have hStrands : (run (.spawn .done .done)).map strands =
      some [(0, 0), (2, 3), (2, 3), (2, 3), (2, 3), (3, 2),
        (1, 1)] := by
    decide
  rw [hRun, Option.map_some, Option.some_inj] at hStrands
  refine ⟨s, hRun, (2, 3), (3, 2), ?_, ?_, ?_⟩
  · rw [hStrands]
    rfl
  · rw [hStrands]
    rfl
  · exact (hOrders 1 5 (2, 3) (3, 2)
      (by rw [hStrands]; rfl) (by rw [hStrands]; rfl)
      (by decide)).2

end ShadowStack

end PRacer
