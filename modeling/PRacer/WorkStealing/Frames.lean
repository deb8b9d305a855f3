import PRacer.WorkStealing.Insertions
import PRacer.WorkStealing.TaskTips

/-
  What the frames of a worker are: those from the head down
  to the tail are its own, and those below are copies of the
  frames of ancestors.

  Main declarations:
    * `View`, `View.Below`, `View.Own`
    * `View.Keeps`, `View.Below.carry`, `View.Own.carry`
    * `View.Own.theft`, `View.Own.stealTop_eq`
-/

------------------------------------------------------------
-- Chains of Frames
------------------------------------------------------------

namespace PRacer

open Foundations

namespace WorkStealing

/- The orders, without the frames of any worker. -/
def State.orders {Worker : Type} (s : State Worker) :
    ShadowStack where
  english := s.english
  hebrew := s.hebrew
  frames := []
  strands := []

/- What the frames of a worker are about. -/
structure View (Worker : Type) where
  layout : Layout
  orders : ShadowStack
  acts : Heap (Activation Worker)
  tasks : Tasks

namespace View

variable {Worker : Type} {V V' : View Worker}
variable {w v : Worker} {a b c tail : Nat} {x y : Task}
variable {f g : FrameData} {fs : List FrameData}
variable {dq : List Nat} {current cont sync : Option Path}
variable {helper : Bool}

/- Where the nodes of a frame stand. -/
def FrameAt
    (V : View Worker) (f : FrameData)
    (current cont sync : Option Path) (helper : Bool) :
    Prop :=
  V.layout.FrameAt V.orders f current cont sync helper

/- A callee, or a helper, and its parent. -/
def Link
    (V : View Worker) (c : Nat) (helper : Bool)
    (b : Nat) (y : Task) : Prop :=
  (∃ x, V.tasks.get c = some x ∧ x.parent = some b ∧
    x.rest.isHelper = helper) ∧
  V.tasks.get b = some y

/-
  The frames below the frame of a task.  The continuation of
  a spawn among them was stolen.
-/
inductive Below (V : View Worker) :
    Nat → List FrameData → Prop
| root {c : Nat} {x : Task}
    (hGet : V.tasks.get c = some x)
    (hRoot : x.parent = none) :
    Below V c []
| caller {c b : Nat} {y : Task} {f : FrameData}
    {fs : List FrameData} {current : Option Path}
    (hLink : V.Link c false b y)
    (hFrame :
      V.FrameAt f current none y.pending y.rest.isHelper)
    (hBelow : Below V b fs) :
    Below V c (f :: fs)
| spawner {c b : Nat} {y : Task} {f : FrameData}
    {fs : List FrameData} {cont : Path}
    (hLink : V.Link c true b y)
    (hStolen : ∀ act v, V.acts.get b = some act →
      act.control ≠ .spawned c v)
    (hFrame : V.FrameAt f none (some cont) y.pending false)
    (hBelow : Below V b fs) :
    Below V c (f :: fs)

/-
  The same, with the deque from its youngest frame on, and
  the tail.  Above the tail nothing was stolen.
-/
inductive Own (V : View Worker) (w : Worker) :
    Nat → List Nat → Nat → List FrameData → Prop
| bottom {c : Nat} {fs : List FrameData}
    (hBelow : V.Below c fs) :
    Own V w c [] fs.length fs
| caller {c b tail : Nat} {y : Task} {f : FrameData}
    {fs : List FrameData} {dq : List Nat}
    {act actB : Activation Worker} {current : Option Path}
    (hLink : V.Link c false b y)
    (hAct : V.acts.get c = some act)
    (hUnstolen : act.unsynched = true → dq = [])
    (hActB : V.acts.get b = some actB)
    (hCalling : actB.control = .calling c)
    (hFrame :
      V.FrameAt f current none y.pending y.rest.isHelper)
    (hOwn : Own V w b dq tail fs) :
    Own V w c dq tail (f :: fs)
| spawner {c b tail : Nat} {y : Task} {f : FrameData}
    {fs : List FrameData} {dq : List Nat}
    {actB : Activation Worker}
    (hLink : V.Link c true b y)
    (hActB : V.acts.get b = some actB)
    (hSpawned : actB.control = .spawned c w)
    (hFrame :
      V.FrameAt f none (some y.path) y.pending false)
    (hOwn : Own V w b dq tail fs) :
    Own V w c (b :: dq) tail (f :: fs)

------------------------------------------------------------
-- What Steps Keep
------------------------------------------------------------

/- The task is there, and a theft did not change that. -/
def Stays (V V' : View Worker) (c : Nat) : Prop :=
  V'.tasks.get c ≠ none ∧
    ∃ act act', V.acts.get c = some act ∧
      V'.acts.get c = some act' ∧
      (act'.unsynched = true → act.unsynched = true)

/- What a step keeps for copies of frames. -/
structure Copies (V V' : View Worker) : Prop where
  english :
    ∀ n p, V.layout.EnglishAt V.orders n p →
      V'.layout.EnglishAt V'.orders n p
  hebrew :
    ∀ n p, V.layout.HebrewAt V.orders n p →
      V'.layout.HebrewAt V'.orders n p
  carried : V.tasks.Carried V'.tasks
  stolen :
    ∀ b c act v, V'.acts.get b = some act →
      act.control = .spawned c v → V.tasks.get c ≠ none →
      ∃ act', V.acts.get b = some act' ∧
        act'.control = .spawned c v

/- What a step keeps for the frames of a worker. -/
structure Keeps
    (V V' : View Worker) (w : Worker) : Prop
    extends Copies V V' where
  own :
    ∀ b c act, V.acts.get b = some act →
      (act.control = .calling c ∨
        act.control = .spawned c w) →
      V'.tasks.get c ≠ none →
      ∃ act', V'.acts.get b = some act' ∧
        act'.control = act.control ∧
        (act'.unsynched = true → act.unsynched = true)
  path :
    ∀ b c act y, V.acts.get b = some act →
      act.control = .spawned c w → V'.tasks.get c ≠ none →
      V.tasks.get b = some y →
      ∃ y', V'.tasks.get b = some y' ∧ y'.path = y.path

theorem Copies.nodes
    (h : Copies V V') (n : Nat × Nat) (p : Path)
    (hAt : V.layout.At V.orders n p) :
    V'.layout.At V'.orders n p := by
  rcases n with ⟨e, k⟩
  exact Layout.At.of_halves (h.english e p hAt.halves.1)
    (h.hebrew k p hAt.halves.2)

theorem FrameAt.keep
    (h : V.FrameAt f current cont sync helper)
    (hCopies : Copies V V') :
    V'.FrameAt f current cont sync helper :=
  h.mono hCopies.nodes

/- A link stays as long as its child does. -/
theorem Link.carry
    (h : V.Link c helper b y)
    (hCarried : V.tasks.Carried V'.tasks)
    (hLive : V'.tasks.get c ≠ none) :
    ∃ y', V'.Link c helper b y' ∧ y'.pending = y.pending ∧
      y'.rest.isHelper = y.rest.isHelper := by
  rcases h with ⟨⟨x, hx, hParent, hHelper⟩, hy⟩
  rcases Option.ne_none_iff_exists'.mp hLive with ⟨x', hx'⟩
  rcases hCarried.task c x' hx' (Heap.lt_next hx) with
    ⟨u, hu, hParent', hHelper'⟩
  obtain rfl := Option.some.inj (hx.symm.trans hu)
  rcases hCarried.parent c x b hx hLive hParent with
    ⟨u, y', hu, hy', hPending⟩
  obtain rfl := Option.some.inj (hy.symm.trans hu)
  rcases hCarried.task b y' hy' (Heap.lt_next hy) with
    ⟨u, hu, -, hHelperB⟩
  obtain rfl := Option.some.inj (hy.symm.trans hu)
  exact ⟨y', ⟨⟨x', hx', hParent'.trans hParent,
    hHelper'.trans hHelper⟩, hy'⟩, hPending, hHelperB⟩

theorem Link.live
    (h : V.Link c helper b y) :
    V.tasks.get c ≠ none := by
  rcases h with ⟨⟨x, hx, -⟩, -⟩
  simp [hx]

theorem Link.parent_live
    (h : V.Link c helper b y) :
    V.tasks.get b ≠ none := by
  simp [h.2]

theorem Below.carry
    (h : V.Below c fs)
    (hCopies : Copies V V')
    (hLive : V'.tasks.get c ≠ none) :
    V'.Below c fs := by
  induction h with
  | @root c x hGet hRoot =>
      rcases Option.ne_none_iff_exists'.mp hLive with ⟨x', hx'⟩
      rcases hCopies.carried.task c x' hx' (Heap.lt_next hGet)
        with ⟨u, hu, hParent, -⟩
      obtain rfl := Option.some.inj (hGet.symm.trans hu)
      exact Below.root hx' (hParent.trans hRoot)
  | caller hLink hFrame _ ih =>
      rcases hLink.carry hCopies.carried hLive with
        ⟨y', hLink', hPending, hHelper⟩
      have hFrame' := hFrame.keep hCopies
      rw [← hPending, ← hHelper] at hFrame'
      exact Below.caller hLink' hFrame' (ih hLink'.parent_live)
  | @spawner c b y f fs cont hLink hStolen hFrame _ ih =>
      rcases hLink.carry hCopies.carried hLive with
        ⟨y', hLink', hPending, -⟩
      refine Below.spawner hLink' ?_ (?_ : V'.FrameAt f none
        (some cont) y'.pending false) (ih hLink'.parent_live)
      · intro act v hAct hSpawned
        rcases hCopies.stolen b c act v hAct hSpawned
          hLink.live with ⟨act', hAct', hSpawned'⟩
        exact hStolen act' v hAct' hSpawned'
      · rw [hPending]
        exact hFrame.keep hCopies

theorem Own.carry
    (h : V.Own w c dq tail fs)
    (hKeeps : Keeps V V' w)
    (hStays : V.Stays V' c) :
    V'.Own w c dq tail fs := by
  induction h with
  | bottom hBelow =>
      exact Own.bottom (hBelow.carry hKeeps.toCopies hStays.1)
  | @caller c b tail y f fs dq act actB _ hLink hAct
      hUnstolen hActB hCalling hFrame _ ih =>
      rcases hLink.carry hKeeps.carried hStays.1 with
        ⟨y', hLink', hPending, hHelper⟩
      rcases hKeeps.own b c actB hActB (Or.inl hCalling)
        hStays.1 with ⟨actB', hActB', hControl, hSame⟩
      rcases hStays with ⟨-, u, act', hu, hAct', hSynched⟩
      obtain rfl := Option.some.inj (hAct.symm.trans hu)
      have hFrame' := hFrame.keep hKeeps.toCopies
      rw [← hPending, ← hHelper] at hFrame'
      exact Own.caller hLink' hAct'
        (fun hTrue => hUnstolen (hSynched hTrue)) hActB'
        (hControl.trans hCalling) hFrame'
        (ih ⟨hLink'.parent_live, actB, actB', hActB, hActB',
          hSame⟩)
  | @spawner c b tail y f fs dq actB hLink hActB hSpawned
      hFrame _ ih =>
      rcases hLink.carry hKeeps.carried hStays.1 with
        ⟨y', hLink', hPending, -⟩
      rcases hKeeps.own b c actB hActB (Or.inr hSpawned)
        hStays.1 with ⟨actB', hActB', hControl, hSame⟩
      rcases hKeeps.path b c actB y hActB hSpawned hStays.1
        hLink.2 with ⟨u, hu, hPath⟩
      obtain rfl := Option.some.inj (hu.symm.trans hLink'.2)
      have hFrame' := hFrame.keep hKeeps.toCopies
      rw [← hPending, ← hPath] at hFrame'
      exact Own.spawner hLink' hActB'
        (hControl.trans hSpawned) hFrame'
        (ih ⟨hLink'.parent_live, actB, actB', hActB, hActB',
          hSame⟩)

------------------------------------------------------------
-- Calls and Returns
------------------------------------------------------------

theorem Link.eq
    (h : V.Link c helper b y)
    (hGet : V.tasks.get c = some x) :
    x.parent = some b ∧ x.rest.isHelper = helper := by
  rcases h with ⟨⟨u, hu, hParent, hHelper⟩, -⟩
  obtain rfl := Option.some.inj (hGet.symm.trans hu)
  exact ⟨hParent, hHelper⟩

/- A task has one parent. -/
theorem Link.unique
    {helper' : Bool} {b' : Nat} {y' : Task}
    (h : V.Link c helper b y)
    (h' : V.Link c helper' b' y') :
    helper = helper' ∧ b = b' ∧ y = y' := by
  rcases h' with ⟨⟨x, hx, hParent, hHelper⟩, hy'⟩
  rcases h.eq hx with ⟨hParent', hHelper'⟩
  obtain rfl := Option.some.inj (hParent.symm.trans hParent')
  exact ⟨hHelper'.symm.trans hHelper, rfl,
    Option.some.inj (h.2.symm.trans hy')⟩

theorem Own.tail_le
    (h : V.Own w c dq tail fs) :
    tail ≤ fs.length := by
  induction h with
  | bottom _ => exact Nat.le_refl _
  | caller _ _ _ _ _ _ _ ih => exact Nat.le_succ_of_le ih
  | spawner _ _ _ _ _ ih => exact Nat.le_succ_of_le ih

/- The first task is alone on the stack. -/
theorem Own.of_root
    (h : V.Own w c dq tail fs)
    (hGet : V.tasks.get c = some x)
    (hRoot : x.parent = none) :
    fs = [] ∧ dq = [] := by
  have hNoLink : ∀ helper b y, ¬ V.Link c helper b y := by
    intro helper b y hLink
    have hParent := (hLink.eq hGet).1
    rw [hRoot] at hParent
    cases hParent
  cases h with
  | bottom hBelow =>
      cases hBelow with
      | root _ _ => exact ⟨rfl, rfl⟩
      | caller hLink _ _ => exact absurd hLink (hNoLink _ _ _)
      | spawner hLink _ _ _ =>
          exact absurd hLink (hNoLink _ _ _)
  | caller hLink _ _ _ _ _ _ =>
      exact absurd hLink (hNoLink _ _ _)
  | spawner hLink _ _ _ _ => exact absurd hLink (hNoLink _ _ _)

/- The frame of the caller, and those below it. -/
theorem Own.pop_call
    (h : V.Own w c dq tail fs)
    (hLink : V.Link c false b y) :
    ∃ f fs' current, fs = f :: fs' ∧
      V.FrameAt f current none y.pending y.rest.isHelper ∧
      V.Own w b dq (min tail fs'.length) fs' := by
  cases h with
  | bottom hBelow =>
      cases hBelow with
      | root hGet hRoot =>
          have hParent := (hLink.eq hGet).1
          rw [hRoot] at hParent
          cases hParent
      | @caller _ _ _ f fs' current hLink' hFrame hBelow =>
          rcases hLink.unique hLink' with ⟨-, rfl, rfl⟩
          refine ⟨f, fs', current, rfl, hFrame, ?_⟩
          simpa using Own.bottom (w := w) hBelow
      | spawner hLink' _ _ _ => cases (hLink.unique hLink').1
  | @caller _ _ _ _ f fs' _ _ _ current hLink' _ _ _ _ hFrame
      hOwn =>
      rcases hLink.unique hLink' with ⟨-, rfl, rfl⟩
      refine ⟨f, fs', current, rfl, hFrame, ?_⟩
      rwa [Nat.min_eq_left hOwn.tail_le]
  | spawner hLink' _ _ _ _ => cases (hLink.unique hLink').1

/- The frame of a parent whose continuation is there. -/
theorem Own.pop_spawn
    (h : V.Own w c (b :: dq) tail fs)
    (hGet : V.tasks.get c = some x)
    (hHelper : x.rest.isHelper = true) :
    ∃ y f fs' act, fs = f :: fs' ∧ V.Link c true b y ∧
      V.acts.get b = some act ∧
      act.control = .spawned c w ∧
      V.FrameAt f none (some y.path) y.pending false ∧
      V.Own w b dq tail fs' := by
  cases h with
  | caller hLink _ _ _ _ _ _ =>
      have hFalse := (hLink.eq hGet).2
      rw [hHelper] at hFalse
      cases hFalse
  | spawner hLink hActB hSpawned hFrame hOwn =>
      exact ⟨_, _, _, _, rfl, hLink, hActB, hSpawned, hFrame,
        hOwn⟩

/- The frame of a parent whose continuation was stolen. -/
theorem Own.pop_stolen
    (h : V.Own w c [] tail fs)
    (hLink : V.Link c true b y) :
    ∃ f fs' cont, fs = f :: fs' ∧
      (∀ act v, V.acts.get b = some act →
        act.control ≠ .spawned c v) ∧
      V.FrameAt f none (some cont) y.pending false ∧
      V.Below b fs' ∧ tail = fs'.length + 1 := by
  cases h with
  | bottom hBelow =>
      cases hBelow with
      | root hGet hRoot =>
          have hParent := (hLink.eq hGet).1
          rw [hRoot] at hParent
          cases hParent
      | caller hLink' _ _ => cases (hLink.unique hLink').1
      | spawner hLink' hStolen hFrame hBelow =>
          rcases hLink.unique hLink' with ⟨-, rfl, rfl⟩
          exact ⟨_, _, _, rfl, hStolen, hFrame, hBelow, rfl⟩
  | caller hLink' _ _ _ _ _ _ => cases (hLink.unique hLink').1

/- Below a function that was stolen there is no deque. -/
theorem Own.of_unsynched
    (h : V.Own w c dq tail fs)
    (hGet : V.tasks.get c = some x)
    (hHelper : x.rest.isHelper = false)
    {act : Activation Worker}
    (hAct : V.acts.get c = some act)
    (hUnsynched : act.unsynched = true) :
    dq = [] := by
  cases h with
  | bottom hBelow => rfl
  | caller _ hAct' hUnstolen _ _ _ _ =>
      obtain rfl := Option.some.inj (hAct.symm.trans hAct')
      exact hUnstolen hUnsynched
  | spawner hLink _ _ _ _ =>
      have hTrue := (hLink.eq hGet).2
      rw [hHelper] at hTrue
      cases hTrue

------------------------------------------------------------
-- Thefts
------------------------------------------------------------

/- Without a deque, the frames are below the task. -/
theorem Own.to_below
    (h : V.Own w c [] tail fs) :
    V.Below c fs := by
  generalize hNil : ([] : List Nat) = dq at h
  induction h with
  | bottom hBelow => exact hBelow
  | caller hLink _ _ _ _ hFrame _ ih =>
      exact Below.caller hLink hFrame (ih hNil)
  | spawner _ _ _ _ _ _ => cases hNil

/- Then any worker can have them. -/
theorem Own.give
    {u : Worker}
    (h : V.Own w c [] tail fs)
    (hKeeps : Keeps V V' v)
    (hLive : V'.tasks.get c ≠ none)
    (hAct : ∀ act, V.acts.get c = some act →
      V'.acts.get c ≠ none) :
    V'.Own u c [] tail fs := by
  generalize hNil : ([] : List Nat) = dq at h
  induction h with
  | bottom hBelow =>
      exact Own.bottom (hBelow.carry hKeeps.toCopies hLive)
  | @caller c b tail y f fs dq act actB _ hLink hActC _ hActB
      hCalling hFrame _ ih =>
      subst hNil
      rcases hLink.carry hKeeps.carried hLive with
        ⟨y', hLink', hPending, hHelper⟩
      rcases hKeeps.own b c actB hActB (Or.inl hCalling) hLive
        with ⟨actB', hActB', hControl, -⟩
      rcases Option.ne_none_iff_exists'.mp (hAct act hActC)
        with ⟨act', hAct'⟩
      have hFrame' := hFrame.keep hKeeps.toCopies
      rw [← hPending, ← hHelper] at hFrame'
      exact Own.caller hLink' hAct' (fun _ => rfl) hActB'
        (hControl.trans hCalling) hFrame'
        (ih hLink'.parent_live (fun _ _ => by simp [hActB'])
          rfl)
  | spawner _ _ _ _ _ _ => cases hNil

theorem Own.lt
    {main : Code}
    (hTree : Tasks.Tree main V.tasks)
    (h : V.Own w c dq tail fs) :
    ∀ b ∈ dq, b < c := by
  have hLink : ∀ {c b : Nat} {helper : Bool} {y : Task},
      V.Link c helper b y → b < c := by
    rintro c b helper y ⟨⟨x, hx, hParent, -⟩, -⟩
    rcases hTree.child c x b hx hParent with ⟨_, -, hChild⟩
    exact hChild.lt
  induction h with
  | bottom _ => simp
  | caller hLink' _ _ _ _ _ _ ih =>
      intro b hb
      exact (ih b hb).trans (hLink hLink')
  | spawner hLink' _ _ _ _ ih =>
      intro b hb
      rcases List.mem_cons.mp hb with rfl | hb
      · exact hLink hLink'
      · exact (ih b hb).trans (hLink hLink')

/- No frame between the tail and the head is a helper. -/
def Plain (tail : Nat) (fs : List FrameData) : Prop :=
  ∀ k f, tail < k → fs.reverse[k]? = some f →
    f.helper = false

theorem Plain.cons
    (h : Plain tail fs)
    (hf : tail < fs.length → f.helper = false) :
    Plain tail (f :: fs) := by
  intro k g hk hg
  rw [List.reverse_cons] at hg
  by_cases hkl : k < fs.length
  · rw [List.getElem?_append_left (by simpa using hkl)] at hg
    exact h k g hk hg
  · have hEq : k = fs.length := by
      have hLt := (List.getElem?_eq_some_iff.mp hg).1
      simp only [List.length_append, List.length_reverse,
        List.length_singleton] at hLt
      omega
    subst hEq
    rw [List.getElem?_append_right (by simp)] at hg
    simp only [List.length_reverse, Nat.sub_self,
      List.getElem?_cons_zero, Option.some.injEq] at hg
    exact hg ▸ hf hk

theorem Own.plain
    (h : V.Own w c [] tail fs) :
    Plain tail fs := by
  generalize hNil : ([] : List Nat) = dq at h
  induction h with
  | @bottom _ fs _ =>
      intro k f hk hf
      have hLt := (List.getElem?_eq_some_iff.mp hf).1
      rw [List.length_reverse] at hLt
      omega
  | @caller c b tail y f fs dq _ _ _ hLink _ _ _ _ hFrame
      hOwn ih =>
      refine (ih hNil).cons fun hLt => ?_
      cases hOwn with
      | bottom _ => exact absurd hLt (Nat.lt_irrefl _)
      | caller hLinkB _ _ _ _ _ _ =>
          rw [hFrame.helper]
          exact (hLinkB.eq hLink.2).2
      | spawner _ _ _ _ _ => cases hNil
  | spawner _ _ _ _ _ _ => cases hNil

/- A spawner is no helper. -/
theorem Link.not_helper
    {main : Code}
    (hTree : Tasks.Tree main V.tasks)
    (hLink : V.Link c true b y) :
    y.rest.isHelper = false := by
  rcases hLink with ⟨⟨x, hx, hParent, hHelper⟩, hy⟩
  rcases hTree.child c x b hx hParent with ⟨u, hu, hChild⟩
  obtain rfl := Option.some.inj (hy.symm.trans hu)
  have hOk := hTree.ok b y hy
  by_contra hNot
  exact hChild.spawned hHelper
    (hOk.helper (by simpa using hNot))

/- A thief took the continuation of one task. -/
structure Theft (V V' : View Worker) (a : Nat) : Prop where
  layout : V'.layout = V.layout
  orders : V'.orders = V.orders
  tasks : V'.tasks = V.tasks
  other : ∀ b, b ≠ a → V'.acts.get b = V.acts.get b
  taken :
    ∀ act c v, V'.acts.get a = some act →
      act.control ≠ .spawned c v

namespace Theft

theorem frameAt
    (h : Theft V V' a)
    (hFrame : V.FrameAt f current cont sync helper) :
    V'.FrameAt f current cont sync helper := by
  unfold FrameAt at *
  rw [h.layout, h.orders]
  exact hFrame

theorem link
    (h : Theft V V' a)
    (hLink : V.Link c helper b y) :
    V'.Link c helper b y := by
  unfold Link at *
  rw [h.tasks]
  exact hLink

theorem copies
    {main : Code}
    (h : Theft V V' a)
    (hTree : Tasks.Tree main V.tasks) :
    Copies V V' where
  english n p hAt := by
    rw [h.layout, h.orders]
    exact hAt
  hebrew n p hAt := by
    rw [h.layout, h.orders]
    exact hAt
  carried := by
    rw [h.tasks]
    exact Tasks.Carried.refl hTree
  stolen b c act v hAct hSpawned _ := by
    by_cases hba : b = a
    · subst hba
      exact absurd hSpawned (h.taken act c v hAct)
    · exact ⟨act, (h.other b hba).symm.trans hAct, hSpawned⟩

end Theft

/-
  The oldest continuation of a deque: its frame, the helper
  frame above it, and the frames below it.
-/
theorem Own.theft
    {main : Code}
    (hTree : Tasks.Tree main V.tasks)
    (hTheft : Theft V V' a)
    (h : V.Own w c (dq ++ [a]) tail fs)
    (hHelper : ∀ b y, V.Link c true b y → g.helper = true) :
    ∃ above g' f below d y act,
      g :: fs = above ++ g' :: f :: below ∧
      g'.helper = true ∧
      V.Link d true a y ∧
      V.acts.get a = some act ∧
      act.control = .spawned d w ∧
      V.FrameAt f none (some y.path) y.pending false ∧
      V.Own w a [] tail below ∧
      V'.Own w c dq (below.length + 1) fs := by
  generalize hDeque : dq ++ [a] = deque at h
  induction h generalizing dq g with
  | bottom _ => simp at hDeque
  | @caller c b tail y f fs deque act actB current hLink hAct
      hUnstolen hActB hCalling hFrame hOwn ih =>
      have hMem : a ∈ deque := by
        rw [← hDeque]
        simp
      have hab : a < b := hOwn.lt hTree a hMem
      have hac : a < c :=
        (Own.caller hLink hAct hUnstolen hActB hCalling
          hFrame hOwn).lt hTree a hMem
      have hHelper' : ∀ b' y', V.Link b true b' y' →
          f.helper = true := by
        intro b' y' hLink'
        rw [hFrame.helper]
        exact (hLink'.eq hLink.2).2
      rcases ih hHelper' hDeque with
        ⟨above, g', f', below, d, y', actA, hSplit, hRest⟩
      rcases hRest with ⟨h₁, h₂, h₃, h₄, h₅, h₆, h₇⟩
      refine ⟨g :: above, g', f', below, d, y', actA, ?_, h₁,
        h₂, h₃, h₄, h₅, h₆, ?_⟩
      · rw [hSplit]
        rfl
      · exact Own.caller (hTheft.link hLink)
          ((hTheft.other c (Nat.ne_of_gt hac)).trans hAct)
          (fun hTrue => absurd (hUnstolen hTrue)
            (by rw [← hDeque]; simp))
          ((hTheft.other b (Nat.ne_of_gt hab)).trans hActB)
          hCalling (hTheft.frameAt hFrame) h₇
  | @spawner c b tail y f fs deque actB hLink hActB hSpawned
      hFrame hOwn ih =>
      cases dq with
      | nil =>
          obtain ⟨rfl, rfl⟩ : a = b ∧ [] = deque := by
            simpa using hDeque
          refine ⟨[], g, f, fs, c, y, actB, rfl,
            hHelper a y hLink, hLink, hActB, hSpawned, hFrame,
            hOwn, ?_⟩
          have hBelow := hOwn.to_below.carry
            (hTheft.copies hTree)
            (hTheft.link hLink).parent_live
          exact Own.bottom (Below.spawner (hTheft.link hLink)
            (fun act v hAct => hTheft.taken act c v hAct)
            (hTheft.frameAt hFrame) hBelow)
      | cons b' dq =>
          obtain ⟨rfl, rfl⟩ : b' = b ∧ dq ++ [a] = deque := by
            simpa using hDeque
          have hab : a < b' := hOwn.lt hTree a (by simp)
          have hHelper' : ∀ b y', V.Link b' true b y' →
              f.helper = true := by
            intro b y' hLink'
            have hFalse := hLink.not_helper hTree
            rw [(hLink'.eq hLink.2).2] at hFalse
            cases hFalse
          rcases ih hHelper' rfl with
            ⟨above, g', f', below, d, y', actA, hSplit, hRest⟩
          rcases hRest with ⟨h₁, h₂, h₃, h₄, h₅, h₆, h₇⟩
          refine ⟨g :: above, g', f', below, d, y', actA, ?_,
            h₁, h₂, h₃, h₄, h₅, h₆, ?_⟩
          · rw [hSplit]
            rfl
          · exact Own.spawner (hTheft.link hLink)
              ((hTheft.other b' (Nat.ne_of_gt hab)).trans hActB)
              hSpawned (hTheft.frameAt hFrame) h₇

/- What a thief gets, and the new tail of its victim. -/
theorem stealTop_eq
    {above below : List FrameData}
    (hHelper : g.helper = true)
    (hTail : tail ≤ below.length)
    (hPlain : Plain tail (f :: below)) :
    stealTop (above ++ g :: f :: below) tail =
      some (f :: below, below.length + 1) := by
  have hReverse : (above ++ g :: f :: below).reverse =
      (f :: below).reverse ++ g :: above.reverse := by
    simp
  have hDrop : ((f :: below).reverse ++
      g :: above.reverse).drop (tail + 1) =
      (f :: below).reverse.drop (tail + 1) ++
        g :: above.reverse :=
    List.drop_append_of_le_length (by simpa using hTail)
  have hNone : ∀ x ∈ (f :: below).reverse.drop (tail + 1),
      x.helper = false := by
    intro x hx
    rcases List.mem_iff_getElem?.mp hx with ⟨k, hk⟩
    rw [List.getElem?_drop] at hk
    exact hPlain (tail + 1 + k) x (by omega) hk
  have hIdx : ((f :: below).reverse.drop (tail + 1) ++
      g :: above.reverse).findIdx FrameData.helper =
      below.length - tail := by
    rw [List.findIdx_append,
      List.findIdx_eq_length_of_false hNone,
      if_neg (Nat.lt_irrefl _), List.findIdx_cons, hHelper]
    simp only [cond_true, List.length_drop,
      List.length_reverse, List.length_cons]
    omega
  unfold stealTop
  dsimp only
  rw [hReverse, hDrop, hIdx]
  have hEq : tail + 1 + (below.length - tail) =
      (f :: below).reverse.length := by
    simp only [List.length_reverse, List.length_cons]
    omega
  rw [hEq, List.take_left, List.reverse_reverse, if_pos]
  · simp
  · simp

end View

end WorkStealing

end PRacer
