import PRacer.Omrd.Room

/-
  The slow path of an insertion.

  Workers insert after distinct nodes.  An insertion that
  finds no room marks the list of its base and waits, until
  a relabel has split that list.  Then it succeeds, and the
  new node is not heavy.

  Main declarations:
    * `distinctSystem`, `Settled`, `RoomInv`
    * `insert_never_fails`, `slow_path_waits_for_relabel`
-/

namespace PRacer

open Foundations OrderMaint

namespace Omrd

------------------------------------------------------------
-- Distinct Bases
------------------------------------------------------------

/- The node that an insertion has made so far. -/
def InsertPc.fresh : InsertPc → Option Nat
| .claim _ n => n
| .record _ n => n
| .checkLight _ n => some n
| .test _ n => some n
| .weigh _ n => some n
| .leave _ n => some n
| _ => none

variable {Worker : Type}

/-
  A worker inserts after a node that no other insertion has
  as its base, and that some insertion has returned.
-/
def Distinct
    (s : OmrdState Worker) : OmrdAction Worker → Prop
| .start _ base =>
    ∀ v, (s.pc v).base ≠ some base ∧
      (s.pc v).fresh ≠ some base
| _ => True

def distinctSystem
    (Worker : Type) [DecidableEq Worker]
    (machine : Machine) :
    TransitionSystem (OmrdState Worker)
      (OmrdAction Worker) :=
  (omrdSystem Worker (Config.default machine)
    defaultHeavyThreshold).restrict Distinct

------------------------------------------------------------
-- The Invariant
------------------------------------------------------------

/- The list of a node is marked heavy. -/
def Flagged (m : Mem) (b : Nat) : Prop :=
  leafHeavy m (omGetTl m b) = true

theorem Placed.flagged_iff
    {cfg : Config} {m : Mem} {n p l : Nat}
    (h : Placed cfg m n p l) :
    Flagged m n ↔ leafHeavy m p = true := by
  unfold Flagged
  rw [h.omGetTl_eq]

/- A node was inserted right after its base. -/
structure Placement (s : OmState) (base n : Nat) : Prop where
  follows : Follows s.order base n
  sameList : SameBList s.mem n base

/-
  What holds where a worker is.  On the slow path there is no
  room after the base and the list is marked, until a relabel
  covers it and leaves a wide gap.
-/
def Settled
    (machine : Machine) (s : OmState) (covered : Bool) :
    InsertPc → Prop
| .idle => True
| .tryInsert _ => covered = false
| .slow b =>
    covered = false ∧ Full (Config.default machine) s.mem b
| .claim b none =>
    covered = false ∧ Full (Config.default machine) s.mem b
| .record b none =>
    covered = false ∧
      Full (Config.default machine) s.mem b ∧
      Flagged s.mem b
| .unlock b =>
    covered = false ∧
      Full (Config.default machine) s.mem b ∧
      Flagged s.mem b
| .waiting b => Waits b
| .retry b => Waits b
| .checkLight b n =>
    covered = true ∧ Placement s b n ∧
      Wide (Config.default machine) s.mem (2 ^ 56) n
| .claim b (some n) => Placement s b n
| .record b (some n) => Placement s b n
| .test b n => Placement s b n
| .weigh b n => Placement s b n
| .leave b n => Placement s b n
where
  Waits (b : Nat) : Prop :=
    if covered then
      Wide (Config.default machine) s.mem (2 ^ 58 - 1) b
    else
      Full (Config.default machine) s.mem b ∧
        Flagged s.mem b

/- What a step of another worker leaves as it was. -/
structure Undisturbed
    (s s' : OmState) (pc : InsertPc) : Prop where
  spot : ∀ x, pc.base = some x ∨ pc.fresh = some x →
    spot s'.mem x = spot s.mem x
  flagged : ∀ b, pc.base = some b →
    Flagged s.mem b → Flagged s'.mem b
  placement : ∀ b n, pc.base = some b → pc.fresh = some n →
    Placement s b n → Placement s' b n

theorem Settled.mono
    {machine : Machine} {s s' : OmState} {covered : Bool}
    {pc : InsertPc}
    (h : Settled machine s covered pc)
    (hStay : Undisturbed s s' pc) :
    Settled machine s' covered pc := by
  rcases hStay with ⟨hSpot, hFlag, hPlace⟩
  have hWaits : ∀ b, pc.base = some b →
      Settled.Waits machine s covered b →
        Settled.Waits machine s' covered b := by
    intro b hb hWaits
    unfold Settled.Waits at hWaits ⊢
    split at hWaits
    · rw [if_pos ‹_›]
      exact hWaits.congr (hSpot b (Or.inl hb))
    · rw [if_neg ‹_›]
      exact ⟨hWaits.1.congr (hSpot b (Or.inl hb)),
        hFlag b hb hWaits.2⟩
  cases pc with
  | idle => trivial
  | tryInsert b => exact h
  | slow b => exact ⟨h.1, h.2.congr (hSpot b (Or.inl rfl))⟩
  | claim b n =>
      cases n with
      | none =>
          exact ⟨h.1, h.2.congr (hSpot b (Or.inl rfl))⟩
      | some n => exact hPlace b n rfl rfl h
  | record b n =>
      cases n with
      | none =>
          exact ⟨h.1, h.2.1.congr (hSpot b (Or.inl rfl)),
            hFlag b rfl h.2.2⟩
      | some n => exact hPlace b n rfl rfl h
  | unlock b =>
      exact ⟨h.1, h.2.1.congr (hSpot b (Or.inl rfl)),
        hFlag b rfl h.2.2⟩
  | waiting b => exact hWaits b rfl h
  | retry b => exact hWaits b rfl h
  | checkLight b n =>
      exact ⟨h.1, hPlace b n rfl rfl h.2.1,
        h.2.2.congr (hSpot n (Or.inr rfl))⟩
  | test b n => exact hPlace b n rfl rfl h
  | weigh b n => exact hPlace b n rfl rfl h
  | leave b n => exact hPlace b n rfl rfl h

/- A new node is right after its base. -/
theorem Settled.placement
    {machine : Machine} {s : OmState} {covered : Bool}
    {pc : InsertPc} {n : Nat}
    (h : Settled machine s covered pc)
    (hn : pc.fresh = some n) :
    ∃ b, pc.base = some b ∧ Placement s b n := by
  cases pc with
  | claim b k =>
      cases hn
      exact ⟨b, rfl, h⟩
  | record b k =>
      cases hn
      exact ⟨b, rfl, h⟩
  | checkLight b k =>
      cases hn
      exact ⟨b, rfl, h.2.1⟩
  | test b k =>
      cases hn
      exact ⟨b, rfl, h⟩
  | weigh b k =>
      cases hn
      exact ⟨b, rfl, h⟩
  | leave b k =>
      cases hn
      exact ⟨b, rfl, h⟩
  | _ => cases hn

/- The workers are settled, and their bases are distinct. -/
structure RoomInv
    (machine : Machine) (s : OmrdState Worker) : Prop where
  books : Bookkeeping (Config.default machine) s
  settled : ∀ w,
    Settled machine s.om (s.covered w) (s.pc w)
  apart : ∀ v w b, v ≠ w → (s.pc v).base = some b →
    (s.pc w).base ≠ some b ∧ (s.pc w).fresh ≠ some b

/- A new node is among the nodes. -/
theorem RoomInv.fresh_mem
    {machine : Machine} {s : OmrdState Worker}
    {w : Worker} {n : Nat}
    (h : RoomInv machine s)
    (hn : (s.pc w).fresh = some n) :
    n ∈ s.om.order := by
  rcases (h.settled w).placement hn with ⟨b, -, hPlace⟩
  exact hPlace.follows.mem_right

/- A worker that waits or tries again. -/
theorem RoomInv.waits
    {machine : Machine} {s : OmrdState Worker}
    {w : Worker} {base : Nat}
    (h : RoomInv machine s)
    (hPc : s.pc w = .waiting base ∨ s.pc w = .retry base) :
    (s.covered w = true ∧
      Wide (Config.default machine) s.om.mem (2 ^ 58 - 1)
        base) ∨
    (s.covered w = false ∧
      Full (Config.default machine) s.om.mem base ∧
      Flagged s.om.mem base) := by
  have hWaits : Settled.Waits machine s.om (s.covered w)
      base := by
    have hSettled := h.settled w
    rcases hPc with hPc | hPc
    · rw [hPc] at hSettled
      exact hSettled
    · rw [hPc] at hSettled
      exact hSettled
  unfold Settled.Waits at hWaits
  split at hWaits
  · exact Or.inl ⟨‹_›, hWaits⟩
  · rename_i hNot
    rw [Bool.not_eq_true] at hNot
    exact Or.inr ⟨hNot, hWaits⟩

/- The memory stays as it is. -/
theorem Undisturbed.refl (s : OmState) (pc : InsertPc) :
    Undisturbed s s pc :=
  ⟨fun _ _ => rfl, fun _ _ h => h, fun _ _ _ _ h => h⟩

/- What an insertion does in the default configuration. -/
theorem insert_outcome
    {machine : Machine} {s : OmState} {t : Shape}
    {yss : List (List (Nat × Label))} {base : Nat}
    (h : Maintained (Config.default machine) s t yss)
    (hBase : base ∈ s.order) :
    (Full (Config.default machine) s.mem base ∧
      omInsert (Config.default machine) s.mem base =
        Except.ok (s.mem, none)) ∨
      ∃ m, Fitted (Config.default machine) s.mem m base := by
  rcases exists_spot defaultHeavyThreshold h hBase with
    ⟨lab, next, hSpot, -⟩
  by_cases hRoom : RoomAt (Config.default machine) lab next
  · exact Or.inr (omInsert_of_room h hBase hSpot hRoom)
  · have hFull : Full (Config.default machine) s.mem base :=
      ⟨lab, next, hSpot, hRoom⟩
    exact Or.inl ⟨hFull, omInsert_of_full h hBase hFull⟩

/- A node with a wide gap is not full. -/
theorem not_full_of_wide
    {machine : Machine} {m : Mem} {n : Nat}
    (hWide : Wide (Config.default machine) m (2 ^ 58 - 1)
      n) :
    ¬ Full (Config.default machine) m n := by
  rintro ⟨lab, next, hSpot, hNoRoom⟩
  rcases hWide with ⟨lab', next', hSpot', hGap⟩
  cases hSpot.symm.trans hSpot'
  apply hNoRoom
  apply roomAt_of_wide
  omega

/- Insertions after other nodes do not disturb a worker. -/
theorem undisturbed_of_omInsert
    {cfg : Config} {s : OmState} {m : Mem} {t : Shape}
    {yss : List (List (Nat × Label))} {base : Nat}
    {r : Option Nat} {pc : InsertPc}
    (h : Maintained cfg s t yss)
    (hBase : base ∈ s.order)
    (hRun : omInsert cfg s.mem base = Except.ok (m, r))
    (hMem : ∀ x, pc.base = some x ∨ pc.fresh = some x →
      x ∈ s.order ∧ x ≠ base) :
    Undisturbed s
      { s with mem := m
               order := orderAfter base s.order r } pc := by
  rcases frame_of_omInsert h hBase hRun with
    ⟨hFrame, hHeavy⟩
  constructor
  · intro x hx
    rcases hMem x hx with ⟨hOrder, hNe⟩
    exact spot_of_omInsert h hBase hRun hOrder hNe
  · intro b hb hUp
    have hOrder := (hMem b (Or.inl hb)).1
    rcases placed_of_mem h hOrder with ⟨p, l, hPlaced, -⟩
    have hLater := hFrame.placed hOrder hPlaced
    rw [hPlaced.flagged_iff, hPlaced.leaf.leafHeavy_eq]
      at hUp
    rw [hLater.flagged_iff, hLater.leaf.leafHeavy_eq, hHeavy]
    exact hUp
  · intro b n hb hn hPlace
    rcases hMem b (Or.inl hb) with ⟨hOrderB, hNe⟩
    have hOrderN := (hMem n (Or.inr hn)).1
    constructor
    · cases r with
      | none => exact hPlace.follows
      | some k => exact hPlace.follows.insertAfter hNe k
    · rcases hPlace.sameList with ⟨x, y, hx, hy, hList⟩
      rcases hFrame.node n hOrderN x hx with
        ⟨x', hx', hListX, -⟩
      rcases hFrame.node b hOrderB y hy with
        ⟨y', hy', hListY, -⟩
      exact ⟨x', y', hx', hy',
        (hListX.trans hList).trans hListY.symm⟩

/- Nor does a flag that is set. -/
theorem undisturbed_markHeavy
    {cfg : Config} {s : OmState} {t : Shape}
    {yss : List (List (Nat × Label))} {l : Nat} {k : BList}
    {pc : InsertPc}
    (h : Maintained cfg s t yss)
    (hGet : s.mem.lists.get l = some k)
    (hMem : ∀ b, pc.base = some b → b ∈ s.order) :
    Undisturbed s { s with mem := markHeavy s.mem l } pc := by
  have hFrame := frame_markHeavy s.mem l s.order
  constructor
  · intro x _
    rfl
  · intro b hb hUp
    have hOrder := hMem b hb
    rcases placed_of_mem h hOrder with ⟨p, j, hPlaced, -⟩
    have hLater := hFrame.placed hOrder hPlaced
    rw [hPlaced.flagged_iff, hPlaced.leaf.leafHeavy_eq]
      at hUp
    rw [hLater.flagged_iff, hLater.leaf.leafHeavy_eq,
      listHeavy_markHeavy hGet, hUp, Bool.true_or]
  · intro b n _ _ hPlace
    exact ⟨hPlace.follows, hPlace.sameList⟩

/- No insertion has begun. -/
theorem roomInv_of_starts
    {machine : Machine} {s : OmrdState Worker}
    (h : s.Starts (Config.default machine)) :
    RoomInv machine s := by
  refine ⟨bookkeeping_of_starts h, ?_, ?_⟩
  · intro w
    rw [h.2.1 w]
    trivial
  · intro v w b _ hv
    rw [h.2.1 v] at hv
    cases hv

------------------------------------------------------------
-- Relabels
------------------------------------------------------------

/- The leaf of a worker without room will be relabelled. -/
theorem RoomInv.listed
    {machine : Machine} {s : OmrdState Worker}
    {w : Worker} {b : Nat}
    (h : RoomInv machine s)
    (hParked : ∀ w, (s.pc w).Parked)
    (hPc : s.pc w = .waiting b)
    (hNot : s.covered w = false) :
    omGetTl s.om.mem b ∈ s.heavyNodes := by
  rcases h.waits (Or.inl hPc) with
    ⟨hCovered, -⟩ | ⟨-, -, hUp⟩
  · rw [hCovered] at hNot
    cases hNot
  · rcases h.books.maintained with ⟨t, yss, hMain⟩
    have hMem : b ∈ s.om.order := by
      apply h.books.bases w
      rw [hPc]
      rfl
    rcases placed_of_mem hMain hMem with
      ⟨p, l, hPlaced, hLive⟩
    rw [hPlaced.flagged_iff,
      h.books.booked.flagged p hLive] at hUp
    rw [hPlaced.omGetTl_eq]
    rcases hUp with hUp | ⟨v, hv⟩
    · exact hUp
    · rw [heldAt_of_parked _ (hParked v)] at hv
      cases hv

/- A relabel gets the lists of all workers that wait. -/
theorem RoomInv.relabel
    {machine : Machine} {s s' : OmrdState Worker}
    (h : RoomInv machine s)
    (hParked : ∀ w, (s.pc w).Parked)
    (hRun : s.relabel (Config.default machine) =
      Except.ok s') :
    RoomInv machine s' := by
  have hBooks := (h.books.relabel
    (Config.default_wellFormed machine) hParked hRun).1
  have hBooked := h.books.booked
  rcases of_relabel hRun with
    ⟨-, rfl⟩ | ⟨m, om, hRelabel, rfl⟩
  · exact h
  refine ⟨hBooks, ?_, h.apart⟩
  intro w
  rcases h.books.maintained with ⟨t, yss, hMain⟩
  have hParkedW := hParked w
  dsimp only
  cases hPc : s.pc w with
  | idle => trivial
  | waiting b =>
      have hMem : b ∈ s.om.order := by
        apply h.books.bases w
        rw [hPc]
        rfl
      have hCovers : s.covers w =
          decide (omGetTl s.om.mem b ∈ s.heavyNodes) := by
        unfold OmrdState.covers
        rw [hPc]
      have hListed := h.listed hParked hPc
      have hAll : (s.covered w || s.covers w) = true := by
        cases hCovered : s.covered w with
        | true => rfl
        | false =>
            rw [hCovers, decide_eq_true (hListed hCovered)]
            rfl
      change Settled.Waits machine _ _ b
      unfold Settled.Waits
      rw [if_pos hAll]
      rcases spot_of_omRelabel hMain hBooked.liveListed
        hBooked.nodup hRelabel hMem with
        hWide | ⟨hNot, hSpot⟩
      · exact hWide
      · rcases h.waits (Or.inl hPc) with
          ⟨-, hWide⟩ | ⟨hUncovered, -⟩
        · exact hWide.congr hSpot
        · exact absurd (hListed hUncovered) hNot
  | _ =>
      rw [hPc] at hParkedW
      cases hParkedW

------------------------------------------------------------
-- Workers
------------------------------------------------------------

variable [DecidableEq Worker]

namespace RoomInv

variable {machine : Machine} {s s' : OmrdState Worker}
variable {w : Worker}

/- The bases after a worker moved. -/
theorem apart_setPc
    {pc : InsertPc}
    (h : RoomInv machine s)
    (hBase : ∀ b, pc.base = some b →
      (s.pc w).base = some b)
    (hFresh : ∀ n, pc.fresh = some n →
      (s.pc w).fresh = some n ∨ n ∉ s.om.order) :
    ∀ u v b, u ≠ v → ((s.setPc w pc).pc u).base = some b →
      ((s.setPc w pc).pc v).base ≠ some b ∧
        ((s.setPc w pc).pc v).fresh ≠ some b := by
  intro u v b huv hu
  simp only [OmrdState.setPc] at hu ⊢
  by_cases huw : u = w
  · subst huw
    rw [Function.update_self] at hu
    rw [Function.update_of_ne (Ne.symm huv)]
    exact h.apart u v b huv (hBase b hu)
  · rw [Function.update_of_ne huw] at hu
    by_cases hvw : v = w
    · subst hvw
      rw [Function.update_self]
      have hOld := h.apart u v b huv hu
      constructor
      · intro hb
        exact hOld.1 (hBase b hb)
      · intro hb
        rcases hFresh b hb with hb | hb
        · exact hOld.2 hb
        · exact hb (h.books.bases u b hu)
    · rw [Function.update_of_ne hvw]
      exact h.apart u v b huv hu

/-
  A worker goes on, and may change the structure in a way
  that does not disturb the others.
-/
theorem change
    {s₁ : OmrdState Worker} {pc : InsertPc}
    (h : RoomInv machine s)
    (hBooks : Bookkeeping (Config.default machine)
      (s₁.setPc w pc))
    (hPcs : s₁.pc = s.pc)
    (hCovered : s₁.covered = s.covered)
    (hStay : ∀ v, v ≠ w →
      Undisturbed s.om s₁.om (s.pc v))
    (hPc : Settled machine s₁.om (s.covered w) pc)
    (hBase : ∀ b, pc.base = some b →
      (s.pc w).base = some b)
    (hFresh : ∀ n, pc.fresh = some n →
      (s.pc w).fresh = some n ∨ n ∉ s.om.order) :
    RoomInv machine (s₁.setPc w pc) := by
  have hPc' : (s₁.setPc w pc).pc = (s.setPc w pc).pc := by
    simp only [OmrdState.setPc, hPcs]
  refine ⟨hBooks, ?_, ?_⟩
  · intro v
    rw [show (s₁.setPc w pc).covered = s.covered from
      hCovered, hPc']
    by_cases hv : v = w
    · subst hv
      simpa [OmrdState.setPc] using hPc
    · simpa [OmrdState.setPc, hv] using
        (h.settled v).mono (hStay v hv)
  · rw [hPc']
    exact h.apart_setPc hBase hFresh

theorem setFailed
    (h : RoomInv machine s) (w : Worker) (b : Bool) :
    RoomInv machine (s.setFailed w b) :=
  ⟨h.books.setFailed w b, h.settled, h.apart⟩

/- The memory is not changed. -/
theorem move
    {pc : InsertPc}
    (h : RoomInv machine s)
    (hBooks : Bookkeeping (Config.default machine)
      (s.setPc w pc))
    (hPc : Settled machine s.om (s.covered w) pc)
    (hBase : ∀ b, pc.base = some b →
      (s.pc w).base = some b)
    (hFresh : ∀ n, pc.fresh = some n →
      (s.pc w).fresh = some n) :
    RoomInv machine (s.setPc w pc) :=
  h.change hBooks rfl rfl (fun _ _ => Undisturbed.refl _ _)
    hPc hBase (fun n hn => Or.inl (hFresh n hn))

/- An insertion, with or without room. -/
theorem insertAt
    {base : Nat} {found : Nat → InsertPc}
    (h : RoomInv machine s)
    (hBooks : Bookkeeping (Config.default machine) s')
    (hPc : (s.pc w).base = some base)
    (hFound : ∀ n, (found n).base = some base ∧
      (found n).fresh = some n)
    (hFull : Full (Config.default machine) s.om.mem base →
      s.covered w = false)
    (hFit : ∀ m,
      Fitted (Config.default machine) s.om.mem m base →
      Placement (s.afterInsert base m
        (some s.om.mem.nodes.next)).om base
          s.om.mem.nodes.next →
      Settled machine (s.afterInsert base m
        (some s.om.mem.nodes.next)).om (s.covered w)
          (found s.om.mem.nodes.next))
    (hRun : s.insertAt (Config.default machine) w base
      found = Except.ok s') :
    RoomInv machine s' := by
  rcases of_insertAt hRun with ⟨m, r, hInsert, rfl⟩
  have hBase := h.books.bases w base hPc
  rcases h.books.maintained with ⟨t, yss, hMain⟩
  have hStay : ∀ v, v ≠ w → Undisturbed s.om
      (s.afterInsert base m r).om (s.pc v) := by
    intro v hv
    have hApart := h.apart w v base (Ne.symm hv) hPc
    apply undisturbed_of_omInsert hMain hBase hInsert
    rintro x (hx | hx)
    · refine ⟨h.books.bases v x hx, ?_⟩
      rintro rfl
      exact hApart.1 hx
    · refine ⟨h.fresh_mem hx, ?_⟩
      rintro rfl
      exact hApart.2 hx
  rcases insert_outcome hMain hBase with
    ⟨hNoRoom, hNone⟩ | ⟨m', hFitted⟩
  · cases hInsert.symm.trans hNone
    apply h.change hBooks rfl rfl hStay
    · exact ⟨hFull hNoRoom, hNoRoom⟩
    · intro b hb
      exact hPc.trans hb
    · intro n hn
      cases hn
  · cases hInsert.symm.trans hFitted.run
    have hNew := next_notMem hMain
    apply h.change hBooks rfl rfl hStay
    · apply hFit m hFitted
      exact ⟨follows_insertAfter hBase, hFitted.sameList⟩
    · intro b hb
      exact hPc.trans ((hFound _).1.symm.trans hb)
    · intro n hn
      right
      cases (hFound _).2.symm.trans hn
      exact hNew

/- The compare-and-swap on the flag of a list. -/
theorem claim
    {base : Nat} {n : Option Nat} {m : Mem} {claimed : Bool}
    {pc : InsertPc}
    (h : RoomInv machine s)
    (hPc : s.pc w = .claim base n)
    (hCas : casHeavy s.om.mem base =
      Except.ok (m, claimed))
    (hBooks : Bookkeeping (Config.default machine)
      ((s.withMem m).setPc w
        (if claimed then .record base n else pc)))
    (hBase : pc.base = some base)
    (hFresh : pc.fresh = n)
    (hRecord : ∀ m, Flagged m base →
      Settled machine { s.om with mem := m } (s.covered w)
        (.claim base n) →
      Settled machine { s.om with mem := m } (s.covered w)
        (.record base n))
    (hLeave : Flagged s.om.mem base →
      Settled machine s.om (s.covered w) (.claim base n) →
      Settled machine s.om (s.covered w) pc) :
    RoomInv machine ((s.withMem m).setPc w
      (if claimed then .record base n else pc)) := by
  have hSettled := h.settled w
  rw [hPc] at hSettled
  rcases h.books.maintained with ⟨t, yss, hMain⟩
  have hMem : base ∈ s.om.order := by
    apply h.books.bases w
    rw [hPc]
    rfl
  rcases placed_of_mem hMain hMem with ⟨p, l, hPlaced, -⟩
  rw [hPlaced.casHeavy_eq, Except.ok.injEq] at hCas
  by_cases hUp : leafHeavy s.om.mem p = true
  · rw [if_pos hUp] at hCas
    cases hCas
    apply h.move hBooks
    · exact hLeave (hPlaced.flagged_iff.mpr hUp) hSettled
    · intro b hb
      rw [hPc]
      exact hBase.symm.trans hb
    · intro k hk
      rw [hPc]
      exact hFresh.symm.trans hk
  · rw [if_neg hUp] at hCas
    cases hCas
    rcases hPlaced.leaf.up with ⟨k, hGet, -⟩
    have hStay : ∀ v, Undisturbed s.om
        { s.om with mem := markHeavy s.om.mem l }
        (s.pc v) := fun v =>
      undisturbed_markHeavy hMain hGet (h.books.bases v)
    have hLater := (frame_markHeavy s.om.mem l
      s.om.order).placed hMem hPlaced
    have hOwn := (h.settled w).mono (hStay w)
    rw [hPc] at hOwn
    rw [if_pos rfl] at hBooks ⊢
    apply h.change hBooks rfl rfl (fun v _ => hStay v)
    · apply hRecord _ _ hOwn
      rw [hLater.flagged_iff, hLater.leaf.leafHeavy_eq,
        listHeavy_markHeavy hGet, decide_eq_true rfl,
        Bool.or_true]
    · intro b hb
      rw [hPc]
      exact hb
    · intro k hk
      rw [hPc]
      exact Or.inl hk

/- One step of a worker that has its mutex. -/
theorem advance
    (h : RoomInv machine s)
    (hRun : s.advance (Config.default machine)
      defaultHeavyThreshold w = Except.ok s') :
    RoomInv machine s' := by
  have hBooks := h.books.advance hRun
  have hSettled := h.settled w
  have hBases := h.books.bases w
  rcases h.books.maintained with ⟨t, yss, hMain⟩
  unfold OmrdState.advance at hRun
  cases hPc : s.pc w with
  | idle =>
      rw [hPc] at hRun
      cases hRun
      exact h
  | waiting base =>
      rw [hPc] at hRun
      cases hRun
      exact h
  | tryInsert base =>
      rw [hPc] at hRun hSettled
      apply h.insertAt hBooks (hPc ▸ rfl)
        (fun n => ⟨rfl, rfl⟩) (fun _ => hSettled) _ hRun
      intro m _ hPlace
      exact hPlace
  | retry base =>
      rw [hPc] at hRun
      have hWaits := h.waits (Or.inr hPc)
      apply h.insertAt hBooks (hPc ▸ rfl)
        (fun n => ⟨rfl, rfl⟩) _ _ hRun
      · intro hFull
        rcases hWaits with ⟨-, hWide⟩ | ⟨hNot, -⟩
        · exact absurd hFull (not_full_of_wide hWide)
        · exact hNot
      · intro m hFitted hPlace
        rcases hWaits with ⟨hCovered, hWide⟩ | ⟨-, hFull, -⟩
        · exact ⟨hCovered, hPlace, hFitted.wide hWide⟩
        · have hMem := hBases base (by rw [hPc]; rfl)
          have hNone := omInsert_of_full hMain hMem hFull
          cases hFitted.run.symm.trans hNone
  | slow base =>
      rw [hPc] at hRun hSettled hBases
      rcases placed_of_mem hMain (hBases base rfl) with
        ⟨p, l, hPlaced, -⟩
      rcases bind_eq_ok hRun with ⟨heavy, hRead, hRun⟩
      rw [hPlaced.readHeavy_eq, Except.ok.injEq] at hRead
      cases hRun
      have hFailed := h.setFailed w true
      have hSame : (s.setFailed w true).pc w = .slow base :=
        hPc
      cases heavy with
      | true =>
          have hUp := hPlaced.flagged_iff.mpr hRead
          exact hFailed.move hBooks
            ⟨hSettled.1, hSettled.2, hUp⟩
            (fun b hb => hSame ▸ hb) (fun n hn => hSame ▸ hn)
      | false =>
          exact hFailed.move hBooks hSettled
            (fun b hb => hSame ▸ hb) (fun n hn => hSame ▸ hn)
  | claim base n =>
      rw [hPc] at hRun
      rcases bind_eq_ok hRun with ⟨⟨m, claimed⟩, hCas, hRun⟩
      cases hRun
      cases n with
      | none =>
          exact h.claim hPc hCas hBooks rfl rfl
            (fun _ hUp hOwn => ⟨hOwn.1, hOwn.2, hUp⟩)
            (fun hUp hOwn => ⟨hOwn.1, hOwn.2, hUp⟩)
      | some n =>
          exact h.claim hPc hCas hBooks rfl rfl
            (fun _ _ hOwn => hOwn) (fun _ hOwn => hOwn)
  | record base n =>
      rw [hPc] at hRun hSettled
      rcases bind_eq_ok hRun with ⟨s₁, hAdd, hRun⟩
      rcases of_addHeavy hAdd with ⟨p, -, rfl⟩
      cases n with
      | none =>
          cases hRun
          exact h.change hBooks rfl rfl
            (fun _ _ => Undisturbed.refl _ _) hSettled
            (fun b hb => hPc ▸ hb)
            (fun n hn => Or.inl (hPc ▸ hn))
      | some n =>
          cases hRun
          exact h.change hBooks rfl rfl
            (fun _ _ => Undisturbed.refl _ _) hSettled
            (fun b hb => hPc ▸ hb)
            (fun n hn => Or.inl (hPc ▸ hn))
  | unlock base =>
      rw [hPc] at hRun hSettled
      cases hRun
      apply h.move hBooks
      · change Settled.Waits machine s.om (s.covered w) base
        unfold Settled.Waits
        rw [hSettled.1]
        exact hSettled.2
      · intro b hb
        exact hPc ▸ hb
      · intro n hn
        cases hn
  | checkLight base n =>
      rw [hPc] at hRun hSettled
      rcases bind_eq_ok hRun with ⟨-, -, hRun⟩
      rcases bind_eq_ok hRun with ⟨heavy, -, hRun⟩
      rcases bind_eq_ok hRun with ⟨-, -, hRun⟩
      cases hRun
      exact h.move hBooks hSettled.2.1
        (fun b hb => hPc ▸ hb) (fun n hn => hPc ▸ hn)
  | test base n =>
      rw [hPc] at hRun hSettled
      rcases bind_eq_ok hRun with ⟨-, -, hRun⟩
      rcases bind_eq_ok hRun with ⟨heavy, -, hRun⟩
      cases hRun
      cases heavy with
      | true =>
          exact h.move hBooks hSettled
            (fun b hb => hPc ▸ hb) (fun n hn => hPc ▸ hn)
      | false =>
          exact h.move hBooks hSettled
            (fun b hb => hPc ▸ hb) (fun n hn => hPc ▸ hn)
  | weigh base n =>
      rw [hPc] at hRun hSettled
      rcases bind_eq_ok hRun with ⟨heavy, -, hRun⟩
      cases hRun
      cases heavy with
      | true =>
          exact h.move hBooks hSettled
            (fun b hb => hPc ▸ hb) (fun n hn => hPc ▸ hn)
      | false =>
          exact h.move hBooks hSettled
            (fun b hb => hPc ▸ hb) (fun n hn => hPc ▸ hn)
  | leave base n =>
      rw [hPc] at hRun
      cases hRun
      apply h.move hBooks trivial
      · intro b hb
        cases hb
      · intro n hn
        cases hn

end RoomInv

------------------------------------------------------------
-- Runs
------------------------------------------------------------

variable {machine : Machine} {s s' : OmrdState Worker}

/- A call of `insert` with a base of its own. -/
theorem RoomInv.start
    {w : Worker} {base : Nat}
    (h : RoomInv machine s)
    (hIdle : s.pc w = .idle)
    (hBase : base ∈ s.om.order)
    (hDistinct : ∀ v, (s.pc v).base ≠ some base ∧
      (s.pc v).fresh ≠ some base) :
    RoomInv machine { s.setPc w (.tryInsert base) with
      covered := Function.update s.covered w false } := by
  have hBooks : Bookkeeping (Config.default machine)
      (s.setPc w (.tryInsert base)) := by
    apply h.books.move
    · intro b hb
      cases hb
      exact hBase
    · rw [hIdle]
      rfl
  refine ⟨⟨hBooks.maintained, hBooks.booked,
    hBooks.bases⟩, ?_, ?_⟩
  · intro v
    simp only [OmrdState.setPc]
    by_cases hv : v = w
    · subst hv
      rw [Function.update_self, Function.update_self]
      rfl
    · rw [Function.update_of_ne hv,
        Function.update_of_ne hv]
      exact h.settled v
  · intro u v b huv hu
    simp only [OmrdState.setPc] at hu ⊢
    by_cases huw : u = w
    · subst huw
      rw [Function.update_self] at hu
      rw [Function.update_of_ne (Ne.symm huv)]
      cases hu
      exact hDistinct v
    · rw [Function.update_of_ne huw] at hu
      by_cases hvw : v = w
      · subst hvw
        rw [Function.update_self]
        constructor
        · intro hb
          cases hb
          exact (hDistinct u).1 hu
        · intro hb
          cases hb
      · rw [Function.update_of_ne hvw]
        exact h.apart u v b huv hu

/- A worker on the slow path gets its mutex back. -/
theorem RoomInv.resume
    {w : Worker} {base : Nat}
    (h : RoomInv machine s)
    (hPc : s.pc w = .waiting base) :
    RoomInv machine
      ((s.setFailed w false).setPc w (.retry base)) := by
  have hFailed := h.setFailed w false
  have hSame : (s.setFailed w false).pc w = .waiting base :=
    hPc
  have hSettled := hFailed.settled w
  rw [hSame] at hSettled
  have hBooks : Bookkeeping (Config.default machine)
      ((s.setFailed w false).setPc w (.retry base)) := by
    apply hFailed.books.move
    · intro b hb
      apply h.books.bases w
      rw [hPc]
      exact hb
    · rw [hSame]
      rfl
  exact hFailed.move hBooks hSettled
    (fun b hb => hSame ▸ hb) (fun n hn => hSame ▸ hn)

omit [DecidableEq Worker] in
/- The mutexes have no part in the room. -/
theorem RoomInv.setFlags
    (h : RoomInv machine s) (locked batch : Bool) :
    RoomInv machine { s with
      locked := locked
      batchInProgress := batch } :=
  ⟨⟨h.books.maintained, h.books.booked, h.books.bases⟩,
    h.settled, h.apart⟩

theorem RoomInv.step
    {a : OmrdAction Worker}
    (h : RoomInv machine s)
    (hBatches : Batches s)
    (hStep : (distinctSystem Worker machine).step s a s') :
    RoomInv machine s' := by
  rcases hStep with ⟨hStep, hDistinct⟩
  cases a with
  | start w base =>
      rcases hStep with ⟨-, hIdle, hBase, rfl⟩
      exact h.start hIdle hBase hDistinct
  | run w => exact h.advance hStep
  | resume w =>
      rcases hStep with ⟨-, base, hPc, rfl⟩
      exact h.resume hPc
  | relabel =>
      exact h.relabel (hBatches.all_parked hStep.1) hStep.2
  | lockAll =>
      rcases hStep with ⟨-, -, rfl⟩
      exact h.setFlags true s.batchInProgress
  | beginBatch =>
      rcases hStep with ⟨-, rfl⟩
      exact h.setFlags s.locked true
  | endBatch =>
      rcases hStep with ⟨-, rfl⟩
      exact h.setFlags s.locked false
  | unlockAll =>
      rcases hStep with ⟨-, -, rfl⟩
      exact h.setFlags false s.batchInProgress

theorem batches_of_distinct
    (hReach : (distinctSystem Worker machine).Reachable s) :
    Batches s :=
  batches_of_reachable hReach.of_restrict

theorem roomInv_of_reachable
    (hReach : (distinctSystem Worker machine).Reachable s) :
    RoomInv machine s := by
  have hBoth : RoomInv machine s ∧ Batches s := by
    apply hReach.invariant
      (P := fun s => RoomInv machine s ∧ Batches s)
    · intro s hInit
      exact ⟨roomInv_of_starts hInit, Batches.of_starts hInit⟩
    · rintro s a s' ⟨h, hBatches⟩ hStep
      exact ⟨h.step hBatches hStep, hBatches.step hStep.1⟩
  exact hBoth.1

------------------------------------------------------------
-- No Failures
------------------------------------------------------------

/- The assertions of `try_insert` hold. -/
theorem tryInsert_eq
    {cfg : Config} {s : OmState} {m : Mem} {t : Shape}
    {yss : List (List (Nat × Label))} {base : Nat}
    {r : Option Nat}
    (h : Maintained cfg s t yss)
    (hBase : base ∈ s.order)
    (hRun : omInsert cfg s.mem base = Except.ok (m, r)) :
    tryInsert cfg false s.mem base = Except.ok (m, r) := by
  have hFrame := (frame_of_omInsert h hBase hRun).1
  rcases placed_of_mem h hBase with ⟨p, l, hPlaced, -⟩
  unfold tryInsert
  rw [check_of rfl, ok_bind, hRun, ok_bind]
  dsimp only
  rw [(hFrame.placed hBase hPlaced).checkAbove_eq, ok_bind]
  cases r with
  | none => rfl
  | some n =>
      have hStep : omStep cfg s (.insert base)
          { s with mem := m
                   order := insertAfter base n s.order } :=
        ⟨hBase, rfl, some n, hRun, rfl⟩
      rcases h.insert hStep with ⟨yss', h'⟩
      have hn : n ∈ insertAfter base n s.order :=
        (follows_insertAfter hBase).mem_right
      rcases placed_of_mem h' hn with ⟨q, k, hNew, -⟩
      dsimp only
      rw [hNew.checkAbove_eq]
      rfl

theorem insertAt_returns
    {w : Worker} {base : Nat} {found : Nat → InsertPc}
    (h : RoomInv machine s)
    (hOver : s.batchInProgress = false)
    (hPc : (s.pc w).base = some base) :
    ∃ s', s.insertAt (Config.default machine) w base found =
      Except.ok s' := by
  have hBase := h.books.bases w base hPc
  rcases h.books.maintained with ⟨t, yss, hMain⟩
  have hRun : ∃ m r, omInsert (Config.default machine)
      s.om.mem base = Except.ok (m, r) := by
    rcases insert_outcome hMain hBase with
      ⟨-, hNone⟩ | ⟨m, hFitted⟩
    · exact ⟨_, _, hNone⟩
    · exact ⟨_, _, hFitted.run⟩
  rcases hRun with ⟨m, r, hRun⟩
  unfold OmrdState.insertAt
  rw [hOver, tryInsert_eq hMain hBase hRun]
  exact ⟨_, rfl⟩

section Crowd

variable [Fintype Worker]

instance
    (s : OmrdState Worker) (a : OmrdAction Worker) :
    Decidable (Distinct s a) :=
  match a with
  | .start _ _ => inferInstanceAs (Decidable (∀ _, _))
  | .run _ => isTrue trivial
  | .resume _ => isTrue trivial
  | .lockAll => isTrue trivial
  | .beginBatch => isTrue trivial
  | .relabel => isTrue trivial
  | .endBatch => isTrue trivial
  | .unlockAll => isTrue trivial

/- One step with a base of its own, tested and computed. -/
def performDistinct
    (machine : Machine) (s : OmrdState Worker)
    (a : OmrdAction Worker) : Run (OmrdState Worker) := do
  check (Distinct s a)
  perform (Config.default machine) defaultHeavyThreshold s a

theorem step_of_performDistinct
    {a : OmrdAction Worker}
    (hRun : performDistinct machine s a = Except.ok s') :
    (distinctSystem Worker machine).step s a s' := by
  rcases bind_eq_ok hRun with ⟨u, hDistinct, hRun⟩
  exact ⟨step_of_perform hRun, of_check hDistinct⟩

/- A new structure, and then several such steps. -/
def distinctRun
    (machine : Machine) (m : Mem)
    (actions : List (OmrdAction Worker)) :
    Run (OmrdState Worker) := do
  let s ← omrdNew Worker (Config.default machine) m
  actions.foldlM (performDistinct machine) s

theorem reachable_of_distinctRun
    {m : Mem} {actions : List (OmrdAction Worker)}
    (hRun : distinctRun machine m actions = Except.ok s) :
    (distinctSystem Worker machine).Reachable s := by
  rcases bind_eq_ok hRun with ⟨s₀, hNew, hRun⟩
  apply TransitionSystem.Reachable.of_foldlM _ _ hRun
  · intro s a s' hStep
    exact step_of_performDistinct hStep
  · exact TransitionSystem.Reachable.of_init
      (starts_of_omrdNew hNew)

/-
  One worker inserts after the first node until there is no
  room, and waits.  Another worker inserts in between.  Then
  a batch begins.
-/
def crowd (v w : Worker) : List (OmrdAction Worker) :=
  ((List.replicate 64
    (.start v 0 :: List.replicate 6 (.run v))).flatten) ++
  [.start w 1, .start v 0] ++ List.replicate 3 (.run v) ++
  List.replicate 6 (.run w) ++ [.lockAll, .beginBatch]

/- The worker waits, and tries again after a relabel. -/
theorem crowd_run :
    ∃ s s₁ s₂ s₃ : OmrdState Bool,
      (distinctSystem Bool Machine.exact).Reachable s ∧
        s.pc true = .waiting 0 ∧
        (distinctSystem Bool Machine.exact).step s
          .relabel s₁ ∧
        (distinctSystem Bool Machine.exact).Reachable s₂ ∧
        s₂.pc true = .retry 0 ∧
        s₂.advance (Config.default Machine.exact)
          defaultHeavyThreshold true = Except.ok s₃ := by
  have hTest : (distinctRun Machine.exact noMemory
      (crowd true false)).toOption.any (fun s =>
        s.pc true = .waiting 0 ∧
        (performDistinct Machine.exact s
          .relabel).toOption.any fun s₁ =>
            ([OmrdAction.endBatch, .unlockAll,
              .resume true].foldlM
                (performDistinct Machine.exact)
                s₁).toOption.any fun s₂ =>
              s₂.pc true = .retry 0 ∧
              (s₂.advance (Config.default Machine.exact)
                defaultHeavyThreshold true).toOption.any
                fun _ => true) = true := by
    decide +kernel
  rcases exists_of_test hTest with ⟨s, hRun, hState⟩
  rw [decide_eq_true_iff] at hState
  rcases hState with ⟨hPc, hLater⟩
  rcases exists_of_test hLater with ⟨s₁, hRelabel, hLater⟩
  rcases exists_of_test hLater with ⟨s₂, hRun₂, hState₂⟩
  rw [decide_eq_true_iff] at hState₂
  rcases hState₂ with ⟨hPc₂, hLast⟩
  rcases exists_of_test hLast with ⟨s₃, hAdvance, -⟩
  have hReach := reachable_of_distinctRun hRun
  have hStep := step_of_performDistinct hRelabel
  refine ⟨s, s₁, s₂, s₃, hReach, hPc, hStep, ?_, hPc₂,
    hAdvance⟩
  apply TransitionSystem.Reachable.of_foldlM _ _ hRun₂
  · intro s a s' hStep
    exact step_of_performDistinct hStep
  · exact hReach.step hStep

end Crowd

/-
  In every run of any number of workers that insert after
  nodes of their own, no step of a worker fails: all
  assertions of `insert` and of the functions it calls hold,
  also those on `g_batch_in_progress` and `insert_failed`,
  and no pointer is null or dangling.
-/
theorem insert_never_fails
    (hReach : (distinctSystem Worker machine).Reachable s)
    (w : Worker) :
    ∃ s', s.advance (Config.default machine)
      defaultHeavyThreshold w = Except.ok s' := by
  have h := roomInv_of_reachable hReach
  have hBatches := batches_of_distinct hReach
  have hOver := fun hPc =>
    hBatches.not_inProgress (w := w) hPc
  have hContent := hBatches.content w
  have hSettled := h.settled w
  have hBases := h.books.bases w
  have hFresh : ∀ n, (s.pc w).fresh = some n →
      n ∈ s.om.order := fun n hn => h.fresh_mem hn
  rcases h.books.maintained with ⟨t, yss, hMain⟩
  unfold OmrdState.advance
  cases hPc : s.pc w with
  | idle => exact ⟨_, rfl⟩
  | tryInsert base =>
      rw [hPc] at hOver
      exact insertAt_returns h (hOver id) (by rw [hPc]; rfl)
  | retry base =>
      rw [hPc] at hOver
      exact insertAt_returns h (hOver id) (by rw [hPc]; rfl)
  | slow base =>
      rw [hPc] at hBases
      rcases placed_of_mem hMain (hBases base rfl) with
        ⟨p, l, hPlaced, -⟩
      dsimp only
      rw [hPlaced.readHeavy_eq]
      exact ⟨_, rfl⟩
  | claim base n =>
      rw [hPc] at hBases
      rcases placed_of_mem hMain (hBases base rfl) with
        ⟨p, l, hPlaced, -⟩
      dsimp only
      rw [hPlaced.casHeavy_eq]
      exact ⟨_, rfl⟩
  | record base n =>
      rw [hPc] at hBases hOver
      rcases placed_of_mem hMain (hBases base rfl) with
        ⟨p, l, hPlaced, -⟩
      unfold OmrdState.addHeavy
      dsimp only
      rw [check_of (hOver id), ok_bind, hPlaced.getTl_eq]
      cases n with
      | none => exact ⟨_, rfl⟩
      | some n => exact ⟨_, rfl⟩
  | unlock base => exact ⟨_, rfl⟩
  | waiting base => exact ⟨_, rfl⟩
  | checkLight base n =>
      rw [hPc] at hSettled hFresh hContent
      dsimp only
      rw [check_of (hContent trivial), ok_bind,
        isHeavy_of_wide hMain (hFresh n rfl) hSettled.2.2]
      exact ⟨_, rfl⟩
  | test base n =>
      rw [hPc] at hSettled hFresh
      rcases hSettled.sameList with ⟨x, y, hx, hy, hList⟩
      rcases placed_of_mem hMain (hFresh n rfl) with
        ⟨p, l, hPlaced, -⟩
      unfold checkSameList
      dsimp only
      rw [Mem.load_of_get hx, ok_bind, Mem.load_of_get hy,
        ok_bind, check_of hList, ok_bind,
        hPlaced.readHeavy_eq]
      exact ⟨_, rfl⟩
  | weigh base n =>
      rw [hPc] at hFresh
      rcases exists_spot defaultHeavyThreshold hMain
        (hFresh n rfl) with ⟨lab, next, -, hHeavy⟩
      dsimp only
      rw [hHeavy]
      exact ⟨_, rfl⟩
  | leave base n => exact ⟨_, rfl⟩

/- The worker that tries again. -/
theorem insert_never_fails_crowd :
    ∃ s : OmrdState Bool, s.pc true = .retry 0 ∧
      ∃ s', s.advance (Config.default Machine.exact)
        defaultHeavyThreshold true = Except.ok s' := by
  rcases crowd_run with
    ⟨s, s₁, s₂, s₃, -, -, -, hReach, hPc, -⟩
  exact ⟨s₂, hPc, insert_never_fails hReach true⟩

/-
  In every such run, a worker leaves the loop of `slow_path`
  exactly when a relabel has got the list of its base since
  its insertion began.  It then has a node that is not heavy
  and stands right after the base, in the same list.
-/
theorem slow_path_waits_for_relabel
    (hReach : (distinctSystem Worker machine).Reachable s)
    {w : Worker} {base : Nat}
    (hPc : s.pc w = .retry base)
    (hRun : s.advance (Config.default machine)
      defaultHeavyThreshold w = Except.ok s') :
    (s.covered w = false ∧ s'.pc w = .slow base ∧
      s'.om.order = s.om.order) ∨
    (s.covered w = true ∧ ∃ n,
      s'.pc w = .checkLight base n ∧
      s'.om.order = insertAfter base n s.om.order ∧
      n ∉ s.om.order ∧ SameBList s'.om.mem n base ∧
      isHeavy (Config.default machine)
        defaultHeavyThreshold s'.om.mem n =
          Except.ok false) := by
  have h := roomInv_of_reachable hReach
  have h' := h.advance hRun
  rcases h.books.maintained with ⟨t, yss, hMain⟩
  rcases h'.books.maintained with ⟨t', yss', hMain'⟩
  have hMem : base ∈ s.om.order := by
    apply h.books.bases w
    rw [hPc]
    rfl
  unfold OmrdState.advance at hRun
  rw [hPc] at hRun
  rcases of_insertAt hRun with ⟨m, r, hInsert, rfl⟩
  rcases h.waits (Or.inr hPc) with
    ⟨hCovered, hWide⟩ | ⟨hNot, hFull, -⟩
  · right
    rcases insert_outcome hMain hMem with
      ⟨hFull, -⟩ | ⟨m', hFitted⟩
    · exact absurd hFull (not_full_of_wide hWide)
    · cases hInsert.symm.trans hFitted.run
      have hPc' : ((s.afterInsert base m
          (some s.om.mem.nodes.next)).setPc w
            (.checkLight base s.om.mem.nodes.next)).pc w =
          .checkLight base s.om.mem.nodes.next := by
        simp [OmrdState.setPc]
      have hn := (follows_insertAfter (x :=
        s.om.mem.nodes.next) hMem).mem_right
      exact ⟨hCovered, _, hPc', rfl, next_notMem hMain,
        hFitted.sameList, isHeavy_of_wide hMain' hn
          (hFitted.wide hWide)⟩
  · left
    cases hInsert.symm.trans
      (omInsert_of_full hMain hMem hFull)
    exact ⟨hNot, by simp [OmrdState.setPc], rfl⟩

/- The worker that tries again has a node. -/
theorem slow_path_waits_for_relabel_crowd :
    ∃ s s' : OmrdState Bool, s.pc true = .retry 0 ∧
      ((s.covered true = false ∧ s'.pc true = .slow 0 ∧
        s'.om.order = s.om.order) ∨
      (s.covered true = true ∧ ∃ n,
        s'.pc true = .checkLight 0 n ∧
        s'.om.order = insertAfter 0 n s.om.order ∧
        n ∉ s.om.order ∧ SameBList s'.om.mem n 0 ∧
        isHeavy (Config.default Machine.exact)
          defaultHeavyThreshold s'.om.mem n =
            Except.ok false)) := by
  rcases crowd_run with
    ⟨s, s₁, s₂, s₃, -, -, -, hReach, hPc, hRun⟩
  exact ⟨s₂, s₃, hPc,
    slow_path_waits_for_relabel hReach hPc hRun⟩

/-
  In every such run, one relabel is enough for all workers
  that wait: it gets the lists of their bases, and leaves
  gaps for their next tries.
-/
theorem relabel_covers_waiting
    (hReach : (distinctSystem Worker machine).Reachable s)
    (hStep : omrdStep (Config.default machine)
      defaultHeavyThreshold s .relabel s')
    {w : Worker} {base : Nat}
    (hPc : s.pc w = .waiting base) :
    s'.pc w = .waiting base ∧ s'.covered w = true ∧
      Wide (Config.default machine) s'.om.mem (2 ^ 58 - 1)
        base := by
  have h := roomInv_of_reachable hReach
  have hParked :=
    (batches_of_distinct hReach).all_parked hStep.1
  have h' := h.relabel hParked hStep.2
  have hListed := h.listed hParked hPc
  have hLater : s'.pc w = .waiting base ∧
      s'.covered w = true := by
    rcases of_relabel hStep.2 with
      ⟨hNil, rfl⟩ | ⟨m, om, -, rfl⟩
    · refine ⟨hPc, ?_⟩
      by_contra hNot
      rw [Bool.not_eq_true] at hNot
      have hMem := hListed hNot
      rw [hNil] at hMem
      cases hMem
    · refine ⟨hPc, ?_⟩
      dsimp only
      cases hCovered : s.covered w with
      | true => rfl
      | false =>
          unfold OmrdState.covers
          rw [hPc]
          exact decide_eq_true (hListed hCovered)
  rcases h'.waits (Or.inl hLater.1) with
    ⟨-, hWide⟩ | ⟨hNot, -⟩
  · exact ⟨hLater.1, hLater.2, hWide⟩
  · rw [hLater.2] at hNot
    cases hNot

/- The worker that waits will have a gap. -/
theorem relabel_covers_waiting_crowd :
    ∃ s s' : OmrdState Bool, s.pc true = .waiting 0 ∧
      s'.pc true = .waiting 0 ∧ s'.covered true = true ∧
      Wide (Config.default Machine.exact) s'.om.mem
        (2 ^ 58 - 1) 0 := by
  rcases crowd_run with
    ⟨s, s₁, s₂, s₃, hReach, hPc, hRelabel, -⟩
  exact ⟨s, s₁, hPc,
    relabel_covers_waiting hReach hRelabel.1 hPc⟩

end Omrd

end PRacer
