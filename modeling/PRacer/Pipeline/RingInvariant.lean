import PRacer.Pipeline.RingPhases

/-
  The invariant of the ring of stage lists: which lists the
  slots have, what is in them, and what the hooks have read
  so far.

  Main declarations:
    * `RingState.Kept`, `RingState.Kept.insertList`,
      `RingState.Kept.newList`
    * `RingState.HookOk`
    * `RingState.Inv`
-/

------------------------------------------------------------
-- Lists in the Ring
------------------------------------------------------------

namespace PRacer

open Foundations

namespace RingState

variable {s t : RingState} {K n i : Nat}

/- How often the cursors have moved. -/
def moves (s : RingState) (n : Nat) : Nat :=
  if s.phase (n + 1) = .storing then n + 1 else n

theorem le_moves (s : RingState) (n : Nat) :
    n ≤ s.moves n ∧ s.moves n ≤ n + 1 := by
  unfold moves
  split
  · exact ⟨Nat.le_succ n, le_rfl⟩
  · exact ⟨le_rfl, Nat.le_succ n⟩

/- No list gets shorter, and none is new. -/
def Grows (s t : RingState) : Prop :=
  ∀ a l', t.lists.get a = some l' →
    ∃ l, s.lists.get a = some l ∧ l.length ≤ l'.length

theorem grows_of_eq
    (hLists : t.lists = s.lists) :
    Grows s t := by
  intro a l hGet
  rw [hLists] at hGet
  exact ⟨l, hGet, le_rfl⟩

theorem grows_of_modify
    {list : Nat} {l l' : SharedList StageFrame}
    (hLists : t.lists = s.lists.modify list fun _ => l')
    (hGet : s.lists.get list = some l)
    (hLe : l.length ≤ l'.length) :
    Grows s t := by
  intro a k hk
  rw [hLists] at hk
  by_cases ha : a = list
  · subst ha
    rw [Heap.get_modify_self _ hGet] at hk
    obtain rfl := Option.some.inj hk
    exact ⟨l, hGet, hLe⟩
  · rw [Heap.get_modify_of_ne _ ha] at hk
    exact ⟨k, hk, le_rfl⟩

/-
  A list in memory has the frames of an iteration, as far as
  its own hooks have got, and its cursor.
-/
structure Faithful
    (s : RingState) (i : Nat) (l : SharedList StageFrame) :
    Prop where
  keeps :
    l.Keeps (s.piper.iterations i).frames (s.pc i).appending
  index : l.index = (s.piper.iterations i).index

/-
  The first `n` iterations have had their lists at the given
  addresses, and the ring has those of the last ones.
-/
structure Kept
    (s : RingState) (n : Nat) (addr : Nat → Nat) : Prop where
  cursor : s.ring.Cursor (s.moves n)
  holds : s.ring.slotRing.Holds n addr
  fresh : ∀ k, k < n → addr k < s.lists.next
  inj : ∀ k l, k < n → l < n → addr k = addr l → k = l
  content : ∀ k, k < n →
    s.moves n ≤ k + s.ring.slotRing.size →
      ∃ l, s.lists.get (addr k) = some l ∧
        s.Faithful (k + 1) l
  empty : ∀ i, n < i →
    s.piper.iterations i = { frames := [], index := 0 }
  numbers : ∀ i, ∀ f ∈ (s.piper.iterations i).frames,
    f.iterNum = i

theorem kept_init (limit : Nat) (addr : Nat → Nat) :
    (RingState.init limit).Kept 0 addr where
  cursor := Iterations.cursor_init limit
  holds :=
    { recent := fun _ hk => absurd hk (Nat.not_lt_zero _)
      unused := fun _ _ _ => rfl }
  fresh := fun _ hk => absurd hk (Nat.not_lt_zero _)
  inj := fun _ _ hk => absurd hk (Nat.not_lt_zero _)
  content := fun _ hk => absurd hk (Nat.not_lt_zero _)
  empty := fun _ _ => rfl
  numbers := fun _ _ hf => absurd hf List.not_mem_nil

/- The steps that touch no list. -/
theorem Faithful.congr
    {l : SharedList StageFrame}
    (h : s.Faithful i l)
    (hPiper : t.piper.iterations i = s.piper.iterations i)
    (hKeeps : ∀ fs, l.Keeps fs (s.pc i).appending →
      l.Keeps fs (t.pc i).appending) :
    t.Faithful i l where
  keeps := by
    rw [hPiper]
    exact hKeeps _ h.keeps
  index := by
    rw [hPiper]
    exact h.index

theorem moves_congr
    (hStoring :
      t.phase (n + 1) = .storing ↔
        s.phase (n + 1) = .storing) :
    t.moves n = s.moves n := by
  unfold moves
  simp only [hStoring]

namespace Kept

variable {addr : Nat → Nat}

/- A lookup of one of the last iterations finds its list. -/
theorem lookup
    (h : s.Kept n addr)
    (hPos : 1 ≤ i) (hi : i ≤ n)
    (hRecent : n + 1 ≤ i + s.ring.throttleLimit) :
    s.ring.getStageFrameList i = some (addr (i - 1)) ∧
      ∃ l, s.lists.get (addr (i - 1)) = some l ∧
        s.Faithful i l := by
  obtain ⟨k, rfl⟩ : ∃ k, i = k + 1 := ⟨i - 1, by omega⟩
  have hSize : n + 1 ≤ k + s.ring.slotRing.size := by
    change n + 1 ≤ k + (s.ring.throttleLimit + 1)
    omega
  constructor
  · rw [Iterations.getStageFrameList_succ]
    exact h.holds.recent k hi (by omega)
  · exact h.content k hi ((s.le_moves n).2.trans hSize)

theorem congr
    (h : s.Kept n addr)
    (hRing : t.ring = s.ring)
    (hLists : t.lists = s.lists)
    (hPiper : t.piper.iterations = s.piper.iterations)
    (hStoring :
      t.phase (n + 1) = .storing ↔
        s.phase (n + 1) = .storing)
    (hKeeps : ∀ k (l : SharedList StageFrame) fs,
      l.Keeps fs (s.pc k).appending →
        l.Keeps fs (t.pc k).appending) :
    t.Kept n addr where
  cursor := by
    rw [hRing, moves_congr hStoring]
    exact h.cursor
  holds := hRing ▸ h.holds
  fresh := hLists ▸ h.fresh
  inj := h.inj
  content := by
    intro k hk hRecent
    rw [hRing, moves_congr hStoring] at hRecent
    rcases h.content k hk hRecent with ⟨l, hGet, hList⟩
    rw [hLists]
    exact ⟨l, hGet, hList.congr (congrFun hPiper _)
      (hKeeps _ l)⟩
  empty := hPiper ▸ h.empty
  numbers := hPiper ▸ h.numbers

/- An iteration changes its list. -/
theorem setList
    {l' : SharedList StageFrame}
    (h : s.Kept n addr)
    (hPos : 1 ≤ i) (hi : i ≤ n)
    (hRing : t.ring = s.ring)
    (hLists :
      t.lists = s.lists.modify (addr (i - 1)) fun _ => l')
    (hPiper : ∀ k, k ≠ i →
      t.piper.iterations k = s.piper.iterations k)
    (hPc : ∀ k, k ≠ i → t.pc k = s.pc k)
    (hList : t.Faithful i l')
    (hNumbers : ∀ f ∈ (t.piper.iterations i).frames,
      f.iterNum = i) :
    t.Kept n addr := by
  have hMoves : t.moves n = s.moves n := by
    apply moves_congr
    unfold phase
    rw [hPc (n + 1) (by omega)]
  constructor
  · rw [hRing, hMoves]
    exact h.cursor
  · rw [hRing]
    exact h.holds
  · rw [hLists]
    exact h.fresh
  · exact h.inj
  · intro k hk hRecent
    rw [hRing, hMoves] at hRecent
    rcases h.content k hk hRecent with ⟨l, hGet, hOld⟩
    rw [hLists]
    by_cases hki : k = i - 1
    · subst hki
      refine ⟨l', Heap.get_modify_self _ hGet, ?_⟩
      rw [Nat.sub_add_cancel hPos]
      exact hList
    · have hNe : addr k ≠ addr (i - 1) := by
        intro hSame
        exact hki (h.inj k _ hk (by omega) hSame)
      rw [Heap.get_modify_of_ne _ hNe]
      refine ⟨l, hGet, hOld.congr (hPiper _ (by omega)) ?_⟩
      rw [hPc _ (by omega)]
      exact fun _ => id
  · intro j hj
    rw [hPiper j (by omega)]
    exact h.empty j hj
  · intro j
    by_cases hji : j = i
    · rw [hji]
      exact hNumbers
    · rw [hPiper j hji]
      exact h.numbers j

------------------------------------------------------------
-- A New List
------------------------------------------------------------

/- The old lists that are still needed are not touched. -/
structure Released
    (s u : RingState) (n : Nat) (addr : Nat → Nat) : Prop where
  piper : u.piper = s.piper
  pc : u.pc = s.pc
  next : u.lists.next = s.lists.next
  grows : Grows s u
  lists : ∀ k, k < n → n < k + s.ring.slotRing.size →
    u.lists.get (addr k) = s.lists.get (addr k)

/- The list in the slot of the next iteration can be freed. -/
theorem delete
    (h : s.Kept n addr)
    (hMoves : s.moves n = n) :
    ∃ u, s.delete (s.ring.slotRing.get n) = some u ∧
      Released s u n addr := by
  rw [h.holds.displaced (Nat.succ_pos _)]
  split
  · exact ⟨s, rfl, rfl, rfl, rfl, grows_of_eq rfl,
      fun _ _ _ => rfl⟩
  · rename_i hFull
    have hPos : 0 < s.ring.slotRing.size := Nat.succ_pos _
    rcases h.content (n - s.ring.slotRing.size)
      (by omega) (by omega) with ⟨l, hOld, -⟩
    refine ⟨{ s with
      lists := s.lists.free
        (addr (n - s.ring.slotRing.size)) }, ?_,
      rfl, rfl, rfl, ?_, ?_⟩
    · unfold RingState.delete
      dsimp only
      rw [hOld]
    · intro a l' hGet
      dsimp only at hGet
      rw [Heap.get_free] at hGet
      split at hGet
      · cases hGet
      · exact ⟨l', hGet, le_rfl⟩
    · intro k hk hRecent
      dsimp only
      rw [Heap.get_free, if_neg]
      intro hSame
      have := h.inj k _ hk (by omega) hSame
      omega

/-
  The cursors go to the slot of the next iteration, and its
  old list is deleted.
-/
theorem insertList
    (h : s.Kept n addr)
    (hLimit : 1 ≤ s.ring.throttleLimit)
    (hPhase : s.phase (n + 1) ≠ .storing) (sf : StageFrame) :
    ∃ u,
      s.insertList = some (s.ring.getIndex (n + 1), u) ∧
        u.piper = s.piper ∧ u.pc = s.pc ∧
        u.ring.throttleLimit = s.ring.throttleLimit ∧
        Grows s u ∧
        (u.setPc (n + 1)
          (.newList (s.ring.getIndex (n + 1)) sf)).Kept
            n addr := by
  have hMoves : s.moves n = n := if_neg hPhase
  have hCursor := h.cursor
  rw [hMoves] at hCursor
  rcases h.delete hMoves with ⟨u, hDelete, hReleased⟩
  have hBound :
      n % (s.ring.throttleLimit + 1) <
        s.ring.throttleLimit + 1 :=
    Nat.mod_lt n (Nat.succ_pos _)
  rw [Iterations.getIndex_succ]
  refine ⟨{ u with ring := s.ring.moved (n + 1) }, ?_,
    hReleased.piper, hReleased.pc, rfl, hReleased.grows, ?_⟩
  · unfold RingState.insertList
    rw [hCursor.advance hLimit]
    dsimp only
    rw [if_pos ⟨by omega, by
      change ((n % (s.ring.throttleLimit + 1) : Nat) : Int) <
        ((s.ring.throttleLimit : Nat) : Int) + 1
      omega⟩, Int.toNat_natCast]
    have hSlot :
        (s.ring.moved (n + 1)).p
            (n % (s.ring.throttleLimit + 1)) =
          s.ring.slotRing.get n := rfl
    rw [hSlot, hDelete]
  · generalize ht :
      ({ u with ring := s.ring.moved (n + 1) } :
        RingState).setPc (n + 1)
        (.newList (n % (s.ring.throttleLimit + 1)) sf) = t
    have hPc : t.pc = Function.update s.pc (n + 1)
        (.newList (n % (s.ring.throttleLimit + 1)) sf) := by
      rw [← ht, ← hReleased.pc]
      rfl
    have hStored : t.moves n = n + 1 := by
      apply if_pos
      unfold phase
      rw [hPc, Function.update_self]
      rfl
    have hPiper : t.piper = s.piper := by
      rw [← ht]
      exact hReleased.piper
    constructor
    · rw [hStored, ← ht]
      exact ⟨rfl, rfl⟩
    · rw [← ht]
      exact h.holds
    · intro k hk
      rw [← ht]
      exact hReleased.next ▸ h.fresh k hk
    · exact h.inj
    · intro k hk hRecent
      rw [hStored] at hRecent
      have hRecent' : n < k + s.ring.slotRing.size := by
        rw [← ht] at hRecent
        exact hRecent
      rcases h.content k hk (by omega) with ⟨l, hGet, hList⟩
      refine ⟨l, ?_, hList.congr (by rw [hPiper]) ?_⟩
      · rw [← ht, ← hGet]
        exact hReleased.lists k hk hRecent'
      · rw [hPc, Function.update_of_ne (by omega)]
        exact fun _ => id
    · rw [hPiper]
      exact h.empty
    · rw [hPiper]
      exact h.numbers

/- The new list joins those in the ring. -/
theorem newList
    (h : s.Kept n addr)
    (hStoring : s.phase (n + 1) = .storing)
    (hNext : s.phase (n + 1 + 1) ≠ .storing)
    (sf : StageFrame) :
    ((s.newList (s.ring.getIndex (n + 1)) (n + 1)).setPc
      (n + 1) (.appendFirst s.lists.next sf .room)).Kept
        (n + 1) (Function.update addr n s.lists.next) := by
  rw [Iterations.getIndex_succ]
  have hMoves : s.moves n = n + 1 := if_pos hStoring
  have hOld : ∀ k, k < n →
      Function.update addr n s.lists.next k = addr k :=
    fun k hk => Function.update_of_ne hk.ne ..
  have hNew :
      Function.update addr n s.lists.next n = s.lists.next :=
    Function.update_self ..
  generalize ht :
    (s.newList (n % (s.ring.throttleLimit + 1))
      (n + 1)).setPc (n + 1)
        (.appendFirst s.lists.next sf .room) = t
  have hPc : t.pc = Function.update s.pc (n + 1)
      (.appendFirst s.lists.next sf .room) := by
    rw [← ht]
    rfl
  have hPiper : t.piper = s.piper := by
    rw [← ht]
    rfl
  have hLists : t.lists = s.lists.alloc .new := by
    rw [← ht]
    rfl
  have hStored : t.moves (n + 1) = n + 1 := by
    apply if_neg
    unfold phase
    rw [hPc, Function.update_of_ne (by omega)]
    exact hNext
  constructor
  · have hCursor := h.cursor
    rw [hMoves] at hCursor
    rw [hStored, ← ht]
    exact ⟨hCursor.head, hCursor.tail⟩
  · have hPut := (h.holds.congr hOld).put
    rw [hNew] at hPut
    rw [← ht]
    exact hPut
  · intro k hk
    rw [hLists]
    change _ < s.lists.next + 1
    rcases Nat.lt_succ_iff_lt_or_eq.mp hk with hLt | rfl
    · rw [hOld k hLt]
      exact (h.fresh k hLt).trans (Nat.lt_succ_self _)
    · rw [hNew]
      exact Nat.lt_succ_self _
  · intro k l hk hl hSame
    rcases Nat.lt_succ_iff_lt_or_eq.mp hk with hLt | rfl
    · rw [hOld k hLt] at hSame
      rcases Nat.lt_succ_iff_lt_or_eq.mp hl with hLt' | rfl
      · rw [hOld l hLt'] at hSame
        exact h.inj k l hLt hLt' hSame
      · rw [hNew] at hSame
        exact absurd hSame (h.fresh k hLt).ne
    · rw [hNew] at hSame
      rcases Nat.lt_succ_iff_lt_or_eq.mp hl with hLt' | rfl
      · rw [hOld l hLt'] at hSame
        exact absurd hSame.symm (h.fresh l hLt').ne
      · rfl
  · intro k hk hRecent
    rw [hStored] at hRecent
    rw [hLists]
    rcases Nat.lt_succ_iff_lt_or_eq.mp hk with hLt | rfl
    · have hRecent' : s.moves n ≤ k + s.ring.slotRing.size := by
        rw [hMoves]
        rw [← ht] at hRecent
        exact hRecent
      rcases h.content k hLt hRecent' with ⟨l, hGet, hList⟩
      refine ⟨l, ?_, hList.congr (by rw [hPiper]) ?_⟩
      · rw [hOld k hLt]
        exact Heap.get_alloc_of_get _ hGet
      · rw [hPc, Function.update_of_ne (by omega)]
        exact fun _ => id
    · refine ⟨.new, ?_, ?_⟩
      · rw [hNew, Heap.get_alloc_self]
      · have hEmpty := h.empty (k + 1) (Nat.lt_succ_self k)
        constructor
        · rw [hPiper, hEmpty, hPc, Function.update_self]
          exact SharedList.keeps_new.append
        · rw [hPiper, hEmpty]
          rfl
  · intro j hj
    rw [hPiper]
    exact h.empty j (Nat.lt_of_succ_lt hj)
  · rw [hPiper]
    exact h.numbers

end Kept

------------------------------------------------------------
-- What the Hooks Have Read
------------------------------------------------------------

/- The left list has at least `m` frames counted. -/
def LeftHas
    (s : RingState) (addr : Nat → Nat) (i m : Nat) : Prop :=
  ∀ l, s.lists.get (addr (i - 1 - 1)) = some l → m ≤ l.length

theorem LeftHas.mono
    {addr : Nat → Nat} {m m' : Nat}
    (h : s.LeftHas addr i m)
    (hLe : m' ≤ m) :
    s.LeftHas addr i m' :=
  fun l hGet => hLe.trans (h l hGet)

theorem LeftHas.of_grows
    {addr : Nat → Nat} {m : Nat}
    (h : s.LeftHas addr i m)
    (hGrows : Grows s t) :
    t.LeftHas addr i m := by
  intro l' hGet'
  rcases hGrows _ _ hGet' with ⟨l, hGet, hLe⟩
  exact (h l hGet).trans hLe

/- A search is in the left list, and not past its end. -/
structure SearchOk
    (s : RingState) (addr : Nat → Nat) (i : Nat)
    (x : LeftSearch) : Prop where
  own : x.entry.list = addr (i - 1)
  cur : x.cur = addr (i - 1)
  later : 1 < i
  pre : x.pre = addr (i - 1 - 1)
  length : s.LeftHas addr i x.length
  iPre : s.LeftHas addr i (x.iPre + 1)

/-
  The values a hook has read so far are good: the addresses
  are those of its own list and of the left one, and the
  positions are in the left list.
-/
def HookOk
    (s : RingState) (addr : Nat → Nat) (i : Nat) :
    IterationPc → Prop
| .firstSibling pre _ => 1 < i ∧ pre = addr (i - 1 - 1)
| .insertList sf => sf.iterNum = i
| .newList index sf =>
    index = s.ring.getIndex i ∧ sf.iterNum = i
| .appendFirst list sf _ =>
    list = addr (i - 1) ∧ sf.iterNum = i
| .leftDependency e => e.list = addr (i - 1) ∧ 1 < i
| .leftLength e cur pre =>
    e.list = addr (i - 1) ∧ cur = addr (i - 1) ∧ 1 < i ∧
      pre = addr (i - 1 - 1)
| .leftLoop x => s.SearchOk addr i x
| .leftTest x _ _ =>
    s.SearchOk addr i x ∧ x.index < x.length
| .leftEnd x ret =>
    s.SearchOk addr i x ∧ s.LeftHas addr i (ret + 1)
| .leftSibling e leftIndex =>
    e.list = addr (i - 1) ∧ 1 < i ∧
      s.LeftHas addr i (leftIndex + 1)
| .sibling e leftIndex pre _ =>
    e.list = addr (i - 1) ∧ 1 < i ∧
      pre = addr (i - 1 - 1) ∧
      s.LeftHas addr i (leftIndex + 1)
| .create e => e.list = addr (i - 1)
| .append list sf _ => list = addr (i - 1) ∧ sf.iterNum = i
| _ => True

/- The own list that a hook holds. -/
theorem HookOk.own
    {addr : Nat → Nat} {pc : IterationPc} {list : Nat}
    (h : s.HookOk addr i pc)
    (hList : list ∈ pc.own) :
    list = addr (i - 1) := by
  have hPair : ∀ a b, a = addr (i - 1) → b = addr (i - 1) →
      list ∈ [a, b] → list = addr (i - 1) := by
    intro a b ha hb hMem
    rcases List.mem_pair.mp hMem with rfl | rfl
    · exact ha
    · exact hb
  cases pc with
  | leftLength e cur pre => exact hPair _ _ h.1 h.2.1 hList
  | leftLoop x =>
      exact hPair _ _ (SearchOk.own h) (SearchOk.cur h) hList
  | leftTest x test get =>
      exact hPair _ _ h.1.own h.1.cur hList
  | leftEnd x ret => exact hPair _ _ h.1.own h.1.cur hList
  | create e => exact (List.mem_singleton.mp hList).trans h
  | appendFirst list sf pc | append list sf pc
  | leftDependency e | leftSibling e leftIndex
  | sibling e leftIndex pre get =>
      exact (List.mem_singleton.mp hList).trans h.1
  | _ => cases hList

/- The left list that a hook holds. -/
theorem HookOk.pre
    {addr : Nat → Nat} {pc : IterationPc} {pre : Nat}
    (h : s.HookOk addr i pc)
    (hPre : pc.pre? = some pre) :
    1 < i ∧ pre = addr (i - 1 - 1) := by
  revert h hPre
  cases pc <;> intro h hPre <;>
    simp only [IterationPc.pre?, Option.some.injEq,
      reduceCtorEq] at hPre <;> subst hPre
  case firstSibling => exact h
  case leftLength => exact h.2.2
  case leftLoop => exact ⟨SearchOk.later h, SearchOk.pre h⟩
  case leftTest | leftEnd => exact ⟨h.1.later, h.1.pre⟩
  case sibling => exact ⟨h.2.1, h.2.2.1⟩

/- The steps of other iterations leave the values good. -/
theorem HookOk.of_others
    {addr addr' : Nat → Nat} {pc : IterationPc}
    (h : s.HookOk addr i pc)
    (hLimit :
      t.ring.throttleLimit = s.ring.throttleLimit)
    (hOwn : pc.phase.isListed = true →
      addr' (i - 1) = addr (i - 1))
    (hLeft : 1 < i → addr' (i - 1 - 1) = addr (i - 1 - 1))
    (hGrows : 1 < i → ∀ m,
      s.LeftHas addr i m → t.LeftHas addr' i m) :
    t.HookOk addr' i pc := by
  have hSearch : ∀ x, s.SearchOk addr i x →
      addr' (i - 1) = addr (i - 1) → t.SearchOk addr' i x := by
    intro x hx hSame
    exact
      { own := hx.own.trans hSame.symm
        cur := hx.cur.trans hSame.symm
        later := hx.later
        pre := hx.pre.trans (hLeft hx.later).symm
        length := hGrows hx.later _ hx.length
        iPre := hGrows hx.later _ hx.iPre }
  cases pc with
  | notStarted | stageFirst | createFirst | running | stage
  | finished => exact True.intro
  | firstSibling pre get =>
      exact ⟨h.1, h.2.trans (hLeft h.1).symm⟩
  | insertList sf => exact h
  | newList index sf =>
      refine ⟨h.1.trans ?_, h.2⟩
      unfold Iterations.getIndex
      rw [hLimit]
  | leftDependency e =>
      exact ⟨h.1.trans (hOwn rfl).symm, h.2⟩
  | leftLength e cur pre =>
      exact ⟨h.1.trans (hOwn rfl).symm,
        h.2.1.trans (hOwn rfl).symm, h.2.2.1,
        h.2.2.2.trans (hLeft h.2.2.1).symm⟩
  | leftLoop x => exact hSearch x h (hOwn rfl)
  | leftTest x test get => exact ⟨hSearch x h.1 (hOwn rfl), h.2⟩
  | leftEnd x ret =>
      exact ⟨hSearch x h.1 (hOwn rfl),
        hGrows h.1.later _ h.2⟩
  | leftSibling e leftIndex =>
      exact ⟨h.1.trans (hOwn rfl).symm, h.2.1,
        hGrows h.2.1 _ h.2.2⟩
  | sibling e leftIndex pre get =>
      exact ⟨h.1.trans (hOwn rfl).symm, h.2.1,
        h.2.2.1.trans (hLeft h.2.1).symm,
        hGrows h.2.1 _ h.2.2.2⟩
  | create e => exact h.trans (hOwn rfl).symm
  | appendFirst list sf pc | append list sf pc =>
      exact ⟨h.1.trans (hOwn rfl).symm, h.2⟩

------------------------------------------------------------
-- The Invariant
------------------------------------------------------------

structure Inv
    (s : RingState) (K n : Nat) (addr : Nat → Nat) : Prop where
  limit : s.ring.throttleLimit = K
  phases : Phases s.phase K n
  kept : s.Kept n addr
  hooks : ∀ i, s.HookOk addr i (s.pc i)
  frames : ∀ i, (s.phase i).isEntered = true ↔
    (s.piper.iterations i).frames ≠ []

theorem inv_init (K : Nat) (addr : Nat → Nat) :
    (RingState.init K).Inv K 0 addr where
  limit := rfl
  phases := Phases.init
  kept := kept_init K addr
  hooks := fun _ => True.intro
  frames := by
    intro i
    constructor
    · intro h
      cases h
    · intro h
      exact absurd rfl h

/- The phases after an iteration has got somewhere else. -/
theorem phase_of_pc
    {pc : IterationPc}
    (hPc : t.pc = Function.update s.pc i pc) :
    t.phase = Function.update s.phase i pc.phase := by
  funext k
  unfold phase
  rw [hPc]
  by_cases hki : k = i
  · rw [hki, Function.update_self, Function.update_self]
  · rw [Function.update_of_ne hki, Function.update_of_ne hki]

namespace Inv

variable {addr : Nat → Nat}

/- The list of a listed iteration that is live. -/
theorem own
    (h : s.Inv K n addr) (hK : 2 ≤ K)
    (hLive : (s.phase i).isLive = true)
    (hListed : (s.phase i).isListed = true) :
    s.ring.getStageFrameList i = some (addr (i - 1)) ∧
      ∃ l, s.lookup i = some (addr (i - 1), l) ∧
        s.lists.get (addr (i - 1)) = some l ∧
        s.Faithful i l := by
  have hPos := h.phases.one_le hLive
  have hRecent := h.phases.recent hK hLive
  rcases h.kept.lookup hPos
    ((h.phases.listed i hPos).mp hListed)
    (by rw [h.limit]; exact hRecent.le) with
    ⟨hSlot, l, hGet, hList⟩
  refine ⟨hSlot, l, ?_, hGet, hList⟩
  unfold RingState.lookup
  rw [hSlot]
  dsimp only
  rw [hGet]

/- The left list of a live iteration. -/
theorem left
    (h : s.Inv K n addr) (hK : 2 ≤ K)
    (hLive : (s.phase i).isLive = true)
    (hLater : 1 < i) :
    s.ring.getStageFrameList (i - 1) =
        some (addr (i - 1 - 1)) ∧
      ∃ l, s.lists.get (addr (i - 1 - 1)) = some l ∧
        s.Faithful (i - 1) l ∧
        (s.piper.iterations (i - 1)).frames ≠ [] := by
  have hRecent := h.phases.recent hK hLive
  have hLast := h.phases.le_succ hLive
  rcases h.kept.lookup (i := i - 1) (by omega) (by omega)
    (by rw [h.limit]; omega) with ⟨hSlot, l, hGet, hList⟩
  have hFrames := (h.frames (i - 1)).mp
    (h.phases.entered_left hLive hLater)
  exact ⟨hSlot, l, hGet, hList, hFrames⟩

/- The left list has its first frame. -/
theorem leftHas_one
    (h : s.Inv K n addr) (hK : 2 ≤ K)
    (hLive : (s.phase i).isLive = true)
    (hLater : 1 < i) :
    s.LeftHas addr i 1 := by
  rcases h.left hK hLive hLater with ⟨-, l, hGet, hList, hNe⟩
  intro l' hGet'
  obtain rfl := Option.some.inj (hGet.symm.trans hGet')
  exact (List.length_pos_of_ne_nil hNe).trans_le
    hList.keeps.length_le

/-
  A step of an iteration that changes at most its own list,
  which does not get shorter.
-/
theorem move
    {pc : IterationPc}
    (h : s.Inv K n addr)
    (hLive : (s.phase i).isLive = true)
    (hPc : t.pc = Function.update s.pc i pc)
    (hListed : pc.phase.isListed = (s.phase i).isListed)
    (hStarting : pc.phase.isStarting = (s.phase i).isStarting)
    (hEntered :
      (s.phase i).isEntered = true →
        pc.phase.isEntered = true)
    (hLimit :
      t.ring.throttleLimit = s.ring.throttleLimit)
    (hKept : t.Kept n addr)
    (hPiper : ∀ k, k ≠ i →
      t.piper.iterations k = s.piper.iterations k)
    (hGrows : Grows s t)
    (hHook : t.HookOk addr i pc)
    (hFrames : pc.phase.isEntered = true ↔
      (t.piper.iterations i).frames ≠ []) :
    t.Inv K n addr := by
  have hPhase := phase_of_pc hPc
  constructor
  · exact hLimit.trans h.limit
  · rw [hPhase]
    exact h.phases.move hLive hListed hStarting hEntered
  · exact hKept
  · intro k
    by_cases hki : k = i
    · rw [hki, hPc, Function.update_self]
      exact hHook
    · rw [hPc, Function.update_of_ne hki]
      exact (h.hooks k).of_others hLimit (fun _ => rfl)
        (fun _ => rfl)
        (fun _ _ hHas => hHas.of_grows hGrows)
  · intro k
    rw [hPhase]
    by_cases hki : k = i
    · rw [hki, Function.update_self]
      exact hFrames
    · rw [Function.update_of_ne hki, hPiper k hki]
      exact h.frames k

end Inv

end RingState

end PRacer
