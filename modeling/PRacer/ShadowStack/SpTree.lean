import PRacer.Foundations.Address
import PRacer.ShadowStack.Model

/-
  Series-parallel trees of programs, and addresses of strands
  whose two preorders decide the composition of strands.

  Main declarations:
    * `SpTree`, `SpTree.Precedes`, `SpTree.Parallel`
    * `Code.spTree`
    * `Code.walk`, `Code.matches_walk`
-/

------------------------------------------------------------
-- Series-Parallel Trees
------------------------------------------------------------

namespace PRacer

open Foundations

/- Strands are the leaves, from left to right. -/
inductive SpTree where
| strand
| series (left right : SpTree)
| parallel (left right : SpTree)
deriving DecidableEq, Repr

/- How a node of the tree composes its two subtrees. -/
inductive Composition where
| series
| parallel
deriving DecidableEq, Repr

namespace SpTree

/- The number of leaves. -/
def size : SpTree → Nat
| strand => 1
| series left right => left.size + right.size
| parallel left right => left.size + right.size

/- The composition at the lowest common ancestor, `i < j`. -/
def compose : SpTree → Nat → Nat → Composition
| strand, _, _ => .series
| series left right, i, j =>
    if j < left.size then left.compose i j
    else if left.size ≤ i then
      right.compose (i - left.size) (j - left.size)
    else .series
| parallel left right, i, j =>
    if j < left.size then left.compose i j
    else if left.size ≤ i then
      right.compose (i - left.size) (j - left.size)
    else .parallel

/- Leaf `i` comes before leaf `j` in the dag. -/
def Precedes (t : SpTree) (i j : Nat) : Prop :=
  i < j ∧ t.compose i j = .series

/- Neither of the leaves comes before the other. -/
def Parallel (t : SpTree) (i j : Nat) : Prop :=
  (i < j ∧ t.compose i j = .parallel) ∨
    (j < i ∧ t.compose j i = .parallel)

instance (t : SpTree) (i j : Nat) :
    Decidable (t.Precedes i j) :=
  inferInstanceAs (Decidable (_ ∧ _))

instance (t : SpTree) (i j : Nat) :
    Decidable (t.Parallel i j) :=
  inferInstanceAs (Decidable (_ ∨ _))

end SpTree

namespace Code

/-
  The trees of the strands before and after the next sync of
  the function.
-/
def parts : Code → SpTree × SpTree
| .done => (.strand, .strand)
| .sync rest =>
    (.strand, .series (parts rest).1 (parts rest).2)
| .call body rest =>
    (.series .strand
      (.series
        (.series (parts body).1 (parts body).2)
        (parts rest).1),
      (parts rest).2)
| .spawn body rest =>
    (.series .strand
      (.parallel
        (.series .strand
          (.series
            (.series (parts body).1 (parts body).2)
            .strand))
        (parts rest).1),
      (parts rest).2)

/- The tree of the rest of a function. -/
def spTree (code : Code) : SpTree :=
  .series (parts code).1 (parts code).2

end Code

------------------------------------------------------------
-- Addresses of Strands
------------------------------------------------------------

/- The nodes that a spawn inserts after the current node. -/
inductive Branch where
| child
| cont
| sync
deriving DecidableEq, Repr

namespace Branch

/- The order in which english lists the branches. -/
def englishRank : Branch → Nat
| child => 0
| cont => 1
| sync => 2

/- The order in which hebrew lists the branches. -/
def hebrewRank : Branch → Nat
| child => 1
| cont => 0
| sync => 2

theorem englishRank_injective :
    Function.Injective englishRank := by
  intro a b h
  cases a <;> cases b <;> simp_all [englishRank]

theorem hebrewRank_injective :
    Function.Injective hebrewRank := by
  intro a b h
  cases a <;> cases b <;> simp_all [hebrewRank]

end Branch

/- The branches from the base node to a node. -/
abbrev Path := List Branch

namespace Path

def english (p : Path) : List Nat := p.map Branch.englishRank

def hebrew (p : Path) : List Nat := p.map Branch.hebrewRank

theorem english_injective : Function.Injective english :=
  List.map_injective_iff.mpr Branch.englishRank_injective

theorem hebrew_injective : Function.Injective hebrew :=
  List.map_injective_iff.mpr Branch.hebrewRank_injective

/- Both preorders put the first path first, or they agree. -/
def SeriesLe (p q : Path) : Prop :=
  p.english ≤ q.english ∧ p.hebrew ≤ q.hebrew

/- English puts the first path first, hebrew the second. -/
def Apart (p q : Path) : Prop :=
  p.english < q.english ∧ q.hebrew < p.hebrew

theorem SeriesLe.refl (p : Path) : SeriesLe p p :=
  ⟨le_refl _, le_refl _⟩

theorem SeriesLe.trans
    {p q r : Path}
    (hpq : SeriesLe p q) (hqr : SeriesLe q r) :
    SeriesLe p r :=
  ⟨hpq.1.trans hqr.1, hpq.2.trans hqr.2⟩

theorem SeriesLe.of_prefix
    {p q : Path} (hPrefix : p <+: q) : SeriesLe p q :=
  ⟨Address.le_of_prefix (hPrefix.map _),
    Address.le_of_prefix (hPrefix.map _)⟩

/- A sync comes after the other branches. -/
theorem SeriesLe.of_sync
    {p a b : Path} {x : Branch}
    (hx : x ≠ .sync)
    (ha : p ++ [x] <+: a)
    (hb : p ++ [.sync] <+: b) :
    SeriesLe a b := by
  have ha₁ := ha.map Branch.englishRank
  have ha₂ := ha.map Branch.hebrewRank
  have hb₁ := hb.map Branch.englishRank
  have hb₂ := hb.map Branch.hebrewRank
  simp only [List.map_append, List.map_cons, List.map_nil]
    at ha₁ ha₂ hb₁ hb₂
  have hEnglish : x.englishRank < Branch.sync.englishRank := by
    cases x <;> simp_all [Branch.englishRank]
  have hHebrew : x.hebrewRank < Branch.sync.hebrewRank := by
    cases x <;> simp_all [Branch.hebrewRank]
  exact
    ⟨(Address.lt_of_prefix_of_prefix hEnglish ha₁ hb₁).le,
      (Address.lt_of_prefix_of_prefix hHebrew ha₂ hb₂).le⟩

/- A child is apart from the continuation. -/
theorem Apart.of_spawn
    {p a b : Path}
    (ha : p ++ [.child] <+: a)
    (hb : p ++ [.cont] <+: b) :
    Apart a b := by
  have ha₁ := ha.map Branch.englishRank
  have ha₂ := ha.map Branch.hebrewRank
  have hb₁ := hb.map Branch.englishRank
  have hb₂ := hb.map Branch.hebrewRank
  simp only [List.map_append, List.map_cons, List.map_nil]
    at ha₁ ha₂ hb₁ hb₂
  exact
    ⟨Address.lt_of_prefix_of_prefix (by decide) ha₁ hb₁,
      Address.lt_of_prefix_of_prefix (by decide) hb₂ ha₂⟩

end Path

/-
  The paths of the strands before and after the next sync,
  and of the strand at the return.
-/
structure Walk where
  block : List Path
  afterSync : List Path
  last : Path

namespace Code

/-
  The walk of the rest of a function from a current path,
  with the path of the sync nodes if there are any.
-/
def walk : Code → Path → Option Path → Walk
| .done, p, pending =>
    { block := [p]
      afterSync := [pending.getD p]
      last := pending.getD p }
| .sync rest, p, pending =>
    let next := walk rest (pending.getD p) none
    { block := [p]
      afterSync := next.block ++ next.afterSync
      last := next.last }
| .call body rest, p, pending =>
    let inner := walk body p none
    let next := walk rest inner.last pending
    { block :=
        [p] ++ ((inner.block ++ inner.afterSync) ++
          next.block)
      afterSync := next.afterSync
      last := next.last }
| .spawn body rest, p, pending =>
    let sync := pending.getD (p ++ [.sync])
    let inner := walk body (p ++ [.child]) none
    let next := walk rest (p ++ [.cont]) (some sync)
    { block :=
        [p] ++
          (([p ++ [.child]] ++
            ((inner.block ++ inner.afterSync) ++
              [inner.last])) ++
            next.block)
      afterSync := next.afterSync
      last := next.last }

/- The path lies in a branch that a pending sync closes. -/
def Pending (p : Path) (pending : Option Path) : Prop :=
  ∀ sync ∈ pending, ∃ q x, x ≠ Branch.sync ∧
    q ++ [x] <+: p ∧ sync = q ++ [.sync]

theorem Pending.none (p : Path) : Pending p none := by
  intro sync hSync
  cases hSync

theorem Pending.mono
    {p q : Path} {pending : Option Path}
    (hPending : Pending p pending)
    (hPrefix : p <+: q) :
    Pending q pending := by
  intro sync hSync
  rcases hPending sync hSync with ⟨r, x, hx, hBelow, hEq⟩
  exact ⟨r, x, hx, hBelow.trans hPrefix, hEq⟩

/- What a pending sync closes comes before it. -/
theorem Pending.seriesLe
    {p sync a b : Path}
    (hPending : Pending p (some sync))
    (ha : p <+: a) (hb : sync <+: b) :
    Path.SeriesLe a b := by
  rcases hPending sync rfl with ⟨q, x, hx, hBelow, rfl⟩
  exact Path.SeriesLe.of_sync hx (hBelow.trans ha) hb

theorem Pending.seriesLe_getD
    {p : Path} {pending : Option Path}
    (hPending : Pending p pending) :
    Path.SeriesLe p (pending.getD p) := by
  cases pending with
  | none => exact Path.SeriesLe.refl p
  | some sync =>
      exact hPending.seriesLe (List.prefix_refl p)
        (List.prefix_refl sync)

/- A spawn makes the sync pending in both of its branches. -/
theorem Pending.spawn
    {p : Path} {pending : Option Path}
    (hPending : Pending p pending)
    {x : Branch} (hx : x ≠ .sync) :
    Pending (p ++ [x])
      (some (pending.getD (p ++ [.sync]))) := by
  intro sync hSync
  cases pending with
  | none =>
      cases hSync
      exact ⟨p, x, hx, List.prefix_refl _, rfl⟩
  | some pending =>
      exact hPending.mono (List.prefix_append p [x]) sync
        hSync

/-
  Where the strands of a walk lie: below the current path
  before the next sync, and below the sync path after it.
  The walk ends at the last of them in both preorders.
-/
structure WalkBounds
    (w : Walk) (p : Path) (pending : Option Path) : Prop where
  start : p ∈ w.block
  block : ∀ a ∈ w.block, p <+: a
  afterSync :
    ∀ b ∈ w.afterSync, pending.getD p <+: b
  last : w.last ∈ w.afterSync
  across :
    ∀ a ∈ w.block, ∀ b ∈ w.afterSync, Path.SeriesLe a b
  end_afterSync : ∀ b ∈ w.afterSync, Path.SeriesLe b w.last

namespace WalkBounds

variable {w : Walk} {p : Path} {pending : Option Path}

theorem end_block
    (h : WalkBounds w p pending) :
    ∀ a ∈ w.block, Path.SeriesLe a w.last :=
  fun a ha => h.across a ha w.last h.last

/- All strands of a whole function lie below its start. -/
theorem below
    (h : WalkBounds w p none) :
    ∀ a ∈ w.block ++ w.afterSync, p <+: a := by
  intro a ha
  rcases List.mem_append.mp ha with ha | ha
  · exact h.block a ha
  · exact h.afterSync a ha

theorem end_all
    (h : WalkBounds w p pending) :
    ∀ a ∈ w.block ++ w.afterSync,
      Path.SeriesLe a w.last := by
  intro a ha
  rcases List.mem_append.mp ha with ha | ha
  · exact h.end_block a ha
  · exact h.end_afterSync a ha

theorem last_below
    (h : WalkBounds w p none) : p <+: w.last :=
  h.afterSync w.last h.last

end WalkBounds

theorem walk_bounds
    (code : Code) (p : Path) (pending : Option Path)
    (hPending : Pending p pending) :
    WalkBounds (walk code p pending) p pending := by
  induction code generalizing p pending with
  | done =>
      refine ⟨?_, ?_, ?_, ?_, ?_, ?_⟩
      · simp [walk]
      · simp [walk]
      · simp [walk]
      · simp [walk]
      · simpa [walk] using hPending.seriesLe_getD
      · simpa [walk] using Path.SeriesLe.refl _
  | sync rest ih =>
      have hNext := ih (pending.getD p) none (Pending.none _)
      refine ⟨?_, ?_, ?_, ?_, ?_, ?_⟩
      · simp [walk]
      · simp [walk]
      · exact hNext.below
      · exact List.mem_append_right _ hNext.last
      · intro a ha b hb
        obtain rfl : a = p := by simpa [walk] using ha
        exact hPending.seriesLe_getD.trans
          (Path.SeriesLe.of_prefix (hNext.below b hb))
      · exact hNext.end_all
  | call body rest ihBody ihRest =>
      have hInner := ihBody p none (Pending.none p)
      have hBelow := hInner.last_below
      have hNext := ihRest (walk body p none).last pending
        (hPending.mono hBelow)
      refine ⟨?_, ?_, ?_, hNext.last, ?_, hNext.end_afterSync⟩
      · simp [walk]
      · intro a ha
        simp only [walk, List.mem_append,
          List.mem_singleton] at ha
        rcases ha with rfl | ha | ha
        · exact List.prefix_refl _
        · exact hInner.below a (List.mem_append.mpr ha)
        · exact hBelow.trans (hNext.block a ha)
      · intro b hb
        have hb' := hNext.afterSync b hb
        cases pending with
        | none => exact hBelow.trans hb'
        | some sync => exact hb'
      · -- Everything before the rest ends where it starts.
        intro a ha b hb
        have hRest := hNext.across _ hNext.start b hb
        simp only [walk, List.mem_append,
          List.mem_singleton] at ha
        rcases ha with rfl | ha | ha
        · exact (Path.SeriesLe.of_prefix hBelow).trans hRest
        · exact (hInner.end_all a
            (List.mem_append.mpr ha)).trans hRest
        · exact hNext.across a ha b hb
  | spawn body rest ihBody ihRest =>
      have hInner := ihBody (p ++ [.child]) none
        (Pending.none _)
      have hNext := ihRest (p ++ [.cont]) _
        (hPending.spawn (x := .cont) (by decide))
      have hChild :=
        hPending.spawn (x := .child) (by decide)
      refine ⟨?_, ?_, ?_, hNext.last, ?_, hNext.end_afterSync⟩
      · simp [walk]
      · intro a ha
        simp only [walk, List.mem_append,
          List.mem_singleton] at ha
        rcases ha with rfl | ((rfl | ha | rfl) | ha)
        · exact List.prefix_refl _
        · exact List.prefix_append _ _
        · exact (List.prefix_append _ _).trans
            (hInner.below a (List.mem_append.mpr ha))
        · exact (List.prefix_append _ _).trans
            hInner.last_below
        · exact (List.prefix_append _ _).trans
            (hNext.block a ha)
      · intro b hb
        have hb' := hNext.afterSync b hb
        cases pending with
        | none => exact (List.prefix_append _ _).trans hb'
        | some sync => exact hb'
      · -- The sync comes after the child and the rest.
        intro a ha b hb
        have hb' := hNext.afterSync b hb
        simp only [walk, List.mem_append,
          List.mem_singleton] at ha
        rcases ha with rfl | ((rfl | ha | rfl) | ha)
        · exact (Path.SeriesLe.of_prefix
            (List.prefix_append _ [.cont])).trans
              (hNext.across _ hNext.start b hb)
        · exact hChild.seriesLe (List.prefix_refl _) hb'
        · exact hChild.seriesLe
            (hInner.below a (List.mem_append.mpr ha)) hb'
        · exact hChild.seriesLe hInner.last_below hb'
        · exact hNext.across a ha b hb

end Code

------------------------------------------------------------
-- Paths Match the Tree
------------------------------------------------------------

/- What the paths say about two strands, the first earlier. -/
def Composition.Holds : Composition → Path → Path → Prop
| series => Path.SeriesLe
| parallel => Path.Apart

/- The paths of all strands agree with their composition. -/
structure Matches (t : SpTree) (paths : List Path) : Prop where
  length : paths.length = t.size
  holds :
    ∀ i j a b, i < j → paths[i]? = some a →
      paths[j]? = some b → (t.compose i j).Holds a b

namespace Matches

theorem strand (p : Path) : Matches .strand [p] where
  length := rfl
  holds := by
    intro i j a b hij ha hb
    have hj : j < 1 := by
      simpa using (List.getElem?_eq_some_iff.mp hb).1
    omega

variable {left right : SpTree} {xs ys : List Path}

/- Strands within one part, or across the two parts. -/
private theorem split
    {t : SpTree} (across : Composition)
    (hSize : t.size = left.size + right.size)
    (hCompose : ∀ i j, t.compose i j =
      if j < left.size then left.compose i j
      else if left.size ≤ i then
        right.compose (i - left.size) (j - left.size)
      else across)
    (hLeft : Matches left xs)
    (hRight : Matches right ys)
    (hAcross : ∀ a ∈ xs, ∀ b ∈ ys, across.Holds a b) :
    Matches t (xs ++ ys) where
  length := by
    rw [List.length_append, hLeft.length, hRight.length,
      hSize]
  holds := by
    intro i j a b hij ha hb
    rw [hCompose]
    have hLength := hLeft.length
    by_cases hj : j < left.size
    · rw [if_pos hj]
      rw [List.getElem?_append_left (by omega)] at ha hb
      exact hLeft.holds i j a b hij ha hb
    · rw [if_neg hj]
      rw [List.getElem?_append_right (by omega)] at hb
      by_cases hi : left.size ≤ i
      · rw [if_pos hi]
        rw [List.getElem?_append_right (by omega)] at ha
        rw [hLength] at ha hb
        exact hRight.holds _ _ a b (by omega) ha hb
      · rw [if_neg hi]
        rw [List.getElem?_append_left (by omega)] at ha
        exact hAcross a (List.mem_of_getElem? ha)
          b (List.mem_of_getElem? hb)

theorem series
    (hLeft : Matches left xs)
    (hRight : Matches right ys)
    (hAcross : ∀ a ∈ xs, ∀ b ∈ ys, Path.SeriesLe a b) :
    Matches (.series left right) (xs ++ ys) :=
  split .series rfl (fun _ _ => rfl) hLeft hRight hAcross

theorem parallel
    (hLeft : Matches left xs)
    (hRight : Matches right ys)
    (hAcross : ∀ a ∈ xs, ∀ b ∈ ys, Path.Apart a b) :
    Matches (.parallel left right) (xs ++ ys) :=
  split .parallel rfl (fun _ _ => rfl) hLeft hRight hAcross

end Matches

namespace Code

/- The two lists of a walk match the two trees of its code. -/
theorem matches_parts
    (code : Code) (p : Path) (pending : Option Path)
    (hPending : Pending p pending) :
    Matches (parts code).1 (walk code p pending).block ∧
      Matches (parts code).2
        (walk code p pending).afterSync := by
  induction code generalizing p pending with
  | done => exact ⟨Matches.strand _, Matches.strand _⟩
  | sync rest ih =>
      have hNone := Pending.none (pending.getD p)
      have hNext := ih _ _ hNone
      have hBounds := walk_bounds rest _ _ hNone
      exact ⟨Matches.strand p,
        hNext.1.series hNext.2 hBounds.across⟩
  | call body rest ihBody ihRest =>
      have hInner := ihBody p none (Pending.none p)
      have hInnerBounds :=
        walk_bounds body p none (Pending.none p)
      have hMono := hPending.mono hInnerBounds.last_below
      have hNext := ihRest _ _ hMono
      have hNextBounds := walk_bounds rest _ _ hMono
      refine ⟨?_, hNext.2⟩
      have hBody :=
        hInner.1.series hInner.2 hInnerBounds.across
      refine (Matches.strand p).series
        (hBody.series hNext.1 ?_) ?_
      · intro a ha b hb
        exact (hInnerBounds.end_all a ha).trans
          (Path.SeriesLe.of_prefix (hNextBounds.block b hb))
      · intro a ha b hb
        obtain rfl := List.mem_singleton.mp ha
        refine Path.SeriesLe.of_prefix ?_
        rcases List.mem_append.mp hb with hb | hb
        · exact hInnerBounds.below b hb
        · exact hInnerBounds.last_below.trans
            (hNextBounds.block b hb)
  | spawn body rest ihBody ihRest =>
      have hInner := ihBody (p ++ [.child]) none
        (Pending.none _)
      have hInnerBounds := walk_bounds body (p ++ [.child])
        none (Pending.none _)
      have hSpawn := hPending.spawn (x := .cont) (by decide)
      have hNext := ihRest _ _ hSpawn
      have hNextBounds := walk_bounds rest _ _ hSpawn
      refine ⟨?_, hNext.2⟩
      have hBody :=
        hInner.1.series hInner.2 hInnerBounds.across
      have hReturn := hBody.series
        (Matches.strand (walk body (p ++ [.child]) none).last)
        (fun a ha b hb => by
          obtain rfl := List.mem_singleton.mp hb
          exact hInnerBounds.end_all a ha)
      have hBelow : ∀ b ∈
          ((walk body (p ++ [.child]) none).block ++
            (walk body (p ++ [.child]) none).afterSync) ++
            [(walk body (p ++ [.child]) none).last],
          p ++ [.child] <+: b := by
        intro b hb
        rcases List.mem_append.mp hb with hb | hb
        · exact hInnerBounds.below b hb
        · rw [List.mem_singleton.mp hb]
          exact hInnerBounds.last_below
      have hHelper := (Matches.strand (p ++ [.child])).series
        hReturn (fun a ha b hb => by
          obtain rfl := List.mem_singleton.mp ha
          exact Path.SeriesLe.of_prefix (hBelow b hb))
      have hChild : ∀ a ∈ [p ++ [.child]] ++
          (((walk body (p ++ [.child]) none).block ++
            (walk body (p ++ [.child]) none).afterSync) ++
            [(walk body (p ++ [.child]) none).last]),
          p ++ [.child] <+: a := by
        intro a ha
        rcases List.mem_append.mp ha with ha | ha
        · simp [List.mem_singleton.mp ha]
        · exact hBelow a ha
      refine (Matches.strand p).series
        (hHelper.parallel hNext.1 ?_) ?_
      · intro a ha b hb
        exact Path.Apart.of_spawn (hChild a ha)
          (hNextBounds.block b hb)
      · intro a ha b hb
        obtain rfl := List.mem_singleton.mp ha
        refine Path.SeriesLe.of_prefix ?_
        rcases List.mem_append.mp hb with hb | hb
        · exact (List.prefix_append _ _).trans (hChild b hb)
        · exact (List.prefix_append _ _).trans
            (hNextBounds.block b hb)

/- The paths of a function match its tree. -/
theorem matches_walk (code : Code) (p : Path) :
    Matches code.spTree
      ((code.walk p none).block ++
        (code.walk p none).afterSync) := by
  have hNone := Pending.none p
  have hParts := matches_parts code p none hNone
  exact hParts.1.series hParts.2
    (walk_bounds code p none hNone).across

end Code

end PRacer
