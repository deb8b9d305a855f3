import PRacer.WorkStealing.Model

/-
  The paths of the strands that activations still have, and
  how the paths of two activations compare.

  Two paths are parted if a spawn put them on its two sides.
  A path is closed by another one if that lies behind a sync
  of a spawn that the first one lies below.

  Main declarations:
    * `Path.Parted`, `Path.ClosedBy`, `Path.NotAfter`
    * `Rest.strands`, `Rest.last`
    * `Segment`
-/

------------------------------------------------------------
-- Comparing Paths
------------------------------------------------------------

namespace PRacer

open Foundations

namespace Path

variable {p p' q q' : Path}

def Parted (p q : Path) : Prop :=
  ∃ r : Path,
    (r ++ [.child] <+: p ∧ r ++ [.cont] <+: q) ∨
      (r ++ [.cont] <+: p ∧ r ++ [.child] <+: q)

def ClosedBy (p q : Path) : Prop :=
  ∃ (r : Path) (x : Branch),
    x ≠ .sync ∧ r ++ [x] <+: p ∧ r ++ [.sync] <+: q

/- What is at the second path may run after the first. -/
def NotAfter (p q : Path) : Prop :=
  Parted p q ∨ p <+: q ∨ ClosedBy p q

theorem branch_unique
    {r : Path} {x y : Branch}
    (hx : r ++ [x] <+: p)
    (hy : r ++ [y] <+: p) :
    x = y := by
  have hSame : r ++ [x] = r ++ [y] := by
    rcases List.prefix_or_prefix_of_prefix hx hy with h | h
    · exact h.eq_of_length (by simp)
    · exact (h.eq_of_length (by simp)).symm
  simpa using hSame

theorem Parted.symm
    (h : Parted p q) :
    Parted q p := by
  rcases h with ⟨r, ⟨hp, hq⟩ | ⟨hp, hq⟩⟩
  · exact ⟨r, Or.inr ⟨hq, hp⟩⟩
  · exact ⟨r, Or.inl ⟨hq, hp⟩⟩

theorem Parted.mono
    (h : Parted p q)
    (hp : p <+: p')
    (hq : q <+: q') :
    Parted p' q' := by
  rcases h with ⟨r, ⟨h₁, h₂⟩ | ⟨h₁, h₂⟩⟩
  · exact ⟨r, Or.inl ⟨h₁.trans hp, h₂.trans hq⟩⟩
  · exact ⟨r, Or.inr ⟨h₁.trans hp, h₂.trans hq⟩⟩

theorem ClosedBy.mono
    (h : ClosedBy p q)
    (hp : p <+: p')
    (hq : q <+: q') :
    ClosedBy p' q' := by
  rcases h with ⟨r, x, hx, h₁, h₂⟩
  exact ⟨r, x, hx, h₁.trans hp, h₂.trans hq⟩

theorem Parted.not_prefix
    (h : Parted p q) :
    ¬ p <+: q := by
  intro hPrefix
  rcases h with ⟨r, ⟨h₁, h₂⟩ | ⟨h₁, h₂⟩⟩
  · exact absurd (branch_unique (h₁.trans hPrefix) h₂)
      (by decide)
  · exact absurd (branch_unique (h₁.trans hPrefix) h₂)
      (by decide)

theorem ClosedBy.not_prefix
    (h : ClosedBy p q) :
    ¬ p <+: q := by
  intro hPrefix
  rcases h with ⟨r, x, hx, h₁, h₂⟩
  exact hx (branch_unique (h₁.trans hPrefix) h₂)

theorem ClosedBy.not_prefix_symm
    (h : ClosedBy p q) :
    ¬ q <+: p := by
  intro hPrefix
  rcases h with ⟨r, x, hx, h₁, h₂⟩
  exact hx (branch_unique h₁ (h₂.trans hPrefix))

theorem NotAfter.mono
    (h : NotAfter p q)
    (hq : q <+: q') :
    NotAfter p q' := by
  rcases h with h | h | h
  · exact Or.inl (h.mono (List.prefix_refl p) hq)
  · exact Or.inr (Or.inl (h.trans hq))
  · exact Or.inr (Or.inr (h.mono (List.prefix_refl p) hq))

/- A proper part of the second path is not the first. -/
theorem NotAfter.ne_of_prefix
    (h : NotAfter p q)
    (hq : q <+: q')
    (hNe : q ≠ q') :
    p ≠ q' := by
  rintro rfl
  rcases h with h | h | h
  · exact h.symm.not_prefix hq
  · exact hNe (hq.eq_of_length_le h.length_le)
  · exact h.not_prefix_symm hq

theorem SeriesLe.antisymm
    (h : SeriesLe p q)
    (h' : SeriesLe q p) :
    p = q :=
  english_injective (le_antisymm h.1 h'.1)

theorem Parted.apart
    (h : Parted p q) :
    Apart p q ∨ Apart q p := by
  rcases h with ⟨r, ⟨h₁, h₂⟩ | ⟨h₁, h₂⟩⟩
  · exact Or.inl (Apart.of_spawn h₁ h₂)
  · exact Or.inr (Apart.of_spawn h₂ h₁)

/- What is not after a path does not come before it. -/
theorem NotAfter.not_seriesLe
    (h : NotAfter p q)
    (hNe : p ≠ q) :
    ¬ SeriesLe q p := by
  intro hLe
  rcases h with h | h | h
  · rcases h.apart with hApart | hApart
    · exact absurd hApart.1 (not_lt_of_ge hLe.1)
    · exact absurd hApart.2 (not_lt_of_ge hLe.2)
  · exact hNe ((SeriesLe.of_prefix h).antisymm hLe)
  · rcases h with ⟨r, x, hx, h₁, h₂⟩
    exact hNe ((SeriesLe.of_sync hx h₁ h₂).antisymm hLe)

/- A pending sync closes its branch. -/
theorem closedBy_of_pending
    (h : Code.Pending p (some q)) :
    ClosedBy p q := by
  rcases h q rfl with ⟨r, x, hx, hBelow, rfl⟩
  exact ⟨r, x, hx, hBelow, List.prefix_refl _⟩

end Path

------------------------------------------------------------
-- The Strands That Are Left
------------------------------------------------------------

namespace WorkStealing

namespace Rest

/- The paths of the strands, from the current path on. -/
def strands : Rest → Path → Option Path → List Path
| .code c, p, pending =>
    (c.walk p pending).block ++ (c.walk p pending).afterSync
| .ret, p, _ => [p]
| .enter body, p, _ =>
    p :: (((body.walk p none).block ++
      (body.walk p none).afterSync) ++
        [(body.walk p none).last])
| .leave, p, _ => [p]
| .gone, _, _ => []

/- The path at the return. -/
def last : Rest → Path → Option Path → Path
| .code c, p, pending => (c.walk p pending).last
| .ret, p, _ => p
| .enter body, p, _ => (body.walk p none).last
| .leave, p, _ => p
| .gone, p, _ => p

def size : Rest → Nat
| .code c => c.spTree.size
| .ret => 1
| .enter body => 1 + body.spTree.size + 1
| .leave => 1
| .gone => 0

def isHelper : Rest → Bool
| .code _ => false
| .ret => false
| .enter _ => true
| .leave => true
| .gone => true

/- The next strand ends in a call of `body`. -/
inductive Calls : Rest → Code → Rest → Prop
| code (body rest : Code) :
    Calls (.code (.call body rest)) body (.code rest)
| enter (body : Code) : Calls (.enter body) body .leave

/- The next strand ends in a sync. -/
inductive Syncs : Rest → Rest → Prop
| sync (rest : Code) :
    Syncs (.code (.sync rest)) (.code rest)
| done : Syncs (.code .done) .ret

variable {r next : Rest} {body rest : Code} {p : Path}
variable {pending : Option Path}

namespace Calls

theorem strands
    (h : Calls r body next) :
    r.strands p pending =
      p :: ((Rest.code body).strands p none ++
        next.strands (body.walk p none).last pending) := by
  cases h <;> simp [Rest.strands, Code.walk]

theorem last
    (h : Calls r body next) :
    next.last (body.walk p none).last pending =
      r.last p pending := by
  cases h <;> rfl

theorem size
    (h : Calls r body next) :
    r.size = 1 + body.spTree.size + next.size := by
  cases h with
  | code body rest =>
      simp only [Rest.size, Code.spTree, Code.parts,
        SpTree.size]
      omega
  | enter body => rfl

theorem isHelper
    (h : Calls r body next) :
    next.isHelper = r.isHelper := by
  cases h <;> rfl

theorem not_gone
    (h : Calls r body next) :
    r ≠ .gone := by
  cases h <;> simp

theorem closed
    (h : Calls r body next)
    (hNext : ∀ c, next ≠ .code c) :
    ∀ c, r ≠ .code c := by
  cases h with
  | code body rest => exact absurd rfl (hNext rest)
  | enter body => simp

end Calls

namespace Syncs

theorem strands
    (h : Syncs r next) :
    r.strands p pending =
      p :: next.strands (pending.getD p) none := by
  cases h <;> simp [Rest.strands, Code.walk]

theorem last
    (h : Syncs r next) :
    next.last (pending.getD p) none = r.last p pending := by
  cases h <;> rfl

theorem size
    (h : Syncs r next) :
    r.size = 1 + next.size := by
  cases h <;>
    simp [Rest.size, Code.spTree, Code.parts, SpTree.size]

theorem isHelper
    (h : Syncs r next) :
    next.isHelper = r.isHelper := by
  cases h <;> rfl

theorem not_gone
    (h : Syncs r next) :
    r ≠ .gone := by
  cases h <;> simp

end Syncs

theorem strands_spawn :
    (code (.spawn body rest)).strands p pending =
      p :: ((enter body).strands (p ++ [.child]) none ++
        (code rest).strands (p ++ [.cont])
          (some (pending.getD (p ++ [.sync])))) := by
  simp [strands, Code.walk]

theorem size_spawn :
    (code (.spawn body rest)).size =
      1 + (1 + body.spTree.size + 1) + (code rest).size := by
  simp only [size, Code.spTree, Code.parts, SpTree.size]
  omega

theorem length_strands
    (r : Rest)
    (hPending : Code.Pending p pending) :
    (r.strands p pending).length = r.size := by
  have hCode : ∀ (c : Code) (q : Path) (pending : Option Path),
      Code.Pending q pending →
        ((code c).strands q pending).length =
          c.spTree.size := by
    intro c q pending hPending
    have hParts := Code.matches_parts c q pending hPending
    simp only [strands, List.length_append,
      hParts.1.length, hParts.2.length]
    rfl
  cases r with
  | code c => exact hCode c p pending hPending
  | enter body =>
      have hBody := hCode body p none (Code.Pending.none p)
      simp only [strands] at hBody
      simp only [strands, List.length_cons,
        List.length_append, List.length_nil, size]
      rw [List.length_append] at hBody
      omega
  | _ => simp [strands, size]

end Rest

------------------------------------------------------------
-- Segments of the Program
------------------------------------------------------------

/- The paths of all strands of a program, in serial order. -/
def walkOf (main : Code) : List Path :=
  (main.walk [] none).block ++ (main.walk [] none).afterSync

/- The paths stand in the program from a number on. -/
def Segment
    (main : Code) (leaf : Nat) (paths : List Path) : Prop :=
  paths <+: (walkOf main).drop leaf

namespace Segment

variable {main : Code} {leaf : Nat} {p : Path}
variable {xs ys : List Path}

theorem left
    (h : Segment main leaf (xs ++ ys)) :
    Segment main leaf xs :=
  (List.prefix_append xs ys).trans h

theorem right
    (h : Segment main leaf (xs ++ ys)) :
    Segment main (leaf + xs.length) ys := by
  rcases h with ⟨zs, hEq⟩
  refine ⟨zs, ?_⟩
  rw [← List.drop_drop, ← hEq, List.append_assoc,
    List.drop_left]

theorem head
    (h : Segment main leaf (p :: xs)) :
    (walkOf main)[leaf]? = some p := by
  rcases h with ⟨zs, hEq⟩
  have hGet : ((walkOf main).drop leaf)[0]? = some p := by
    rw [← hEq]
    rfl
  simpa using hGet

theorem tail
    (h : Segment main leaf (p :: xs)) :
    Segment main (leaf + 1) xs := by
  have hCons : Segment main leaf ([p] ++ xs) := h
  exact hCons.right

end Segment

end WorkStealing

end PRacer
