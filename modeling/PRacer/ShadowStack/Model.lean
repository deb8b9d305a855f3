import PRacer.Foundations.InsertionOrder

/-
  The shadow stack of fork-join code run by one worker
  (`shadow_stack.cpp`), and the hooks that a program calls.

  A hook returns `none` where an assertion of the source
  fails or a node is missing.

  Main declarations:
    * `ShadowStack.doEnterBegin`, `ShadowStack.doDetachBegin`,
      `ShadowStack.doSyncBegin`, `ShadowStack.doLeaveEnd`
    * `Code`, `ShadowStack.exec`, `ShadowStack.run`
-/

------------------------------------------------------------
-- The Stack
------------------------------------------------------------

namespace PRacer

open Foundations

/- A frame; `helper` is its `FRAME_HELPER_MASK` flag. -/
structure FrameData where
  currentEnglish : Option Nat
  currentHebrew : Option Nat
  contEnglish : Option Nat
  contHebrew : Option Nat
  syncEnglish : Option Nat
  syncHebrew : Option Nat
  helper : Bool
deriving DecidableEq, Repr

/-
  The two orders, the frames from the head down, and the
  current nodes of all strands executed so far.
-/
structure ShadowStack where
  english : OrderList
  hebrew : OrderList
  frames : List FrameData
  strands : List (Nat × Nat)

namespace ShadowStack

/- The stack after `init_strand` for the first frame. -/
def initStrand : ShadowStack where
  english := OrderList.singleton
  hebrew := OrderList.singleton
  frames :=
    [{ currentEnglish := some 0
       currentHebrew := some 0
       contEnglish := none
       contHebrew := none
       syncEnglish := none
       syncHebrew := none
       helper := false }]
  strands := []

/- A called function starts with the nodes of its caller. -/
def doEnterBegin (s : ShadowStack) : Option ShadowStack :=
  match s.frames with
  | [] => none
  | parent :: rest =>
      some
        { s with
          frames :=
            { currentEnglish := parent.currentEnglish
              currentHebrew := parent.currentHebrew
              contEnglish := none
              contHebrew := none
              syncEnglish := none
              syncHebrew := none
              helper := false } :: parent :: rest }

/- The nodes of the next sync, made by the first spawn. -/
def firstOfGroup
    (s : ShadowStack) (parent : FrameData)
    (currentEnglish currentHebrew : Nat) :
    Option (FrameData × ShadowStack) :=
  match parent.syncEnglish, parent.syncHebrew with
  | none, none =>
      let (syncEnglish, english) :=
        s.english.insert currentEnglish
      let (syncHebrew, hebrew) :=
        s.hebrew.insert currentHebrew
      some
        ({ parent with
            syncEnglish := some syncEnglish
            syncHebrew := some syncHebrew },
          { s with english := english, hebrew := hebrew })
  | none, some _ => none
  | some _, _ => some (parent, s)

/-
  A spawn pushes a helper frame.  In english the child comes
  before the continuation, in hebrew after it.
-/
def doDetachBegin (s : ShadowStack) : Option ShadowStack :=
  match s.frames with
  | [] => none
  | parent :: rest =>
      if parent.helper then none
      else
        match parent.currentEnglish, parent.currentHebrew with
        | some currentEnglish, some currentHebrew =>
            match s.firstOfGroup parent
              currentEnglish currentHebrew with
            | none => none
            | some (parent, s) =>
                let (childEnglish, english₁) :=
                  s.english.insert currentEnglish
                let (contEnglish, english₂) :=
                  english₁.insert childEnglish
                let (contHebrew, hebrew₁) :=
                  s.hebrew.insert currentHebrew
                let (childHebrew, hebrew₂) :=
                  hebrew₁.insert contHebrew
                some
                  { s with
                    english := english₂
                    hebrew := hebrew₂
                    frames :=
                      { currentEnglish := some childEnglish
                        currentHebrew := some childHebrew
                        contEnglish := none
                        contHebrew := none
                        syncEnglish := none
                        syncHebrew := none
                        helper := true } ::
                      { parent with
                        currentEnglish := none
                        currentHebrew := none
                        contEnglish := some contEnglish
                        contHebrew := some contHebrew } ::
                      rest }
        | _, _ => none

/- A sync moves on to the sync nodes, if there are any. -/
def doSyncBegin (s : ShadowStack) : Option ShadowStack :=
  match s.frames with
  | [] => none
  | f :: rest =>
      if f.helper ∨ f.currentEnglish = none ∨
          f.currentHebrew = none ∨ f.contEnglish ≠ none ∨
          f.contHebrew ≠ none then none
      else
        match f.syncEnglish, f.syncHebrew with
        | some syncEnglish, some syncHebrew =>
            some
              { s with
                frames :=
                  { f with
                    currentEnglish := some syncEnglish
                    currentHebrew := some syncHebrew
                    syncEnglish := none
                    syncHebrew := none } :: rest }
        | none, none => some s
        | _, _ => none

/-
  A call hands its current nodes to the caller; a spawned
  child leaves the parent at its continuation.
-/
def doLeaveEnd (s : ShadowStack) : Option ShadowStack :=
  match s.frames with
  | [] => none
  | [_] => some s
  | child :: parent :: rest =>
      if child.helper then
        if parent.currentEnglish ≠ none ∨
            parent.currentHebrew ≠ none ∨
            parent.contEnglish = none ∨
            parent.contHebrew = none ∨
            parent.syncEnglish = none ∨
            parent.syncHebrew = none then none
        else
          some
            { s with
              frames :=
                { parent with
                  currentEnglish := parent.contEnglish
                  currentHebrew := parent.contHebrew
                  contEnglish := none
                  contHebrew := none } :: rest }
      else
        if parent.contEnglish ≠ none ∨
            parent.contHebrew ≠ none then none
        else
          some
            { s with
              frames :=
                { parent with
                  currentEnglish := child.currentEnglish
                  currentHebrew := child.currentHebrew } ::
                rest }

/- Note the current nodes of the strand that executes. -/
def strand (s : ShadowStack) : Option ShadowStack :=
  match s.frames with
  | [] => none
  | f :: _ =>
      match f.currentEnglish, f.currentHebrew with
      | some english, some hebrew =>
          some
            { s with
              strands := s.strands ++ [(english, hebrew)] }
      | _, _ => none

end ShadowStack

------------------------------------------------------------
-- Programs
------------------------------------------------------------

/-
  The rest of a function: it returns, syncs, or calls or
  spawns a function and goes on.
-/
inductive Code where
| done
| sync (rest : Code)
| call (body rest : Code)
| spawn (body rest : Code)
deriving DecidableEq, Repr

namespace ShadowStack

/-
  One worker executes the rest of a function, from the strand
  it is in up to the strand after the sync at its return.
-/
def exec : Code → ShadowStack → Option ShadowStack
| .done, s =>
    s.strand.bind fun s =>
    s.doSyncBegin.bind strand
| .sync rest, s =>
    s.strand.bind fun s =>
    s.doSyncBegin.bind (exec rest)
| .call body rest, s =>
    s.strand.bind fun s =>
    s.doEnterBegin.bind fun s =>
    (exec body s).bind fun s =>
    s.doLeaveEnd.bind (exec rest)
| .spawn body rest, s =>
    s.strand.bind fun s =>
    s.doDetachBegin.bind fun s =>
    -- The helper frame calls the spawned function.
    s.strand.bind fun s =>
    s.doEnterBegin.bind fun s =>
    (exec body s).bind fun s =>
    s.doLeaveEnd.bind fun s =>
    s.strand.bind fun s =>
    s.doLeaveEnd.bind (exec rest)

/- A whole program, run from its first strand. -/
def run (main : Code) : Option ShadowStack :=
  exec main initStrand

end ShadowStack

end PRacer
