import Restline.Files.Tree
import Restline.Text.Quoted

/-!
Replacement of a file in one step. The new contents go into a temporary file beside the target, which is
then renamed; whoever reads the target sees the old contents or the new ones. Each step may fail, and
after a failure the temporary file is removed again.

* `Replacement.Step` : the steps, of which any may fail.
* `Replacement.run` : all steps on a tree, for a choice of the steps that fail.
* `Tree.replace` : replacement where only those steps fail that the tree itself rules out.
-/

set_option autoImplicit false

namespace Restline

namespace Replacement

/-- The steps of a replacement. -/
inductive Step
  | create
  | write
  | flush
  | sync
  | close
  | rename
  /-- Closing the file once more after a failed step. -/
  | closeAfterFailure
  /-- Removing the temporary file after a failed step. -/
  | remove
deriving DecidableEq, Repr

/-- How a replacement ended. -/
inductive Outcome
  | replaced
  | failed (step : Step)
deriving DecidableEq, Repr

/-- What is done after a failed step: the file is closed if it is still open, and then removed. When
closing fails nothing is removed. A file that could not be closed is not closed a second time. -/
def cleanUp (fails : Step → Bool) (temp : Spot) (t : Tree) (isOpen : Bool) (step : Step) :
    Outcome × Tree :=
  if isOpen && fails .closeAfterFailure then (.failed .closeAfterFailure, t)
  else if fails .remove then (.failed step, t)
  else (.failed step, t.erase temp)

/-- All steps, for a choice of those that fail. -/
def run (fails : Step → Bool) (target temp : Spot) (data : ByteArray) (t : Tree) : Outcome × Tree :=
  if fails .create then (.failed .create, t)
  else
    let created := t.put temp (.file ByteArray.empty)
    if fails .write then cleanUp fails temp created true .write
    else if fails .flush then cleanUp fails temp created true .flush
    else
      let written := t.put temp (.file data)
      if fails .sync then cleanUp fails temp written true .sync
      else if fails .close then cleanUp fails temp written false .close
      else if fails .rename then cleanUp fails temp written false .rename
      else (.replaced, (written.erase temp).put target (.file data))

end Replacement

namespace Tree

/-- The name of a temporary file for a name. -/
def temporaryName (name : String) (n : Nat) : String :=
  "." ++ name ++ "." ++ String.ofList (Text.hexDigits 8 n) ++ ".tmp"

/-- The name of a temporary file that is not there yet, if one is left. -/
def freshName? (t : Tree) (dir : Spot) (name : String) : Option String :=
  let isFree (n : Nat) : Bool := (t.entry? (dir ++ [temporaryName name n])).isNone
  ((List.range (t.entries.length + 1)).find? isFree).map (temporaryName name)

/-- The path ends in a name that a file can be put under. -/
def canBeReplaced (p : Path) : Bool := !p.names.isEmpty && p.fileName != ".."

/-- Puts bytes into the file at the end of a path whose parent is there, through a temporary file. -/
def replace (t : Tree) (cwd : Spot) (p : Path) (bytes : ByteArray) : Option FileFault × Tree :=
  match t.follow cwd p.parent with
  | .error f => (some f, t)
  | .ok dir =>
    match t.freshName? dir p.fileName with
    | none => (some .alreadyThere, t)
    | some fresh =>
      match t.follow cwd (p.parent.join fresh), t.follow cwd p with
      | .error f, _ => (some f, t)
      | .ok _, .error f => (some f, t)
      | .ok temp, .ok target =>
        -- the temporary file is new, so only the renaming can meet something in its way
        let fails := fun (s : Replacement.Step) =>
          s = .rename && (!canBeReplaced p || t.isDirAt target)
        match Replacement.run fails target temp bytes t with
        | (.replaced, t) => (none, t)
        | (.failed _, t) => (some (if canBeReplaced p then .isDirectory else .busy), t)

end Tree

end Restline
