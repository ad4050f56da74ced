import Restline.Program.Start
import Restline.Program.Surroundings

/-!
The command line. What the program may look at is read from the machine, the program is started on it,
and what it changed and printed is carried over to the machine. There is no way to a service from here:
every request fails to connect.
-/

set_option autoImplicit false

namespace Restline.Main

/-- A place as it is written. -/
def spotText (spot : Spot) : String := "/" ++ "/".intercalate spot

/-- What becomes of an action, or a value when the machine does not allow it. -/
def orElse {α : Type} (x : IO α) (a : α) : IO α := try x catch _ => pure a

/-- What stands at a place and, up to a depth, below it, laid into a tree. -/
def loadSpot (tree : Tree) (spot : Spot) : Nat → IO Tree
  | 0 => pure tree
  | depth + 1 => do
    let path ← IO.FS.realPath (spotText spot)
    if ← path.isDir then
      let mut tree := if spot.isEmpty then tree else tree.put spot .directory
      for entry in ← path.readDir do
        tree ← orElse (loadSpot tree (spot ++ [entry.fileName]) depth) tree
      return tree
    else return tree.put spot (.file (← IO.FS.readBinFile path))

/-- The directories on the way to a place, laid into a tree. -/
def loadWay (tree : Tree) (spot : Spot) : IO Tree := do
  let mut tree := tree
  for n in List.range (spot.length - 1) do
    let above := spot.take (n + 1)
    if ← (← IO.FS.realPath (spotText above)).isDir then tree := tree.put above .directory
  return tree

/-- How deep directories are read. -/
def maxDepth : Nat := 5

/-- The host with what stands at some places. -/
def loadPlaces (h : Host) (places : List Path) : IO Host := do
  let mut files := h.files
  for p in places do
    let spot := if p.isAbsolute then p.names else h.workDir ++ p.names
    if !spot.contains ".." then
      files ← orElse (loadWay files spot) files
      files ← orElse (loadSpot files spot maxDepth) files
  return { h with files := files }

/-- The host with the values of some variables. -/
def loadVariables (h : Host) (names : List String) : IO Host := do
  let mut env := h.env
  for name in names do
    if let some value ← IO.getEnv name then env := env.put name value
  return { h with env := env }

/-- All lines of a stream. -/
partial def readAll (stream : IO.FS.Stream) (text : String) : IO String := do
  let line ← stream.getLine
  if line.isEmpty then return text else readAll stream (text ++ line)

/-- The machine as far as the program may look at it. -/
def loadHost (words : List String) : IO Host := do
  let here ← IO.currentDir
  let input ← IO.getStdin
  let noService : WebOutcome := .failed .connectError "no way to the service"
  let h : Host := {
    workDir := (Path.ofText here.toString).names
    clock := toString (← IO.monoMsNow)
    outputIsTerminal := ← (← IO.getStdout).isTty
    outcomes := [noService] }
  let h ← loadVariables h Surroundings.usualSettings
  let h ← loadPlaces h (Surroundings.places h words)
  let h ← loadVariables h (Surroundings.settings h)
  let h ← loadPlaces h (Surroundings.places h words)
  let h ← if Surroundings.needsInput words then pure { h with input := ← readAll input "" } else pure h
  if Surroundings.needsSecret h words && (← input.isTty) then
    return { h with typed := some (← input.getLine) }
  else return h

/-- Carries the changes of the files over to the machine. A file is put in place in one step. -/
def saveFiles (before after : Tree) : IO Unit := do
  for (spot, entry) in after.entries.reverse do
    match entry with
    | .directory => if (before.entry? spot).isNone then IO.FS.createDirAll (spotText spot)
    | .file bytes =>
      if (before.fileAt? spot).map ByteArray.toList ≠ some bytes.toList then
        let temporary := spotText (spot.dropLast ++ [Tree.temporaryName (spot.getLast?.getD "") 0])
        IO.FS.createDirAll (spotText spot.dropLast)
        IO.FS.writeBinFile temporary bytes
        IO.FS.rename temporary (spotText spot)
  for spot in before.files do
    if (after.entry? spot).isNone then IO.FS.removeFile (spotText spot)

/-- Says how a command line ended, where the program has not said it. -/
def sayEnding (err : IO.FS.Stream) : Program.Ending → IO Unit
  | .refused f => err.putStrLn f.message
  | .aborted => err.putStrLn "Aborted."
  | _ => pure ()

end Restline.Main

/-- Carries out a command line. -/
def main (words : List String) : IO UInt32 := do
  let err ← IO.getStderr
  let before ← Restline.Main.loadHost words
  let (result, after) := Restline.Program.start words before
  Restline.Main.saveFiles before.files after.files
  IO.print after.out
  err.putStr after.err
  match result with
  | .ok ending =>
    Restline.Main.sayEnding err ending
    return ending.status.toUInt32
  | .error _ =>
    err.putStrLn "Error: the failure could not be logged."
    return 1
