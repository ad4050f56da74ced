import Restline.Fault.Kind
import Restline.Files.Path

/-!
Trees of files. A tree is a list of places with what stands there; the root is always a directory. A path
is followed name by name from where it begins: every name but the last must lead to a directory, and two
dots lead back to the parent.

* `Tree` : the trees, with `Tree.entry?`, `Tree.put`, `Tree.erase`.
* `Tree.follow` : the place that a path leads to.
* `Tree.isFile`, `Tree.read`, `Tree.write`, `Tree.makeDirs`, `Tree.unlink` : operations.
-/

set_option autoImplicit false

namespace Restline

/-- What stands at a place. -/
inductive FileEntry
  | file (bytes : ByteArray)
  | directory

/-- A place: the names from the root. -/
abbrev Spot := List String

/-- A tree of files. -/
structure Tree where
  entries : List (Spot × FileEntry) := []

/-- Why an operation on files fails. -/
inductive FileFault
  | missing
  | notDirectory
  | isDirectory
  | alreadyThere
  | nameTooLong
  | nulInName
  /-- The directory itself, its parent or the root cannot be replaced. -/
  | busy
deriving DecidableEq, Repr

/-- The failure as a crash. -/
def FileFault.crash : FileFault → Crash
  | .missing => .fileMissing
  | .notDirectory => .notDirectory
  | .isDirectory => .isDirectory
  | .alreadyThere => .fileExists
  | .nameTooLong | .busy => .badFileName
  | .nulInName => .badValue

namespace Tree

/-! ### Places -/

/-- What a list of entries has at a place. -/
def find? : List (Spot × FileEntry) → Spot → Option FileEntry
  | [], _ => none
  | (s, e) :: r, spot => if s = spot then some e else find? r spot

/-- What stands at a place; the root is a directory. -/
def entry? (t : Tree) : Spot → Option FileEntry
  | [] => some .directory
  | spot => find? t.entries spot

/-- The tree without what stands at a place. -/
def erase (t : Tree) (spot : Spot) : Tree := ⟨t.entries.filter (fun e => e.1 ≠ spot)⟩

/-- The tree with something at a place. -/
def put (t : Tree) (spot : Spot) (e : FileEntry) : Tree := ⟨(spot, e) :: (t.erase spot).entries⟩

/-- A directory stands at the place. -/
def isDirAt (t : Tree) (spot : Spot) : Bool :=
  match t.entry? spot with
  | some .directory => true
  | _ => false

/-- The bytes of the file at a place. -/
def fileAt? (t : Tree) (spot : Spot) : Option ByteArray :=
  match t.entry? spot with
  | some (.file bytes) => some bytes
  | _ => none

/-- The places of all files. -/
def files (t : Tree) : List Spot :=
  t.entries.filterMap (fun e => match e.2 with | .file _ => some e.1 | .directory => none)

/-- The names of the files directly in a directory. -/
def fileNamesIn (t : Tree) (spot : Spot) : List String :=
  t.files.filterMap (fun f =>
    match f.getLast? with
    | some name => if f.dropLast = spot then some name else none
    | none => none)

/-! ### Following paths -/

/-- The longest name, in bytes. -/
def maxName : Nat := 255

/-- The longest path, in bytes. -/
def maxPath : Nat := 4095

/-- The place that names lead to from a place. -/
def followFrom (t : Tree) : Spot → List String → Except FileFault Spot
  | spot, [] => .ok spot
  | spot, name :: rest =>
    match t.entry? spot with
    | none => .error .missing
    | some (.file _) => .error .notDirectory
    | some .directory =>
      -- there are no links, so the parent is the place before
      if name = ".." then t.followFrom spot.dropLast rest
      else if maxName < name.utf8ByteSize then .error .nameTooLong
      else t.followFrom (spot ++ [name]) rest

/-- The path can be handed to the system at all. -/
def admissible (p : Path) : Except FileFault Unit :=
  if p.toText.toList.contains '\x00' then .error .nulInName
  else if maxPath < p.toText.utf8ByteSize then .error .nameTooLong
  else .ok ()

/-- The place that a path leads to, seen from a working directory; something may stand there or not. -/
def follow (t : Tree) (cwd : Spot) (p : Path) : Except FileFault Spot := do
  admissible p
  t.followFrom (if p.isAbsolute then [] else cwd) p.names

/-! ### Questions -/

/-- A file stands at the end of the path. A name that is too long for the system is a failure; anything
else that is wrong with the path means that there is no file. -/
def isFile (t : Tree) (cwd : Spot) (p : Path) : Except FileFault Bool :=
  match t.follow cwd p with
  | .ok spot => .ok (t.fileAt? spot).isSome
  | .error .nameTooLong => .error .nameTooLong
  | .error _ => .ok false

/-- The bytes of the file at the end of the path. -/
def read (t : Tree) (cwd : Spot) (p : Path) : Except FileFault ByteArray := do
  let spot ← t.follow cwd p
  match t.entry? spot with
  | none => .error .missing
  | some .directory => .error .isDirectory
  | some (.file bytes) => .ok bytes

/-! ### Changes -/

/-- Makes the directory at the end of a path whose parent is there. -/
def makeDir (t : Tree) (cwd : Spot) (p : Path) (last : Bool) : Except FileFault Tree := do
  let spot ← t.follow cwd p
  match t.entry? spot with
  | some .directory => .ok t
  -- a file on the way is found out at the next name
  | some (.file _) => if last then .error .alreadyThere else .ok t
  | none => .ok (t.put spot .directory)

/-- Makes the directories on the way along further names. What was made before a failure stays. -/
def makeDirsFrom (t : Tree) (cwd : Spot) (p : Path) : List String → Option FileFault × Tree
  | [] => (none, t)
  | name :: rest =>
    let q : Path := ⟨p.root, p.names ++ [name]⟩
    match t.makeDir cwd q rest.isEmpty with
    | .ok t => t.makeDirsFrom cwd q rest
    | .error f => (some f, t)

/-- Makes the directory at the end of a path and all on the way to it. -/
def makeDirs (t : Tree) (cwd : Spot) (p : Path) : Option FileFault × Tree :=
  match admissible p with
  | .error f => (some f, t)
  | .ok () => t.makeDirsFrom cwd ⟨p.root, []⟩ p.names

/-- Puts bytes into the file at the end of the path. -/
def write (t : Tree) (cwd : Spot) (p : Path) (bytes : ByteArray) : Except FileFault Tree := do
  let spot ← t.follow cwd p
  if t.isDirAt spot then .error .isDirectory else .ok (t.put spot (.file bytes))

/-- Removes the file at the end of the path. -/
def unlink (t : Tree) (cwd : Spot) (p : Path) : Except FileFault Tree := do
  let spot ← t.follow cwd p
  match t.entry? spot with
  | none => .error .missing
  | some .directory => .error .isDirectory
  | some (.file _) => .ok (t.erase spot)

end Tree

end Restline
