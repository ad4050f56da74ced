import Restline.Fault
import Restline.Metadata.Command
import Restline.Text.Sorted

/-!
The command index: a tree of groups whose leaves are commands with the versions they exist in. The
groups at the top are the services. A command is found by its segments; without a version the greatest
one is taken.

* `Entry`, `Group`, `Index` : the tree; a name is not both a group and a command of one group.
* `Index.nodeAt` : what segments address, if anything.
* `Index.locate` : the document of a command, or why there is none.
* `Index.ofJson`, `Index.toJson` : reading and writing.
-/

set_option autoImplicit false

namespace Restline

/-! ### The tree -/

/-- A command and the versions it exists in. -/
structure Entry where
  help : Option Help := none
  versions : List String := []

/-- The greatest version. -/
def Entry.latest? (e : Entry) : Option String := Text.greatest? e.versions

/-- A group of groups and commands. -/
inductive Group
  | node (help : Option Help) (groups : List (String × Group)) (commands : List (String × Entry))

namespace Group

/-- Help on the group. -/
def help : Group → Option Help
  | .node h _ _ => h

/-- The groups inside the group. -/
def groups : Group → Keyed Group
  | .node _ gs _ => gs

/-- The commands of the group. -/
def commands : Group → Keyed Entry
  | .node _ _ cs => cs

/-- The names that the group uses both for a group and for a command, in order. -/
def clashes (g : Group) : List String :=
  Text.sorted (g.groups.keys.filter g.commands.has)

end Group

/-- The whole tree. -/
structure Index where
  help : Option Help := none
  groups : Keyed Group := []

/-! ### Addresses -/

/-- What segments can address. -/
inductive Node
  | index (i : Index)
  | group (g : Group)
  | command (e : Entry)

/-- What segments address below a group. -/
def Group.nodeAt (g : Group) : List String → Option Node
  | [] => some (.group g)
  | s :: rest =>
    match g.groups.get? s with
    | some h => h.nodeAt rest
    | none =>
      match g.commands.get? s, rest with
      | some e, [] => some (.command e)
      | _, _ => none

/-- What segments address, if anything. -/
def Index.nodeAt (i : Index) : List String → Option Node
  | [] => some (.index i)
  | s :: rest => (i.groups.get? s).bind (·.nodeAt rest)

/-! ### Locations -/

/-- A command at a version. -/
structure Location where
  segments : List String
  version : String
  entry : Entry

/-- The name of the document. -/
def Location.documentId (l : Location) : String := "_".intercalate (l.segments ++ [l.version])

/-- Why a command is not found. -/
inductive LocateFault
  | noCommand
  | unknownService (name : String)
  | unknownSegment (name : String)
  | surplusSegment (name : String)
  | isGroup (segments : List String)
  | versionNotOffered (version : String)
  | noVersions (segments : List String)
deriving DecidableEq, Repr

namespace LocateFault

/-- The kind of the failure. -/
def kind : LocateFault → FaultKind
  | .noCommand | .isGroup _ => .incompleteCommand
  | .unknownService _ | .unknownSegment _ | .surplusSegment _ => .unknownSegment
  | .versionNotOffered _ => .versionNotFound
  | .noVersions _ => .integrity

/-- The failure in words. -/
def message : LocateFault → String
  | .noCommand => "no command given"
  | .unknownService s => "unknown service: " ++ s
  | .unknownSegment s => "unknown command or group: " ++ s
  | .surplusSegment s => "unknown argument: " ++ s
  | .isGroup ss => "'" ++ " ".intercalate ss ++ "' is a command group, a subcommand is required"
  | .versionNotOffered v => "api version " ++ v ++ " not available"
  | .noVersions ss => "command " ++ " ".intercalate ss ++ " has no versions"

/-- The failure as it is told. -/
def report (f : LocateFault) : Fault := { kind := f.kind, message := f.message }

end LocateFault

/-- The version that is asked for, or the greatest one. -/
def Entry.resolve (e : Entry) (segments : List String) (version : Option String) :
    Except LocateFault String :=
  match version with
  | some v => if e.versions.contains v then .ok v else .error (.versionNotOffered v)
  | none =>
    match e.latest? with
    | some v => .ok v
    | none => .error (.noVersions segments)

/-- The command that segments lead to from a group; `path` is the way to the group. A group goes
before a command of the same name. -/
def Group.find (g : Group) (path : List String) : List String → Except LocateFault (List String × Entry)
  | [] => .error (.isGroup path)
  | s :: rest =>
    match g.groups.get? s with
    | some h => h.find (path ++ [s]) rest
    | none =>
      match g.commands.get? s, rest with
      | some e, [] => .ok (path ++ [s], e)
      | some _, x :: _ => .error (.surplusSegment x)
      | none, _ => .error (.unknownSegment s)

/-- The document of the command that the segments address. -/
def Index.locate (i : Index) (segments : List String) (version : Option String) :
    Except LocateFault Location :=
  match segments with
  | [] => .error .noCommand
  | s :: rest =>
    match i.groups.get? s with
    | none => .error (.unknownService s)
    | some g => do
      let (path, e) ← g.find [s] rest
      let v ← e.resolve path version
      return ⟨path, v, e⟩

/-! ### Reading and writing -/

/-- Reads a command of the index. -/
def Entry.ofJson : Json → Checked Entry :=
  Checked.record fun ms =>
    ((Checked.valid Entry.mk).and
      (optionalField ms (.plain "help") Help.ofJson)).and
      (fieldOr ms (.plain "versions") [] (Checked.listOf Checked.text))

/-- Refuses a group that uses a name twice. -/
def Group.withoutClash (g : Group) : Checked Group :=
  match g.clashes with
  | [] => .valid g
  | names =>
    .flaw (.rule ("names used both as group and command: " ++ ", ".intercalate names))

/-- Reads a group that may have `depth` levels. -/
def Group.readAt : Nat → Json → Checked Group
  | 0, _ => .flaw .nestedTooDeep
  | depth + 1, j =>
    (Checked.record (fun ms =>
      (((Checked.valid Group.node).and
        (optionalField ms (.plain "help") Help.ofJson)).and
        (fieldOr ms ⟨"commandGroups", "command_groups"⟩ [] (Checked.mapOf (readAt depth)))).and
        (fieldOr ms (.plain "commands") [] (Checked.mapOf Entry.ofJson))) j).andThen
      Group.withoutClash

/-- Reads a group. -/
def Group.ofJson (j : Json) : Checked Group := Group.readAt Schema.maxDepth j

/-- Reads an index. -/
def Index.ofJson : Json → Checked Index :=
  Checked.record fun ms =>
    ((Checked.valid Index.mk).and
      (optionalField ms (.plain "help") Help.ofJson)).and
      (fieldOr ms ⟨"commandGroups", "command_groups"⟩ [] (Checked.mapOf Group.ofJson))

/-- A command of the index as a value. -/
def Entry.toJson (e : Entry) : Json :=
  .obj (Json.field "help" Help.toJson e.help ++ [("versions", Json.ofTexts e.versions)])

mutual

/-- A group as a value. -/
def Group.toJson : Group → Json
  | .node h gs cs =>
    .obj (Json.field "help" Help.toJson h
      ++ [("commandGroups", .obj (Group.listToJson gs)),
        ("commands", .obj (cs.map (fun c => (c.1, c.2.toJson))))])

/-- Named groups as members. -/
def Group.listToJson : List (String × Group) → List (String × Json)
  | [] => []
  | (k, g) :: r => (k, g.toJson) :: Group.listToJson r

end

/-- An index as a value. -/
def Index.toJson (i : Index) : Json :=
  .obj (Json.field "help" Help.toJson i.help ++ [("commandGroups", .obj (Group.listToJson i.groups))])

end Restline
