import Restline.CommandLine.Leaf

/-!
The tree of generated commands. Only the groups and the command on the way to the target are made in
full; every other group is empty, and every other command only has its help. Groups come before commands,
each in the order of their names.

* `ApiNode` : the nodes, with `ApiNode.build`.
* `ApiNode.run` : the node that words lead to, and what they give there.
-/

set_option autoImplicit false

namespace Restline

/-- A node of the tree. -/
inductive ApiNode
  | group (name : String) (help : Option String) (children : List ApiNode)
  /-- A command that is not on the way to the target. -/
  | stub (segments : List String) (name : String) (help : Option String)
  | leaf (name : String) (help : Option String) (leaf : Leaf)

namespace ApiNode

/-- The name of the node. -/
def name : ApiNode → String
  | .group n _ _ => n
  | .stub _ n _ => n
  | .leaf n _ _ => n

/-- Help on a group or a command of the index. -/
def shownHelp (h : Option Help) : Option String :=
  ((Help.text? h).map Text.withoutIndent).bind nonEmpty?

/-! ### Building -/

/-- Building reads documents through the cache of a store. -/
abbrev Building := ExceptT Fault (StateM Cache)

/-- The index of the store. -/
def readIndex (b : Bundle) : Building Index := fun c =>
  let (r, c) := c.getIndex b
  (r.mapError StoreFault.report, c)

/-- A command document of the store. -/
def readCommand (b : Bundle) (id : String) : Building Command := fun c =>
  let (r, c) := c.getCommand b id
  (r.mapError StoreFault.report, c)

/-- The command at the target, at the version asked for if there is such a one. -/
def buildLeaf (b : Bundle) (version : Option String) (segments : List String) (name : String)
    (e : Entry) : Building ApiNode := do
  let version := version.filter e.versions.contains
  let index ← readIndex b
  let l ← told LocateFault.report (index.locate segments version)
  let c ← readCommand b l.documentId
  let leaf ← told Fault.ofCrash (Leaf.ofCommand l c)
  return .leaf name (shownHelp e.help) leaf

/-- A group as a node; the children of the one on the way to the target are given. -/
def groupNode (wanted : Option (String × List ApiNode)) (g : String × Group) : ApiNode :=
  let children := match wanted with
    | some (name, children) => if name = g.1 then children else []
    | none => []
  .group g.1 (shownHelp g.2.help) children

/-- A command as a node; the one at the target is given. -/
def commandNode (path : List String) (wanted : Option ApiNode) (c : String × Entry) : ApiNode :=
  match wanted with
  | some node => if node.name = c.1 then node else .stub (path ++ [c.1]) c.1 (shownHelp c.2.help)
  | none => .stub (path ++ [c.1]) c.1 (shownHelp c.2.help)

/-- The children of a node of the index. -/
def children (b : Bundle) (version : Option String) (path : List String) (groups : Keyed Group)
    (commands : Keyed Entry) : List String → Building (List ApiNode)
  | [] =>
    pure ((Text.sortedByKey groups).map (groupNode none)
      ++ (Text.sortedByKey commands).map (commandNode path none))
  | name :: rest => do
    let wantedGroup ← match groups.get? name with
      | none => pure none
      | some g => do
        let sub ← children b version (path ++ [name]) g.groups g.commands rest
        pure (some (name, sub))
    let wantedCommand ← match commands.get? name with
      | none => pure none
      | some e => do
        let node ← buildLeaf b version (path ++ [name]) name e
        pure (some node)
    return (Text.sortedByKey groups).map (groupNode wantedGroup)
      ++ (Text.sortedByKey commands).map (commandNode path wantedCommand)

/-- Help on the tree where the index has none. -/
def defaultHelp : String := "Directly invoke the Azure API primitives."

/-- The tree for a target. -/
def build (b : Bundle) (target : List String) (version : Option String) : Building ApiNode := do
  let index ← readIndex b
  let cs ← children b version [] index.groups [] target
  return .group "api" (some ((shownHelp index.help).getD defaultHelp)) cs

/-! ### Running -/

/-- Where words lead. -/
inductive Reached
  /-- Help is shown, on the command or group of this path. -/
  | help (path : List String)
  | stub (segments : List String)
  | leaf (l : Leaf) (values : Leaf.Settings)

/-- What words give to a command without parameters. -/
def runStub (path segments words : List String) : Except UsageFault Reached := do
  match ← Leaf.readWords [] words with
  | none => return .help path
  | some _ => return .stub segments

/-- What words give to a generated command. -/
def runLeaf (path : List String) (l : Leaf) (words : List String) : Except UsageFault Reached := do
  match ← Leaf.readWords l.params words with
  | none => return .help path
  | some values => return .leaf l values

/-- The options of a group. -/
def groupSpecs : List OptionSpec := [Grammar.helpSpec]

mutual

/-- Where words lead from a node, which is reached by a path. -/
def run (path words : List String) : ApiNode → Except UsageFault Reached
  | .stub segments _ _ => runStub path segments words
  | .leaf _ _ l => runLeaf path l words
  | .group _ _ children =>
    if words.isEmpty then .error (.nothingGiven path)
    else
      match Grammar.subcommand groupSpecs ["--help"] words with
      | .error f => .error f
      | .ok (.inl _) => .ok (.help path)
      | .ok (.inr before) =>
        match runChild path before.command before.rest children with
        | some r => r
        | none => (Grammar.unknownCommand groupSpecs ["--help"] before.command before.rest).map
            (fun _ => .help path)

/-- Where words lead from the node of a name, if it is there. -/
def runChild (path : List String) (name : String) (words : List String) :
    List ApiNode → Option (Except UsageFault Reached)
  | [] => none
  | node :: r =>
    if node.name = name then some (run (path ++ [name]) words node)
    else runChild path name words r

end

/-- The failure of a command that is not on the way to the target. -/
def stubFault (segments : List String) : Fault :=
  { kind := .invalidUsage
    message := "'" ++ " ".intercalate segments ++ "' could not be resolved from the command line" }

end ApiNode

end Restline
