import Restline.Client
import Restline.CommandLine.Scan
import Restline.CommandLine.Tree
import Restline.Metadata.Directory
import Restline.Program.Options
import Restline.Program.Run

/-!
The generated commands as part of the program. Their tree is made from the documents before the command
line is parsed; what words give to a command of it is carried out with a client of the service.

* `Api`, `Api.load` : the tree with the profile and the documents it was made for.
* `Api.run` : what words after its name do.
-/

set_option autoImplicit false

namespace Restline

/-- The tree of generated commands, and the profile of the service. -/
structure Api where
  profile : Profile
  tree : ApiNode

namespace Api

/-! ### Making the tree -/

/-- The tree for a target in a bundle. -/
def treeOf (b : Bundle) (words : List String) : Except Fault ApiNode :=
  let (segments, version) := Scan.target words
  ((ApiNode.build b segments version).run.run {}).1

/-- The tree that a command line needs, by the options before its name. -/
def load (words : List String) (position : Nat) : Act Api := do
  let head := words.take position
  let (c, profile) ← Config.resolve {
    profile := Scan.optionValue? ["--profile", "-p"] head
    endpoint := Scan.optionValue? ["--endpoint"] head }
  let root ← Config.metadataRoot c profile (Scan.optionValue? ["--metadata"] head)
  let tree ← Act.ask (fun h => treeOf (.ofDirectory h root) words)
  return ⟨profile, tree⟩

/-- The tree where a command line needs none. -/
def placeholder : ApiNode := .group "api" none []

/-! ### Carrying out an invocation -/

/-- Requests are sent, so they need to be authorized. -/
def needsGrant (dryRun : Bool) (i : Invocation) : Bool :=
  !(dryRun || (i.printCli.any (· ≠ "")))

/-- Prints what an invocation gives: records and command lines as they are, a response in style. -/
def printResult (con : Console) (i : Invocation) (text : String) : Act Unit :=
  if (i.printCli.any (· ≠ "")) || i.stdin then Act.print text else con.printResponse text

/-- Where the input of an invocation comes from. -/
def sourcesOf (h : Host) : Sources := ⟨h.input, h.readNamed, h.editor⟩

/-- Carries out an invocation. -/
def invoke (con : Console) (dryRun : Bool) (profile : Profile) (i : Invocation) : Act Unit := do
  con.debug ("Command document: " ++ i.location.documentId)
  let schemes := if needsGrant dryRun i then some Registry.builtIn else none
  let client ← Act.ask (Client.enter schemes · profile)
  let preview : Option (ReadyRequest → Act Unit) :=
    if dryRun then some (fun q => client.preview con q.call) else none
  match ← i.run (some (client.execute con)) preview (sourcesOf (← get)) with
  | some text => printResult con i text
  | none => pure ()

/-- What is reached in the tree is carried out. -/
def follow (con : Console) (dryRun : Bool) (profile : Profile) : ApiNode.Reached → Run Unit
  | .help path => throw (.help path)
  | .stub segments => throw (.fault (ApiNode.stubFault segments))
  | .leaf l values => do
    let i ← Run.act (Act.ask (fun h => l.dispatch h.readNamed values))
    Run.act (invoke con dryRun profile i)

/-- What words after the name of the tree do; the path leads to the tree. -/
def run (con : Console) (o : ProgramOptions) (api : Api) (path words : List String) : Run Unit := do
  let reached ← Run.parse (api.tree.run path words)
  follow con o.dryRun api.profile reached

end Api

end Restline
