import Restline.CommandLine.Form
import Restline.Config.Resolution
import Restline.Metadata.Directory
import Restline.Operation.Body
import Restline.Program.Options
import Restline.Program.Run

/-!
The commands that look into documents: one shows the operations and the arguments of a command, the other
the schema of a part of a request body.

* `InspectCommand` : the commands, with `InspectCommand.forms` and `InspectCommand.ofFilled?`.
* `InspectCommand.run` : what each of them does.
-/

set_option autoImplicit false

namespace Restline

/-- A command that looks into documents. -/
inductive InspectCommand
  | command (segments : List String) (version : Option String)
  | schema (segments : List String) (path : String) (operationId version : Option String)
deriving DecidableEq, Repr

namespace InspectCommand

/-! ### The command line -/

/-- The option for the version. -/
def versionSpec : OptionSpec := ⟨"api_version", ["--api-version"], true⟩

/-- The names on the way to a command. -/
def segmentsSpec : ArgumentSpec := { name := "segments", many := true }

/-- The forms of the commands. -/
def forms : Keyed Form := [
  ("command", { options := [versionSpec], arguments := [segmentsSpec] }),
  ("schema",
    { options := [⟨"path", ["--path"], true⟩, ⟨"operation_id", ["--operation"], true⟩, versionSpec]
      arguments := [segmentsSpec] })]

/-- The command of a name with what words give for its form. -/
def ofFilled? (name : String) (f : Filled) : Option InspectCommand :=
  match name with
  | "command" => some (.command (f.words "segments") (f.option? "api_version"))
  | "schema" =>
    some (.schema (f.words "segments") ((f.option? "path").getD "") (f.option? "operation_id")
      (f.option? "api_version"))
  | _ => none

/-! ### Documents -/

/-- The index and a document of a bundle. -/
def locate (b : Bundle) (segments : List String) (version : Option String) :
    Except Fault (Location × Command) := do
  let (index, cache) := ({} : Cache).getIndex b
  let index ← index.mapError StoreFault.report
  let l ← (index.locate segments version).mapError LocateFault.report
  let c ← (cache.getCommand b l.documentId).1.mapError StoreFault.report
  return (l, c)

/-- The place of a command and its document. -/
def load (o : ProgramOptions) (segments : List String) (version : Option String) :
    Act (Location × Command) := do
  let (c, profile) ← Config.resolve { profile := o.profile }
  let root ← Config.metadataRoot c profile o.metadata
  Act.ask (fun h => locate (.ofDirectory h root) segments version)

/-! ### Showing a command -/

/-- A text, or a dash in place of an empty one. -/
def orDash (s : String) : String := if s = "" then "-" else s

/-- The headings of the operations. -/
def operationHeaders : List String := ["Operation", "Method", "Path", "When"]

/-- The row of an operation. -/
def operationRow (o : Operation) : List String :=
  [orDash (o.operationId.getD ""), orDash (o.method.getD ""),
    ((o.http.map (·.path)).getD "-"), orDash (", ".intercalate o.when)]

/-- The headings of the arguments. -/
def argHeaders : List String := ["Group", "Options", "Type", "Var", "Required", "Hidden"]

/-- The flag for a name of an option. -/
def flag (name : String) : String := if name.length = 1 then "-" ++ name else "--" ++ name

/-- Whether an argument is needed, in a word. -/
def need (a : Arg) : String :=
  if a.idPart.isSome then "id" else if a.isRequired then "yes" else ""

/-- The row of an argument. -/
def argRow (g : ArgGroup) (a : Arg) : List String :=
  [if g.name = "" then "(identity)" else g.name, orDash (", ".intercalate (a.options.map flag)),
    a.type, a.var, need a, if a.isHidden then "hidden" else ""]

/-- The line on the place of a command. -/
def headline (l : Location) : String :=
  " ".intercalate l.segments ++ " @ " ++ l.version ++ " (versions: "
    ++ ", ".intercalate (Text.sorted l.entry.versions) ++ ")"

/-- Shows the operations and the arguments of a command. -/
def runCommand (con : Console) (o : ProgramOptions) (segments : List String)
    (version : Option String) : Act Unit := do
  let (l, c) ← load o segments version
  con.info (headline l)
  con.printTable operationHeaders (c.operations.map operationRow)
  con.printTable argHeaders (c.argGroups.flatMap (fun g => g.args.map (argRow g)))

/-! ### Showing a schema -/

/-- The operations with a request body, or those of one name. -/
def candidates (c : Command) (operationId : Option String) : List Operation :=
  let withBody := c.operations.filter (fun o => o.bodySchema.isSome)
  match operationId with
  | none => withBody
  | some id => withBody.filter (fun o => o.operationId == some id)

/-- Shows the schema of a part of a request body. -/
def runSchema (con : Console) (o : ProgramOptions) (segments : List String) (path : String)
    (operationId version : Option String) : Run Unit := do
  let (_, c) ← Run.act (load o segments version)
  match candidates c operationId with
  | [] => Run.fail con "No operation with a request body matches." 4
  | operation :: _ =>
    match operation.schemaAt (Schema.pathNames path) with
    | none => Run.fail con ("No schema node at path: " ++ path) 4
    | some s => Run.act (con.printValue s.toJson)

/-! ### All commands -/

/-- What a command does. -/
def run (con : Console) (o : ProgramOptions) : InspectCommand → Run Unit
  | .command segments version => Run.act (runCommand con o segments version)
  | .schema segments path operationId version => runSchema con o segments path operationId version

end InspectCommand

end Restline
