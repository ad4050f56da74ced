import Restline.CommandLine.Grammar
import Restline.CommandLine.Param
import Restline.Files.Path
import Restline.Invocation

/-!
Generated commands. A command document becomes a command of the command line: its parameters are the
options that every command has of its own, as far as they apply, and one option for each argument that
is not hidden. What is given for the parameters is checked against the rules on identifiers and payloads
and becomes an invocation.

* `Leaf.ofCommand`, `Leaf.params` : the command and its parameters.
* `Leaf.read` : the values that words give.
* `Leaf.dispatch` : the invocation for values.
-/

set_option autoImplicit false

namespace Restline

/-- A generated command. -/
structure Leaf where
  location : Location
  command : Command
  /-- The versions that can be chosen. -/
  choices : List String
  /-- The options of arguments, with names that are all different. -/
  args : List ArgOption

namespace Leaf

/-! ### Parameters -/

/-- The options of the arguments of a group that are not hidden. -/
def groupOptions (panel : String) (g : ArgGroup) : List ArgOption :=
  (g.args.filter (fun a => !a.isHidden)).map (ArgOption.ofArg · panel)

/-- The options of all arguments that are not hidden: those of the first group without a name, then
those of groups with a name. -/
def argOptions (c : Command) : List ArgOption :=
  ((c.identityGroup.map (groupOptions identityPanel)).getD [])
    ++ c.namedGroups.flatMap (fun g => groupOptions g.name g)

/-- Why a command cannot be generated for a document of this name: there must be no NUL in it. -/
def idCrash? (l : Location) : Option Crash :=
  (l.documentId.toList.find? (· == '\x00')).map fun _ => .badValue

/-- The generated command for a document, unless its versions, its name or its options cannot be
declared. -/
def ofCommand (l : Location) (c : Command) : Except Crash Leaf := do
  let choices ← Version.choices l.entry.versions
  let args := ArgOption.distinct (argOptions c)
  match (idCrash? l).or (args.findSome? ArgOption.crash?) with
  | some crash => throw crash
  | none => return ⟨l, c, choices, args⟩

/-- The names of the options that the identifier replaces. -/
def replacedNames (g : ArgGroup) : List String :=
  (g.args.filter (·.isIdentity)).filterMap
    (fun a => (primaryName? a.options).filter (fun n => 1 < n.length))

/-- The options for the identifier, if the command works on a resource. -/
def identityParams (c : Command) : List Param :=
  match c.identityGroup with
  | none => []
  | some g => [.id (replacedNames g), .stdin]

/-- The options for the payload, if some request has a body. -/
def payloadParams (c : Command) : List Param :=
  if c.hasRequestBody then [.file, .edit, .printCli] else []

/-- All parameters. -/
def params (l : Leaf) : List Param :=
  .apiVersion l.choices :: (identityParams l.command ++ payloadParams l.command)
    ++ l.args.map ArgOption.param

/-! ### Values -/

/-- The word that a text is a case variant of, or that it is. -/
def chosen? (words : List String) (anyCase : Bool) (s : String) : Option String :=
  words.find? (fun w => if anyCase then Text.foldsTo s w else s == w)

/-- What a text gives for a parameter. -/
def convert (p : Param) (s : String) : Except UsageFault GivenValue :=
  match p.type with
  | .text => .ok (.text s)
  | .flag => .ok (.bool true)
  | .path => .ok (.text (Path.ofText s).toText)
  | .integer =>
    match Text.ofNumeral? s with
    | some n => .ok (.int n)
    | none => .error (.badValue p.name)
  | .choice words anyCase =>
    match chosen? words anyCase s with
    | some w => .ok (.text w)
    | none => .error (.badValue p.name)

/-- What is given for the parameters, by their names. -/
abbrev Settings := Keyed GivenValue

/-- What words give for the parameters, in the order of the words. -/
def settings (ps : List Param) (given : Grammar.Parsed) : List String → Except UsageFault Settings
  | [] => .ok []
  | name :: r => do
    let own ← match ps.find? (fun p => p.name == name) with
      | none => .ok []
      | some p => (convert p ((given.value? name).getD "")).map (fun v => [(name, v)])
    let rest ← settings ps given r
    return own ++ rest

/-- What words give to a command that has only options: settings, or nothing when help is asked for. -/
def readWords (ps : List Param) (words : List String) : Except UsageFault (Option Settings) := do
  let given ← Grammar.parse (Grammar.withHelp (ps.map Param.spec)) true words
  -- help is shown whatever else the words are, as long as they can be parsed
  if given.asksForHelp then return none
  let values ← settings ps given given.order
  if given.arguments.isEmpty then return some values else throw .surplusArguments

/-! ### Dispatch -/

/-- The text that is given for a parameter. -/
def textOf (values : Settings) (name : String) : Option String :=
  (values.get? name).map GivenValue.toText

/-- How messages name an option. -/
def shownFlag (o : ArgOption) : String :=
  match o.option with
  | some name => if name = "" then o.key else "--" ++ name
  | none => o.key

/-- How the rendered command line names an option. -/
def suppliedName (o : ArgOption) : String :=
  match o.option with
  | some name => if name = "" then o.key else name
  | none => o.key

/-- A failure of the command line. -/
def misuse (message : String) : Fault := { kind := .invalidUsage, message := message }

/-- The rules on an option of the identity: it is not given beside an identifier, and a required one is
given where there is none. -/
def identityFault? (byId : Bool) (o : ArgOption) (given : Bool) : Option Fault :=
  if o.isIdentity then
    if given && byId then
      some (misuse ("\"" ++ shownFlag o ++ "\" conflicts with \"--id\""))
    else if !given && o.isRequired && !byId then
      some (misuse ("the argument \"" ++ shownFlag o ++ "\" is required unless \"--id\" is given"))
    else none
  else none

/-- The values of arguments, bound and as they were given. -/
structure Collected where
  bound : Keyed Value := []
  supplied : List (String × Option String) := []

/-- The values of arguments, in the order of their options. -/
def collect (readFile : String → Except Fault String) (byId : Bool) (values : Settings) :
    Collected → List ArgOption → Except Fault Collected
  | acc, [] => .ok acc
  | acc, o :: r =>
    let given := values.get? o.name
    match identityFault? byId o given.isSome with
    | some f => .error f
    | none =>
      match given with
      | none => collect readFile byId values acc r
      | some g => do
        let v ← Value.ofGiven readFile g o.kind
        collect readFile byId values
          ⟨acc.bound.put o.key v, acc.supplied ++ [(suppliedName o, some g.toText)]⟩ r

/-- The invocation for what is given. -/
def dispatch (readFile : String → Except Fault String) (l : Leaf) (values : Settings) :
    Except Fault Invocation := do
  let id := textOf values "id_"
  let stdin := values.has "stdin"
  let file := textOf values "file"
  let edit := values.has "edit"
  if id.isSome && stdin then throw (misuse "\"--id\" conflicts with \"--stdin\"")
  if file.isSome && edit then throw (misuse "\"--file\" conflicts with \"--edit\"")
  let version := textOf values "api_version"
  let supplied := (version.map (fun v => ("api-version", some v))).toList
  let c ← collect readFile (id.isSome || stdin) values ⟨[], supplied⟩ l.args
  return { location := l.location, command := l.command, bound := c.bound, supplied := c.supplied,
           resourceId := id, stdin := stdin, file := file, edit := edit,
           printCli := textOf values "print_cli", apiVersion := version }

end Leaf

end Restline
