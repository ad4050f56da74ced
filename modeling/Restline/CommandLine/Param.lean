import Restline.CommandLine.Grammar
import Restline.CommandLine.Name
import Restline.Fault
import Restline.Json.Writer
import Restline.Metadata.Command
import Restline.Shell
import Restline.Text.Indent
import Restline.Text.Sorted
import Restline.Argument

/-!
Parameters of generated commands. Every argument that is not hidden becomes an option; its flags come
from the names in the document, long before short, and its values are converted by the family of its
type. Besides, every command has options of its own, for the version, the identifier, the payload.

* `Param`, `ParamType` : a parameter as the command line shows it.
* `ArgOption.ofArg` : the option of an argument.
* `Value.ofGiven` : the bound value for what was given.
* `Version.choices` : the versions that can be chosen.
* `Param.apiVersion`, `Param.id`, … : the options that commands have of their own.
-/

set_option autoImplicit false

namespace Restline

/-! ### Parameters -/

/-- What values a parameter takes. -/
inductive ParamType
  | text
  | integer
  /-- Given or not; there is no value. -/
  | flag
  | path
  | choice (words : List String) (anyCase : Bool)
deriving DecidableEq, Repr

/-- A parameter of a command. -/
structure Param where
  name : String
  flags : List String
  help : Option String
  panel : String
  type : ParamType
deriving DecidableEq, Repr

/-- The panel of help for the options of a resource's identity. -/
def identityPanel : String := "Resource Id Arguments"

/-- The panel of help for the options that commands have of their own. -/
def globalPanel : String := "Global Arguments"

/-! ### Options of arguments -/

/-- The flags for the names of an option: a long one first, then the short ones, then the other long
ones. -/
def optionFlags (names : List String) : List String :=
  let longs := (names.filter (fun n => 1 < n.length)).map ("--" ++ ·)
  let shorts := (names.filter (fun n => n.length = 1)).map ("-" ++ ·)
  longs.take 1 ++ shorts ++ longs.drop 1

/-- The name that stands for an option: the first long one, or else the first. -/
def primaryName? (names : List String) : Option String :=
  (names.find? (fun n => 1 < n.length)).or names.head?

/-- The option of an argument. -/
structure ArgOption where
  /-- The name of the parameter. -/
  name : String
  /-- The key of the argument. -/
  key : String
  /-- The name that stands for the option, if it has one. -/
  option : Option String
  kind : Kind
  flags : List String
  help : Option String
  panel : String
  isIdentity : Bool
  isRequired : Bool
deriving DecidableEq, Repr

/-- A text, unless it is empty. -/
def nonEmpty? (s : String) : Option String := if s = "" then none else some s

/-- Help on the option of an argument. -/
def argHelp (a : Arg) : String :=
  let short := (a.help.bind (·.short)).getD ""
  let short := if a.isIdentity then Text.trim (short ++ " This conflicts with the \"id\"") else short
  match a.kind with
  | .object | .array => Text.trim (short ++ " (JSON, or @file)")
  | _ => short

/-- The option of an argument, shown in a panel of help. -/
def ArgOption.ofArg (a : Arg) (panel : String) : ArgOption where
  name := ParamName.sanitize (((primaryName? a.options).bind nonEmpty?).getD a.var)
  key := a.var
  option := primaryName? a.options
  kind := a.kind
  flags := optionFlags a.options
  help := nonEmpty? (argHelp a)
  panel := panel
  isIdentity := a.isIdentity
  isRequired := a.isRequired

/-- What values the option takes. -/
def ArgOption.type (o : ArgOption) : ParamType :=
  match o.kind with
  | .integer => .integer
  | .boolean => .choice ["true", "false"] true
  | _ => .text

/-- The flag that the name of a parameter gives. -/
def flagOfName (name : String) : String :=
  "--" ++ String.ofList (name.toList.map (fun c => if c = '_' then '-' else c))

/-- A flag as it is declared: behind a slash it may name its opposite, and blanks beside the slash do not
count. -/
def declared (flag : String) : String × Option String :=
  match Text.headAndTail '/' flag with
  | (_, none) => (flag, none)
  | (own, some opposite) => (Text.trimRight own, some (Text.trimLeft opposite))

/-- Why a flag cannot be declared: only options without a value may name an opposite, and it must be
another flag. -/
def flagCrash? (flag : String) : Option Crash :=
  match declared flag with
  | (own, some opposite) =>
    if opposite = own then some .badValue else if opposite = "" then none else some .badType
  | (_, none) => none

/-- The flags of the option, without a slash at the end; without names in the document there is one from
the parameter. -/
def ArgOption.allFlags (o : ArgOption) : List String :=
  if o.flags.isEmpty then [flagOfName o.name] else o.flags.map (fun f => (declared f).1)

/-- Why the option cannot be declared. Of its flags one that is its own opposite counts before any
other. -/
def ArgOption.crash? (o : ArgOption) : Option Crash :=
  let crashes := o.flags.filterMap flagCrash?
  (crashes.find? (· == .badValue)).or crashes.head?

/-- The parameter of the option. -/
def ArgOption.param (o : ArgOption) : Param :=
  ⟨o.name, o.allFlags, o.help.map Text.withoutIndent, o.panel, o.type⟩

/-- The options with names that are all different. -/
def ArgOption.distinct (os : List ArgOption) : List ArgOption :=
  List.zipWith (fun o n => { o with name := n }) os (ParamName.distinct (os.map (·.name)))

/-! ### Values -/

/-- What is given for an option. -/
inductive GivenValue
  | text (s : String)
  | int (n : Int)
  | bool (b : Bool)
deriving DecidableEq, Repr

/-- What is given, as text. -/
def GivenValue.toText : GivenValue → String
  | .text s => s
  | .int n => toString n
  | .bool b => if b then "True" else "False"

/-- The text of JSON for an argument; behind an at sign it is in a file. -/
def jsonTextOf (readFile : String → Except Fault String) (text : String) : Except Fault String :=
  if text.startsWith "@" then readFile (String.ofList (text.toList.drop 1)) else .ok text

/-- The whole number that is given. -/
def GivenValue.toInt : GivenValue → Except Fault Int
  | .int n => .ok n
  | .bool b => .ok (if b then 1 else 0)
  | .text s =>
    match Text.ofNumeral? s with
    | some n => .ok n
    | none => .error (.ofCrash .badValue)

/-- The bound value for what is given. -/
def Value.ofGiven (readFile : String → Except Fault String) (g : GivenValue) :
    Kind → Except Fault Value
  | .object => (jsonTextOf readFile g.toText).map Value.raw
  | .array => (jsonTextOf readFile g.toText).map Value.raw
  | .boolean => .ok (.bool (Text.lowerAscii g.toText == "true"))
  | .integer => g.toInt.map Value.int
  | .string => .ok (.text g.toText)
  | .opaqueJson => .ok (.text g.toText)

/-! ### Versions -/

namespace Version

/-- The name has underscores at both ends, single ones. -/
def isMarked (s : String) : Bool :=
  2 < s.length && s.startsWith "_" && s.endsWith "_"
    && !s.startsWith "__" && !s.endsWith "__"

/-- The name has two underscores at both ends and something else between them. -/
def isDoublyMarked (s : String) : Bool :=
  4 < s.length && s.startsWith "__" && s.endsWith "__"
    && !s.startsWith "___" && !s.endsWith "___"

/-- The versions that can be chosen, of a list in order; those before have been looked at. A version must
not come twice, and some names are taken or have no place among choices. -/
def choicesFrom (seen : List String) : List String → Except Crash (List String)
  | [] => if seen.contains "" || seen.contains "mro" then .error .badValue else .ok []
  | v :: r =>
    if isMarked v then .error .badValue
    else if isDoublyMarked v then choicesFrom seen r
    else if seen.contains v then .error .badType
    else (choicesFrom (v :: seen) r).map (v :: ·)

/-- The versions that can be chosen, in order. -/
def choices (versions : List String) : Except Crash (List String) :=
  choicesFrom [] (Text.sorted versions)

end Version

/-! ### Options of the command line itself -/

/-- The help texts for help on a command, a group or the whole tree. -/
def Help.text? (h : Option Help) : Option String :=
  match h with
  | none => none
  | some h =>
    let parts := [h.short.getD "", "\n\n".intercalate (h.lines.getD [])]
    nonEmpty? ("\n\n".intercalate (parts.filter (· ≠ "")))

namespace Param

/-- The option for the version. -/
def apiVersion (choices : List String) : Param :=
  ⟨"api_version", ["--api-version"], some "API version (default: max)", globalPanel,
    .choice choices false⟩

/-- Help on the option for the identifier, which names the options it replaces. -/
def idHelp (replaced : List String) : String :=
  "The full resource ID. Use \"-\" to read a JSON object from stdin and extract its \"id\" field. "
    ++ "This conflicts with " ++ (Json.arr (replaced.map Json.str)).write Json.spaced

/-- The option for the identifier. -/
def id (replaced : List String) : Param :=
  ⟨"id_", ["--id"], some (idHelp replaced), identityPanel, .text⟩

/-- The option for records from the input. -/
def stdin : Param :=
  ⟨"stdin", ["--stdin"],
    some ("Read JSON objects from stdin, one per line, and run the command for each; the \"id\" field "
      ++ "selects the resource and, for a PUT, the other fields form the request body"),
    identityPanel, .flag⟩

/-- The option for a payload from a file. -/
def file : Param :=
  ⟨"file", ["--file", "-f"], some "Read request payload (JSON) from the file", globalPanel, .path⟩

/-- The option for a payload from an editor. -/
def edit : Param :=
  ⟨"edit", ["--edit", "-e"], some "Open default editor to compose request payload", globalPanel, .flag⟩

/-- The option for the command line that reproduces a request. -/
def printCli : Param :=
  ⟨"print_cli", ["--print-cli"],
    some ("Print the equivalent CLI command instead of executing it, useful when combined with "
      ++ "\"--file\" or \"--edit\""),
    globalPanel, .choice (Shell.all.map Shell.name) false⟩

/-- The parameter as the grammar sees it. -/
def spec (p : Param) : OptionSpec := ⟨p.name, p.flags, p.type != .flag⟩

end Param

end Restline
