import Restline.Host
import Restline.Json.Display
import Restline.Json.Reader

/-!
The console. Results go to the standard output, and everything that is said about them to the standard error.
Unless a style is asked for, results are drawn for the eye when the output is a terminal in colour, and
are plain text otherwise. What is said is told apart by its weight: notes can be kept quiet, details come
only when they are asked for, and warnings and errors always.

* `OutputStyle`, `Console` : the styles, and a style with what is said.
* `Console.ofHost` : the console that fits a host.
* `OutputStyle.response`, `OutputStyle.table` : results as text.
* `Console.info`, `Console.debug`, `Console.error`, … : what is said.
-/

set_option autoImplicit false

namespace Restline

/-- How results are written. -/
inductive OutputStyle
  | json
  | plain
  /-- For the eye. -/
  | rich
deriving DecidableEq, Repr

namespace OutputStyle

/-- The name of the style. -/
def name : OutputStyle → String
  | .json => "json"
  | .plain => "plain"
  | .rich => "rich"

/-- All styles. -/
def all : List OutputStyle := [.json, .plain, .rich]

/-- The style of a name; the name `auto` leaves the choice to the host. -/
def ofName? (name : String) : Option (Option OutputStyle) :=
  if name = "auto" then some none else (all.find? (fun s => s.name == name)).map some

/-! ### Results as text -/

/-- A value as text: plain text shows a value without parts as it is. -/
def value (s : OutputStyle) (j : Json) : String :=
  match s, j with
  | .plain, .arr _ | .plain, .obj _ => j.write Json.pretty
  | .plain, j => j.display
  | _, j => j.write Json.pretty

/-- The text of a response: JSON is laid out anew, other text stays, and blanks are nothing. -/
def response (s : OutputStyle) (text : String) : Except Fault (Option String) :=
  if Text.isBlankText text then .ok none
  else
    match Json.read text with
    | .ok j => .ok (some (s.value j))
    | .error (.malformed _ _) => .ok (some text)
    | .error (.overlong _) => .error (.ofCrash .badValue)

/-- The rows of a table as objects, each value under its heading. -/
def records (headers : List String) (rows : List (List String)) : Json :=
  .arr (rows.map (fun row => .obj (Keyed.ofPairs (headers.zip (row.map Json.str)))))

/-- The lines of a table. -/
def table (s : OutputStyle) (headers : List String) (rows : List (List String)) : List String :=
  match s with
  | .json => [(records headers rows).write Json.pretty]
  | _ => (headers :: rows).map (fun row => "\t".intercalate row)

end OutputStyle

/-! ### Consoles -/

/-- How results are written, and how much is said. -/
structure Console where
  style : OutputStyle := .plain
  /-- Notes are not said. -/
  quiet : Bool := false
  /-- Details are said. -/
  verbose : Bool := false
deriving DecidableEq, Repr

namespace Console

/-- The environment asks for no colour. -/
def refusesColour (h : Host) : Bool := h.env.has "NO_COLOR" || h.env.get? "TERM" = some "dumb"

/-- The style for a host where none is asked for. -/
def styleFor (h : Host) (noColour : Bool) : OutputStyle :=
  if h.outputIsTerminal && !(noColour || refusesColour h) then .rich else .plain

/-- The console that fits a host. -/
def ofHost (h : Host) (style : Option OutputStyle) (noColour quiet verbose : Bool) : Console :=
  ⟨style.getD (styleFor h noColour), quiet, verbose⟩

/-! ### Results -/

/-- Prints lines. -/
def printLines : List String → Act Unit
  | [] => pure ()
  | line :: rest => do
    Act.print line
    printLines rest

/-- Prints a value. -/
def printValue (o : Console) (j : Json) : Act Unit := Act.print (o.style.value j)

/-- Prints the text of a response. -/
def printResponse (o : Console) (text : String) : Act Unit := do
  match ← Act.of (o.style.response text) with
  | some text => Act.print text
  | none => pure ()

/-- Prints a table. -/
def printTable (o : Console) (headers : List String) (rows : List (List String)) : Act Unit :=
  printLines (o.style.table headers rows)

/-! ### What is said -/

/-- A note. -/
def info (o : Console) (text : String) : Act Unit := if o.quiet then pure () else Act.report text

/-- A note that something is done. -/
def success (o : Console) (text : String) : Act Unit := o.info text

/-- A warning. -/
def warning (_ : Console) (text : String) : Act Unit := Act.report ("Warning: " ++ text)

/-- An error. -/
def error (_ : Console) (text : String) : Act Unit := Act.report ("Error: " ++ text)

/-- A detail. -/
def debug (o : Console) (text : String) : Act Unit :=
  if o.verbose then Act.report ("[debug] " ++ text) else pure ()

end Console

end Restline
