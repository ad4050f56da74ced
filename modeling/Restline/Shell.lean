import Restline.Fault
import Restline.Json.Writer
import Restline.Text.Case

/-!
Quoting for shells. A value stands between double quotes, a text as it is and any other value as compact
JSON; a double quote inside is escaped the way the shell reads it.

* `Shell`, `Shell.ofName` : the shells.
* `Shell.escape`, `Shell.escapeText` : a value or a text in quotes.
* `renderOption` : an option of a command line.
-/

set_option autoImplicit false

namespace Restline

/-- The shells that values are quoted for. -/
inductive Shell
  | cmd
  | powershell
  | unix
deriving DecidableEq, Repr

namespace Shell

/-- The name of the shell. -/
def name : Shell → String
  | .cmd => "cmd"
  | .powershell => "powershell"
  | .unix => "unix"

/-- All shells. -/
def all : List Shell := [.cmd, .powershell, .unix]

/-- The shell of a name, in any letter case. -/
def ofName (s : String) : Except Fault Shell :=
  match all.find? (fun sh => sh.name == Text.lowerAscii s) with
  | some sh => .ok sh
  | none => .error { kind := .invalidUsage, message := "invalid shell: " ++ s }

/-- A double quote inside quotes. -/
def innerQuote : Shell → List Char
  | .unix => ['\\', '"']
  | _ => ['"', '"']

/-- A character inside quotes. -/
def escapeChar (sh : Shell) (c : Char) : List Char := if c = '"' then sh.innerQuote else [c]

/-- A text in quotes. -/
def escapeText (sh : Shell) (s : String) : String :=
  String.ofList ('"' :: (s.toList.flatMap sh.escapeChar ++ ['"']))

/-- A value in quotes. -/
def escape (sh : Shell) : Json → String
  | .str s => sh.escapeText s
  | j => sh.escapeText (j.write Json.compact)

end Shell

/-- An option with its dashes: one before a single letter, two before a longer name. -/
def dashed (name : String) : String :=
  if name.length = 1 then "-" ++ name else "--" ++ name

/-- An option of a command line, with its value if it has one. -/
def renderOption (name : String) (value : Option String) : String :=
  match value with
  | none => dashed name
  | some v => dashed name ++ " " ++ v

end Restline
