import Restline.Keyed
import Restline.Text.Segments

/-!
The grammar of command lines. A word that begins with a dash gives options: a long option with its value
behind an equals sign or in the next word, or single letters in a row, of which the first that takes a
value takes the rest of the word or the next word. Two dashes end the options. Every other word is an
argument; before a subcommand the first of them ends the options as well.

* `OptionSpec` : an option with its flags.
* `UsageFault` : why a command line is refused.
* `Grammar.parse` : the options that the words give, and the arguments.
* `Grammar.arguments` : arguments by their places.
* `Grammar.subcommand` : the options before a subcommand, and its name.
-/

set_option autoImplicit false

namespace Restline

/-- An option of a command. -/
structure OptionSpec where
  name : String
  flags : List String
  takesValue : Bool
deriving DecidableEq, Repr

/-- An argument of a command: one word, or all that are left. -/
structure ArgumentSpec where
  name : String
  many : Bool := false
  required : Bool := true
deriving DecidableEq, Repr

/-- Why a command line is refused. -/
inductive UsageFault
  | noSuchOption (flag : String)
  | missingValue (flag : String)
  | unexpectedValue (flag : String)
  | badValue (name : String)
  | missingArgument (name : String)
  | surplusArguments
  | noSuchCommand (name : String)
  | noCommand
  /-- A group of commands is named and nothing else; help on it is shown. -/
  | nothingGiven (path : List String)
deriving DecidableEq, Repr

/-- The exit status of a refused command line. -/
def UsageFault.exitCode : Nat := 2

/-- Why the command line is refused, in words. -/
def UsageFault.message : UsageFault → String
  | .noSuchOption flag => "No such option: " ++ flag
  | .missingValue flag => "Option '" ++ flag ++ "' requires an argument."
  | .unexpectedValue flag => "Option '" ++ flag ++ "' does not take a value."
  | .badValue name => "Invalid value for '" ++ name ++ "'."
  | .missingArgument name => "Missing argument '" ++ name ++ "'."
  | .surplusArguments => "Got unexpected extra arguments."
  | .noSuchCommand name => "No such command '" ++ name ++ "'."
  | .noCommand => "Missing command."
  | .nothingGiven path => "Usage: " ++ " ".intercalate path ++ " [OPTIONS] COMMAND [ARGS]..."

namespace Grammar

/-- An option that the words give, with its value if it takes one. -/
abbrev Given := String × Option String

/-- What words give. -/
structure Parsed where
  /-- The options in the order of the words. -/
  options : List Given := []
  arguments : List String := []
deriving DecidableEq, Repr

/-- The last option that has a flag. -/
def find? (specs : List OptionSpec) (flag : String) : Option OptionSpec :=
  specs.reverse.find? (fun o => o.flags.contains flag)

/-- The options that single letters give, and the words that are left. -/
def parseLetters (specs : List OptionSpec) (rest : List String) :
    List Char → Except UsageFault (List Given × List String)
  | [] => .ok ([], rest)
  | c :: cs =>
    let flag := String.ofList ['-', c]
    match find? specs flag with
    | none => .error (.noSuchOption flag)
    | some o =>
      if o.takesValue then
        match cs, rest with
        | _ :: _, _ => .ok ([(o.name, some (String.ofList cs))], rest)
        | [], value :: rest => .ok ([(o.name, some value)], rest)
        | [], [] => .error (.missingValue flag)
      else do
        let (gs, rest) ← parseLetters specs rest cs
        return ((o.name, none) :: gs, rest)

/-- The option that a long flag gives, and the words that are left. -/
def parseLong (o : OptionSpec) (flag : String) (value : Option String) (rest : List String) :
    Except UsageFault (List Given × List String) :=
  if o.takesValue then
    match value, rest with
    | some v, _ => .ok ([(o.name, some v)], rest)
    | none, v :: rest => .ok ([(o.name, some v)], rest)
    | none, [] => .error (.missingValue flag)
  else
    match value with
    | some _ => .error (.unexpectedValue flag)
    | none => .ok ([(o.name, none)], rest)

/-- The options that a word gives, and the words that are left. -/
def parseOption (specs : List OptionSpec) (word : String) (rest : List String) :
    Except UsageFault (List Given × List String) :=
  let (flag, value) := Text.headAndTail '=' word
  match find? specs flag with
  | some o =>
    -- a flag of one letter is read with the letters behind it, an equals sign among them
    if flag.length = 2 && flag ≠ "--" then parseLetters specs rest (word.toList.drop 1)
    else parseLong o flag value rest
  | none =>
    if word.startsWith "--" then .error (.noSuchOption flag)
    else parseLetters specs rest (word.toList.drop 1)

/-- The word gives options. -/
def isOption (word : String) : Bool := word.startsWith "-" && 1 < word.length

/-- What the words give. Between arguments there may be options if `interspersed`, else the first argument
ends the options. The first argument bounds the number of words. -/
def parseFrom (specs : List OptionSpec) (interspersed : Bool) :
    Nat → List String → Except UsageFault Parsed
  | _, [] => .ok {}
  | 0, words => .ok { arguments := words }
  | fuel + 1, word :: rest =>
    if word = "--" then .ok { arguments := rest }
    else if isOption word then do
      let (gs, rest) ← parseOption specs word rest
      let p ← parseFrom specs interspersed fuel rest
      return { p with options := gs ++ p.options }
    else if interspersed then do
      let p ← parseFrom specs interspersed fuel rest
      return { p with arguments := word :: p.arguments }
    else .ok { arguments := word :: rest }

/-- What the words give. -/
def parse (specs : List OptionSpec) (interspersed : Bool) (words : List String) :
    Except UsageFault Parsed :=
  parseFrom specs interspersed words.length words

/-! ### Values -/

/-- The value of an option: the last one counts. -/
def Parsed.value? (p : Parsed) (name : String) : Option String :=
  ((p.options.reverse.find? (fun g => g.1 == name)).bind (·.2))

/-- The option is given. -/
def Parsed.has (p : Parsed) (name : String) : Bool := p.options.any (fun g => g.1 == name)

/-- The names of the options that are given, in the order of their first appearance. -/
def Parsed.order (p : Parsed) : List String :=
  (p.options.map (·.1)).foldl (fun l n => if l.contains n then l else l ++ [n]) []

/-- The first of some options that is given. -/
def Parsed.firstOf (p : Parsed) (names : List String) : Option String :=
  (p.options.map (·.1)).find? names.contains

/-! ### Help -/

/-- The option that asks for help. -/
def helpSpec : OptionSpec := ⟨"--help", ["--help"], false⟩

/-- The options, and the one that asks for help unless its flag is taken. -/
def withHelp (specs : List OptionSpec) : List OptionSpec :=
  if specs.any (fun o => o.flags.contains "--help") then specs else specs ++ [helpSpec]

/-- Help is asked for. -/
def Parsed.asksForHelp (p : Parsed) : Bool := p.has "--help"

/-! ### Arguments -/

/-- The words of each argument, and the words that are left. -/
def assign : List ArgumentSpec → List String → List (String × List String) × List String
  | [], words => ([], words)
  | a :: as, words =>
    let (own, rest) := if a.many then (words, []) else (words.take 1, words.drop 1)
    let (l, rest) := assign as rest
    ((a.name, own) :: l, rest)

/-- The words of each argument; a required one must have a word, and no word may be left. -/
def arguments (specs : List ArgumentSpec) (words : List String) :
    Except UsageFault (Keyed (List String)) :=
  let (l, rest) := assign specs words
  match specs.find? (fun a => a.required && ((Keyed.get? l a.name).getD []).isEmpty) with
  | some a => .error (.missingArgument a.name)
  | none => if rest.isEmpty then .ok l else .error .surplusArguments

/-! ### Subcommands -/

/-- What words give before a subcommand. -/
structure Before where
  options : Parsed
  command : String
  rest : List String

/-- The options before a subcommand, and its name; nothing when one of the options stands for an action
of its own, which then is returned. -/
def subcommand (specs : List OptionSpec) (actions : List String) (words : List String) :
    Except UsageFault (String ⊕ Before) := do
  let p ← parse specs false words
  match p.firstOf actions with
  | some action => return .inl action
  | none =>
    match p.arguments with
    | [] => throw .noCommand
    | name :: rest => return .inr ⟨p, name, rest⟩

/-- What becomes of the name of a subcommand that is not there: read as an option it may stand for an
action. -/
def unknownCommand (specs : List OptionSpec) (actions : List String) (name : String)
    (rest : List String) : Except UsageFault String := do
  let p ← parse specs false (name :: rest)
  match p.firstOf actions with
  | some action => return action
  | none => throw (.noSuchCommand name)

end Grammar

end Restline
