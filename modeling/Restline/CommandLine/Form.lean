import Restline.CommandLine.Grammar

/-!
Forms of commands. The form of a command lists its options and its arguments; a group of commands is a
list of forms under their names. Words that name a command of a group fill in its form, or ask for help
on the group or on the command.

* `Form`, `Filled` : a form, and what words give for it.
* `Form.fill` : a form filled in by words.
* `Form.reach` : the command of a group that words name.
-/

set_option autoImplicit false

namespace Restline

/-- The options and the arguments of a command. -/
structure Form where
  options : List OptionSpec := []
  arguments : List ArgumentSpec := []
deriving DecidableEq, Repr

/-- What words give for a form. -/
structure Filled where
  options : Grammar.Parsed
  arguments : Keyed (List String)
deriving DecidableEq, Repr

namespace Filled

/-- The value of an option. -/
def option? (f : Filled) (name : String) : Option String := f.options.value? name

/-- The option is given. -/
def has (f : Filled) (name : String) : Bool := f.options.has name

/-- The words of an argument. -/
def words (f : Filled) (name : String) : List String := (f.arguments.get? name).getD []

/-- The word of an argument, if there is one. -/
def word? (f : Filled) (name : String) : Option String := (f.words name).head?

end Filled

/-- Where the words after the name of a group lead. -/
inductive FormReached
  /-- Help is shown, on the group or the command of this path. -/
  | help (path : List String)
  | command (name : String) (filled : Filled)
deriving DecidableEq, Repr

namespace Form

/-- The form filled in by words, or nothing when they ask for help. -/
def fill (form : Form) (words : List String) : Except UsageFault (Option Filled) := do
  let p ← Grammar.parse (Grammar.withHelp form.options) true words
  if p.asksForHelp then return none
  let arguments ← Grammar.arguments form.arguments p.arguments
  return some ⟨p, arguments⟩

/-- The command that words name in a group, whose path is given. -/
def reach (path : List String) (forms : Keyed Form) (words : List String) :
    Except UsageFault FormReached := do
  if words.isEmpty then throw (.nothingGiven path)
  match ← Grammar.subcommand [Grammar.helpSpec] ["--help"] words with
  | .inl _ => return .help path
  | .inr before =>
    match forms.get? before.command with
    | none =>
      let _ ← Grammar.unknownCommand [Grammar.helpSpec] ["--help"] before.command before.rest
      return .help path
    | some form =>
      match ← form.fill before.rest with
      | none => return .help (path ++ [before.command])
      | some filled => return .command before.command filled

end Form

end Restline
