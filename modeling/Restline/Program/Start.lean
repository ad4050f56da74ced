import Restline.Program.ApiCommands
import Restline.Program.ConfigCommands
import Restline.Program.InspectCommands

/-!
The whole program. Where the command line names a generated command, the tree of these is made first;
then the options of the program are read, and the command that follows is carried out. A failure is told
on the standard error and sets the exit status; one that nobody foresaw also leaves a log.

* `Program.perform` : what a command line does.
* `Program.start` : the same with its end.
-/

set_option autoImplicit false

namespace Restline

namespace Program

/-! ### Commands -/

/-- An action that an option stands for. -/
def performAction (path : List String) (action : String) : Run Unit := do
  if action = ProgramOptions.versionSpec.name then
    Run.act (Act.print (Program.name ++ " " ++ version))
    throw (.exit 0)
  else throw (.help path)

/-- The tree of generated commands that a command line needs. -/
def loadApi (words : List String) : Act Api :=
  match Scan.apiPosition? words with
  | some n => Api.load words n
  | none => pure ⟨{ name := "default" }, Api.placeholder⟩

/-- A command on the configuration, by the words after the name of the group. -/
def performConfig (con : Console) (path words : List String) : Run Unit := do
  match ← Run.parse (Form.reach path ConfigCommand.forms words) with
  | .help path => throw (.help path)
  | .command name filled =>
    match ConfigCommand.ofFilled? name filled with
    | some c => c.run con
    | none => throw (.refused (.noSuchCommand name))

/-- A command that looks into documents, by the words after the name of the group. -/
def performInspect (con : Console) (o : ProgramOptions) (path words : List String) : Run Unit := do
  match ← Run.parse (Form.reach path InspectCommand.forms words) with
  | .help path => throw (.help path)
  | .command name filled =>
    match InspectCommand.ofFilled? name filled with
    | some c => c.run con o
    | none => throw (.refused (.noSuchCommand name))

/-- The names of the groups of commands. -/
def groups : List String := ["config", "inspect", "api"]

/-- A group of commands, by the words after its name. -/
def performGroup (api : Api) (o : ProgramOptions) (path words : List String) (name : String) :
    Run Unit := do
  let con := o.console (← get)
  let path := path ++ [name]
  if name = "config" then performConfig con path words
  else if name = "inspect" then performInspect con o path words
  else api.run con o path words

/-- What a command line does. -/
def perform (words : List String) : Run Unit := do
  let path := [Program.name]
  -- the commands are made before any option is parsed, so what goes wrong there comes first
  let api ← Run.act (loadApi words)
  if words.isEmpty then throw (.refused (.nothingGiven path))
  match ← Run.parse (Grammar.subcommand ProgramOptions.specs ProgramOptions.actions words) with
  | .inl action => performAction path action
  | .inr before =>
    if groups.contains before.command then
      performGroup api (.ofParsed before.options) path before.rest before.command
    else
      let action ← Run.parse (Grammar.unknownCommand ProgramOptions.specs ProgramOptions.actions
        before.command before.rest)
      performAction path action

/-! ### Ends -/

/-- How a command line ends. -/
inductive Ending
  | done (status : Nat)
  | refused (f : UsageFault)
  | aborted
  | helped (path : List String)
deriving DecidableEq, Repr

/-- The exit status. -/
def Ending.status : Ending → Nat
  | .done status => status
  | .refused _ => UsageFault.exitCode
  | .aborted => 1
  | .helped _ => 0

/-- Writes the log of a failure that nobody foresaw. -/
def writeLog : Act Path := do
  let dir := (← Config.dataDirectory).join "logs"
  Act.makeDirs dir
  let log := dir.join ("crash-" ++ (← get).clock ++ ".log")
  Act.writeText log "The program met a failure that it did not foresee.\n"
  return log

/-- Tells a failure. -/
def tell (f : Fault) : Act Ending := do
  let con : Console := {}
  match f.kind with
  | .crash _ =>
    let log ← writeLog
    con.error ("Unexpected error. Debug log: " ++ log.toText)
  | _ => con.error f.text
  return .done f.exitCode

/-- The end that what stopped a run calls for. -/
def conclude : Except Stop Unit → Act Ending
  | .ok () => pure (.done 0)
  | .error (.fault f) => tell f
  | .error (.exit status) => pure (.done status)
  | .error (.refused f) => pure (.refused f)
  | .error .aborted => pure .aborted
  | .error (.help path) => do
    Act.print ""
    return .helped path

/-- Carries out a command line to its end. -/
def start (words : List String) : Act Ending := do
  let stopped ← ExceptT.lift (perform words).run
  conclude stopped

end Program

end Restline
