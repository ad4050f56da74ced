import Restline.CommandLine.Form
import Restline.Config.Resolution
import Restline.Program.Run

/-!
The commands on the configuration: they show it, set one value of it, reset it, and keep profiles. A
command that cannot do its work tells why and changes nothing.

* `ConfigCommand` : the commands, with `ConfigCommand.forms` and `ConfigCommand.ofFilled?`.
* `ConfigCommand.run` : what each of them does.
-/

set_option autoImplicit false

namespace Restline

/-- A command on the configuration. -/
inductive ConfigCommand
  /-- Shows the configuration, or a profile. -/
  | display (profile : Option String)
  | set (key value : String)
  | reset (force : Bool)
  | profiles
  | addProfile (name : String) (endpoint metadata source : Option String) (makeDefault force : Bool)
  | use (name : String)
deriving DecidableEq, Repr

namespace ConfigCommand

/-! ### The command line -/

/-- The option that skips a question or overwrites. -/
def forceSpec : OptionSpec := ⟨"force", ["--force", "-f"], false⟩

/-- The forms of the commands. -/
def forms : Keyed Form := [
  ("show", { arguments := [{ name := "profile", required := false }] }),
  ("set", { arguments := [{ name := "key" }, { name := "value" }] }),
  ("reset", { options := [forceSpec] }),
  ("profiles", {}),
  ("add-profile",
    { options := [⟨"endpoint", ["--endpoint"], true⟩, ⟨"metadata", ["--metadata", "-m"], true⟩,
        ⟨"source", ["--source", "-s"], true⟩, ⟨"default", ["--default"], false⟩, forceSpec]
      arguments := [{ name := "name" }] }),
  ("use", { arguments := [{ name := "name" }] })]

/-- The command of a name with what words give for its form. -/
def ofFilled? (name : String) (f : Filled) : Option ConfigCommand :=
  let word (argument : String) : String := (f.word? argument).getD ""
  match name with
  | "show" => some (.display (f.word? "profile"))
  | "set" => some (.set (word "key") (word "value"))
  | "reset" => some (.reset (f.has "force"))
  | "profiles" => some .profiles
  | "add-profile" =>
    some (.addProfile (word "name") (f.option? "endpoint") (f.option? "metadata")
      (f.option? "source") (f.has "default") (f.has "force"))
  | "use" => some (.use (word "name"))
  | _ => none

/-! ### Showing -/

/-- Tells a failure of the configuration as an error; other failures stop the run as they are. -/
def orFail {α : Type} (con : Console) (x : Act α) : Run α := fun h =>
  match x h with
  | (.ok a, h) => (.ok a, h)
  | (.error f, h) => if f.kind = .config then Run.fail con f.text 2 h else (.error (.fault f), h)

/-- Shows the configuration, or a profile. -/
def runDisplay (con : Console) (profile : Option String) : Run Unit := do
  let dir ← Run.act Config.directory
  Run.act (con.info ("Config directory: " ++ dir.toText))
  match profile with
  | none => Run.act do con.printValue (← Config.load).toJson
  | some name =>
    let p ← orFail con (Profile.load name)
    Run.act (con.printValue p.toJson)

/-! ### Setting -/

/-- Why a value cannot be set, in words. -/
def setFaultText (key : String) : Config.SetFault → String
  | .invalidKey => "Invalid config key: " ++ key
  | .unknownKey => "Unknown config key: " ++ key
  | .badValue is => "Validation error: " ++ issueCount is

/-- Sets one value. -/
def runSet (con : Console) (key value : String) : Run Unit := do
  let c ← Run.act Config.load
  match c.set key value with
  | .error f => Run.fail con (setFaultText key f) 2
  | .ok (c, value) =>
    Run.act c.save
    Run.act (con.success ("Set " ++ key ++ " = " ++ value.display))

/-! ### Resetting -/

/-- The question before a reset. -/
def resetQuestion : String := "Reset all config to defaults? [y/N]: "

/-- What an answer means; an answer that means nothing is asked for again. -/
def answer? (line : String) : Option Bool :=
  let word := Text.trim (Text.lowerAscii line)
  if word = "y" ∨ word = "yes" then some true
  else if word = "n" ∨ word = "no" ∨ word = "" then some false
  else none

/-- Asks until there is an answer. The first argument bounds the number of questions. -/
def ask : Nat → Run Bool
  | 0 => throw .aborted
  | fuel + 1 => do
    Run.act (Act.prompt resetQuestion)
    match ← Run.act Act.readLine with
    | none => throw .aborted
    | some line =>
      match answer? line with
      | some b => return b
      | none =>
        Run.act (Act.print "Error: invalid input")
        ask fuel

/-- Puts the usual configuration in place, after a question unless it is forced. -/
def runReset (con : Console) (force : Bool) : Run Unit := do
  let lines := (Text.lines (← get).input).length
  let confirmed ← if force then pure true else ask (lines + 1)
  if confirmed then
    Run.act (Config.save {})
    Run.act (con.success "Configuration reset to defaults.")
  else
    Run.act (con.info "Cancelled.")
    throw (.exit 0)

/-! ### Profiles -/

/-- A text, or a dash where there is none. -/
def orDash (s : Option String) : String := (Config.given? s).getD "-"

/-- The row of a profile; the usual one is marked. -/
def profileRow (usual : Option String) (name : String) (p : Profile) : List String :=
  [if usual = some name then name ++ " *" else name, p.endpoint, orDash p.metadataPath,
    match p.credential with
    | some c => c.source
    | none => "-"]

/-- The rows of profiles. -/
def profileRows (usual : Option String) : List String → Act (List (List String))
  | [] => pure []
  | name :: rest => do
    let p ← Profile.load name
    let rows ← profileRows usual rest
    return profileRow usual name p :: rows

/-- Lists the profiles. -/
def runProfiles (con : Console) : Act Unit := do
  let names ← Profile.saved
  if names.isEmpty then con.info "No profiles saved. Run: azrest config add-profile <name>"
  else
    let usual := (← Config.load).defaultProfile
    let rows ← profileRows usual names
    con.printTable ["Profile", "Endpoint", "Metadata", "Credential"] rows

/-- Makes a profile the usual one. -/
def makeUsual (name : String) : Act Unit := do
  let c ← Config.load
  Config.save { c with defaultProfile := some name }

/-- The profile that a command line describes. -/
def describedProfile (name : String) (endpoint metadata source : Option String) : Profile :=
  { name := name
    endpoint := endpoint.getD defaultEndpoint
    metadataPath := metadata
    credential := some (match source with
      | some s => { source := s }
      | none => {}) }

/-- Keeps a new profile. -/
def runAddProfile (con : Console) (p : Profile) (makeDefault force : Bool) : Run Unit := do
  let isThere ← Run.act (Profile.isSaved p.name)
  if isThere && !force then
    Run.fail con ("Profile '" ++ p.name ++ "' already exists. Use --force to overwrite.") 2
  Run.act p.save
  Run.act (con.success ("Profile '" ++ p.name ++ "' saved."))
  if makeDefault then
    Run.act (makeUsual p.name)
    Run.act (con.info ("Default profile set to '" ++ p.name ++ "'."))

/-- Makes a profile that is kept the usual one. -/
def runUse (con : Console) (name : String) : Run Unit := do
  if !(← Run.act (Profile.isSaved name)) then
    Run.fail con ("Profile '" ++ name ++ "' not found.") 2
  Run.act (makeUsual name)
  Run.act (con.success ("Default profile set to '" ++ name ++ "'."))

/-! ### All commands -/

/-- What a command does. -/
def run (con : Console) : ConfigCommand → Run Unit
  | .display profile => runDisplay con profile
  | .set key value => runSet con key value
  | .reset force => runReset con force
  | .profiles => Run.act (runProfiles con)
  | .addProfile name endpoint metadata source makeDefault force =>
    runAddProfile con (describedProfile name endpoint metadata source) makeDefault force
  | .use name => runUse con name

end ConfigCommand

end Restline
