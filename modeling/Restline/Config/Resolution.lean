import Restline.Config.Directory
import Restline.Json.Display

/-!
Which settings count. The name of the profile comes from the command line, or else from the environment,
or else from the file of the project, or else from the configuration of the user; where none of them names
one, a profile that is the only one is taken if the user wants that, and else the usual one. The address
of the service comes from the command line, or else from the environment, or else from the profile. The
documents are found in a like way.

* `Config.resolve` : the configuration and the profile that count.
* `Config.metadataRoot` : the directory of the documents.
* `secret` : the secret that a source stands for.
-/

set_option autoImplicit false

namespace Restline

/-- What the command line says about the profile. -/
structure Choice where
  profile : Option String := none
  endpoint : Option String := none
  format : Option String := none

namespace Config

/-! ### The profile -/

/-- The name of a profile that a project gives. -/
def projectProfile (project : Option (Keyed Json)) : Option String :=
  -- a value that is not a text counts as well, as it is shown
  ((project.bind (·.get? "default_profile")).filter (fun j => !j.isEmpty)).map Json.display

/-- The name of the profile, by the first source that gives one. -/
def profileName (choice : Choice) (environment : Option String) (project : Option (Keyed Json))
    (c : Config) : Option String :=
  ((choice.profile.or environment).or (projectProfile project)).or c.defaultProfile

/-- The profile that is the only one. -/
def onlyProfile : Act (Option String) := do
  match ← Profile.saved with
  | [name] => return some name
  | _ => return none

/-- The profile under a name, or the usual one. -/
def profileOr (name : Option String) : Act Profile :=
  match name with
  | some name => Profile.load name
  | none => pure { name := "default" }

/-- The configuration and the profile that count. -/
def resolve (choice : Choice) : Act (Config × Profile) := do
  let c ← load
  let project ← Project.load
  let h ← get
  let name := profileName choice (h.setting? "AZREST_PROFILE") project c
  let name ← if name.isNone && c.autoSelectSingleProfile then onlyProfile else pure name
  let profile ← profileOr name
  let endpoint := (choice.endpoint.or (h.setting? "AZREST_ENDPOINT")).getD profile.endpoint
  let format := choice.format.getD c.outputFormat
  return ({ c with outputFormat := format }, { profile with endpoint := endpoint })

/-! ### The documents -/

/-- A text, unless it is empty. -/
def given? (s : Option String) : Option String := s.filter (· ≠ "")

/-- The directory of the documents that a project gives. -/
def projectMetadata (project : Option (Keyed Json)) : Except Fault (Option String) :=
  match (project.bind (·.get? "metadata_path")).filter (fun j => !j.isEmpty) with
  | none => .ok none
  | some (.str s) => .ok (some s)
  | some _ => .error (.ofCrash .badType)

/-- The directory of the documents, by the first source that gives one. -/
def metadataRoot (c : Config) (profile : Profile) (choice : Option String) : Act Path := do
  let h ← get
  let first := ((given? choice).or (h.setting? "AZREST_METADATA_PATH")).or
    (given? profile.metadataPath)
  match first with
  | some dir => Act.of (h.expand (Path.ofText dir))
  | none =>
    let project ← Project.load
    match (← Act.of (projectMetadata project)).or (given? c.metadataPath) with
    | some dir => Act.of (h.expand (Path.ofText dir))
    | none => return h.workPath.join "metadata"

end Config

/-! ### Secrets -/

/-- What follows when a text begins with another. -/
def after? (start s : String) : Option String :=
  if s.startsWith start then some (String.ofList (s.toList.drop start.length)) else none

/-- The source of a secret, for messages. -/
def sourceNote (source : String) : String := " (source: " ++ source ++ ")"

/-- The secret in a variable. -/
def secretOfVariable (h : Host) (source name : String) : Except Fault String :=
  match h.env.get? name with
  | some v => .ok v
  | none =>
    .error (configFault ("Environment variable '" ++ name ++ "' is not set" ++ sourceNote source) [])

/-- The secret in a file, without blanks around it. -/
def secretOfFile (h : Host) (source name : String) : Except Fault String := do
  let p ← h.expand (Path.ofText name)
  if ← h.isFile p then return Text.trim (← h.readText p)
  else throw (configFault ("Credential file not found: " ++ p.toText ++ sourceNote source) [])

/-- The secret that is typed. -/
def typedSecret (h : Host) : Except Fault String :=
  match h.typed with
  | some s => .ok s
  | none =>
    .error (configFault
      ("Cannot prompt for credentials: stdin is not a TTY" ++ sourceNote "prompt") [])

/-- The secret that a source stands for: a variable, a file, or the keyboard. -/
def secret (h : Host) (source : String) : Except Fault String :=
  match after? "env:" source, after? "file:" source with
  | some name, _ => secretOfVariable h source name
  | none, some name => secretOfFile h source name
  | none, none =>
    if source = "prompt" then typedSecret h
    else .error (configFault ("Unknown credential source format: " ++ source) [])

end Restline
