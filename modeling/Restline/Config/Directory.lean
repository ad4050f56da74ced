import Restline.Config.Global
import Restline.Host
import Restline.Json.Reader
import Restline.Program.Name
import Restline.Text.Sorted

/-!
Where the configuration is kept. On Linux and the BSD systems the directories follow the environment,
elsewhere they stand in the home directory; they are made when they are asked for. The configuration of
the user is one file, each profile is one, and the working directory may hold a file for a project. A
file is written in one step, so that nobody reads half of it.

* `Config.directory`, `Config.dataDirectory`, `Profile.directory` : the directories.
* `Config.load`, `Config.save` : the configuration of the user.
* `Profile.load`, `Profile.save`, `Profile.delete`, `Profile.saved` : profiles.
* `Project.load` : the file of a project.
-/

set_option autoImplicit false

namespace Restline

/-- A failure of the configuration. -/
def configFault (message : String) (issues : List Issue) : Fault :=
  { kind := .config, message := message, issues := issues }

/-! ### Directories -/

namespace Host

/-- The directories of the user follow the environment. -/
def followsEnvironment (h : Host) : Bool := h.platform == "Linux" || h.platform.endsWith "BSD"

/-- The home directory. -/
def homePath (h : Host) : Except Fault Path := h.expand (Path.ofText "~")

/-- The directory that a variable gives, or else the one of some names below the home directory. -/
def baseDirectory (h : Host) (name : String) (names : List String) : Except Fault Path :=
  match h.setting? name with
  | some dir => .ok (Path.ofText dir)
  | none => h.homePath.map (fun p => names.foldl Path.join p)

/-- The directory for configuration. -/
def configPath (h : Host) : Except Fault Path :=
  if h.followsEnvironment then
    (h.baseDirectory "XDG_CONFIG_HOME" [".config"]).map (·.join Program.name)
  else h.homePath.map (·.join ("." ++ Program.name))

/-- The directory for data. -/
def dataPath (h : Host) : Except Fault Path :=
  if h.followsEnvironment then
    (h.baseDirectory "XDG_DATA_HOME" [".local", "share"]).map (·.join Program.name)
  else h.homePath.map (fun p => (p.join ("." ++ Program.name)).join "data")

end Host

/-- Makes a directory that was asked for. -/
def madeDirectory (p : Path) : Act Path := do
  Act.makeDirs p
  return p

/-- The directory for configuration, which is made. -/
def Config.directory : Act Path := do madeDirectory (← Act.ask Host.configPath)

/-- The directory for data, which is made. -/
def Config.dataDirectory : Act Path := do madeDirectory (← Act.ask Host.dataPath)

/-- The directory for profiles, which is made. -/
def Profile.directory : Act Path := do
  let dir ← Config.directory
  madeDirectory (dir.join "profiles")

/-! ### Files of JSON -/

/-- The JSON value that a file holds; `what` names it in messages. -/
def readJsonFile (p : Path) (what : String) : Act Json := do
  let bytes ← Act.ask (·.readBytes p)
  let invalid (message : String) : Fault :=
    configFault ("Invalid " ++ what ++ " at " ++ p.toText ++ ": " ++ message) []
  match Text.Utf8.readText bytes with
  | .error f => throw (invalid f.message)
  | .ok text =>
    match Json.read text with
    | .error f => throw (invalid (f.message text))
    | .ok j => return j

/-- A value that fits, or the failure that names the file. -/
def fitting {α : Type} (p : Path) (what : String) (c : Checked α) : Act α :=
  match c with
  | .valid a => pure a
  | .flawed is => throw (configFault ("Invalid " ++ what ++ " at " ++ p.toText ++ ": ") is)

/-- The text of a file that holds a value. -/
def jsonFileText (j : Json) : String := j.write Json.prettyAscii ++ "\n"

/-! ### The configuration of the user -/

namespace Config

/-- The file of the configuration. -/
def file : Act Path := do return (← directory).join "config.json"

/-- The configuration of the user; without a file it is the usual one. -/
def load : Act Config := do
  let p ← file
  if ← Act.ask (·.isFile p) then
    let j ← readJsonFile p "global config"
    fitting p "global config" (ofJson j)
  else return {}

/-- Keeps a configuration. -/
def save (c : Config) : Act Unit := do
  let p ← file
  Act.replaceText p (jsonFileText c.toJson)

end Config

/-! ### Profiles -/

namespace Profile

/-- The end of the names of files of profiles. -/
def extension : String := ".json"

/-- The file of a profile. -/
def file (name : String) : Act Path := do return (← directory).join (name ++ extension)

/-- The name of the profile that a file holds, if it holds one. A name of nothing but the end stays
whole. -/
def nameOfFile? (fileName : String) : Option String :=
  if fileName.endsWith extension then
    some (if fileName = extension then fileName
      else String.ofList (fileName.toList.take (fileName.length - extension.length)))
  else none

/-- The names of all profiles, in order. -/
def saved : Act (List String) := do
  let dir ← directory
  let spot ← Act.ask (·.spotOf dir)
  let names := (← get).files.fileNamesIn spot
  return Text.sorted (names.filterMap nameOfFile?)

/-- A profile is kept under the name. -/
def isSaved (name : String) : Act Bool := do
  let p ← file name
  Act.ask (·.isFile p)

/-- No profile is kept under the name. -/
def notFound (name : String) (p : Path) : Fault :=
  configFault ("Profile '" ++ name ++ "' not found at " ++ p.toText) []

/-- The profile under a name. -/
def load (name : String) : Act Profile := do
  let p ← file name
  if ← Act.ask (·.isFile p) then
    let what := "profile '" ++ name ++ "'"
    let j ← readJsonFile p what
    fitting p what (ofJson j)
  else throw (notFound name p)

/-- Keeps a profile under its name, unless a number in it is too long to be written. -/
def save (profile : Profile) : Act Unit := do
  let p ← file profile.name
  if profile.toJson.isWritable then Act.replaceText p (jsonFileText profile.toJson)
  else throw (.ofCrash .badValue)

/-- Removes the profile under a name. -/
def delete (name : String) : Act Unit := do
  let p ← file name
  if ← Act.ask (·.isFile p) then Act.unlink p else throw (notFound name p)

end Profile

/-! ### Projects -/

namespace Project

/-- The members of the file for a project in the working directory, if there is one. -/
def load : Act (Option (Keyed Json)) := do
  let p := (← get).workPath.join (Program.name ++ ".json")
  if ← Act.ask (·.isFile p) then
    match ← readJsonFile p "project config" with
    | .obj ms => return some ms
    | _ =>
      throw (configFault ("Invalid project config at " ++ p.toText ++ ": expected a JSON object") [])
  else return none

end Project

end Restline
