import Restline.Auth
import Restline.CommandLine.Scan
import Restline.Program.Options

/-!
What a command line may look at: variables, and places among the files. The program works on what is
known of a host, so whoever runs it looks these up first; once the configuration is known it leads to
further ones.

* `Surroundings.settings` : the variables.
* `Surroundings.places` : the places.
* `Surroundings.needsInput` : the standard input is read.
-/

set_option autoImplicit false

namespace Restline.Surroundings

/-- The variables that the program looks at whatever the configuration is. -/
def usualSettings : List String :=
  ["HOME", "XDG_CONFIG_HOME", "XDG_DATA_HOME", "AZREST_PROFILE", "AZREST_ENDPOINT",
    "AZREST_METADATA_PATH", "AZURE_ACCESS_TOKEN", "NO_COLOR", "TERM"]

/-- What an action gives, if it does not fail. -/
def result? {α : Type} (h : Host) (x : Act α) : Option α :=
  match (x h).1 with
  | .ok a => some a
  | .error _ => none

/-- The profiles that are kept and can be read. -/
def profiles (h : Host) : List Profile :=
  ((result? h Profile.saved).getD []).filterMap (fun name => result? h (Profile.load name))

/-- The sources of secrets. -/
def sources (h : Host) : List String :=
  (profiles h).filterMap (fun p => p.credential.map (·.source))

/-- The variables that the program looks at. -/
def settings (h : Host) : List String :=
  usualSettings ++ (sources h).filterMap (after? "env:")

/-- The texts in a word that may name a place: the word, what follows an equals sign in it, and either
without an at sign. -/
def namesIn (word : String) : List String :=
  let parts := word :: (Text.headAndTail '=' word).2.toList
  parts ++ parts.filterMap (after? "@")

/-- The places that are named by the command line, the environment and the configuration. -/
def named (h : Host) (words : List String) : List String :=
  words.flatMap namesIn
    ++ (h.setting? "AZREST_METADATA_PATH").toList
    ++ (profiles h).filterMap (·.metadataPath)
    ++ (sources h).filterMap (after? "file:")
    ++ ((result? h Config.load).bind (·.metadataPath)).toList
    ++ (((result? h Project.load).join.bind (·.get? "metadata_path")).bind Json.text?).toList
    ++ [Program.name ++ ".json", "metadata"]

/-- The places that the program may look at. -/
def places (h : Host) (words : List String) : List Path :=
  (named h words).filterMap (fun name => (h.expand (Path.ofText name)).toOption)
    ++ h.configPath.toOption.toList

/-- The standard input is read: records or an identifier come from it, or an answer. -/
def needsInput (words : List String) : Bool :=
  words.any (fun w => ["--stdin", "-", "--id=-", "reset"].contains w)

/-- A secret may have to be typed. -/
def needsSecret (h : Host) (words : List String) : Bool :=
  (Scan.apiPosition? words).isSome && (sources h).contains "prompt"

end Restline.Surroundings
