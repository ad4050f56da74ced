import Restline.Config.Profile
import Restline.Text.Case
import Restline.Text.Segments

/-!
The configuration of a user: which profile is taken where none is named, where documents are, and how
output is written. One value of it can be set by a key, whose parts are divided by dots; the text that is
given becomes a truth value where one stands.

* `Config` : the configurations, with `Config.ofJson` and `Config.toJson`.
* `Config.set` : a configuration with another value under a key.
-/

set_option autoImplicit false

namespace Restline

/-- The configuration of a user. -/
structure Config where
  defaultProfile : Option String := none
  /-- A profile that is the only one is taken where none is named. -/
  autoSelectSingleProfile : Bool := true
  metadataPath : Option String := none
  outputFormat : String := "auto"
deriving DecidableEq, Repr

namespace Config

/-- The format of output that an object gives. -/
def formatOfJson : Json → Checked String :=
  Checked.record fun ms => fieldOr ms (.plain "format") "auto" Checked.text

/-- The configuration that an object gives. -/
def ofJson : Json → Checked Config :=
  Checked.record fun ms =>
    ((((optionalField ms (.plain "default_profile") Checked.text).map Config.mk).and
      (fieldOr ms (.plain "auto_select_single_profile") true Checked.bool)).and
      (optionalField ms (.plain "metadata_path") Checked.text)).and
      (fieldOr ms (.plain "output") "auto" formatOfJson)

/-- The configuration as an object. -/
def toJson (c : Config) : Json :=
  .obj [("default_profile", Json.ofText? c.defaultProfile),
    ("auto_select_single_profile", .bool c.autoSelectSingleProfile),
    ("metadata_path", Json.ofText? c.metadataPath),
    ("output", .obj [("format", .str c.outputFormat)])]

/-! ### Setting values -/

/-- Why a value cannot be set. -/
inductive SetFault
  /-- The key leads through something that has no parts. -/
  | invalidKey
  /-- Nothing stands under the key. -/
  | unknownKey
  /-- The value does not fit. -/
  | badValue (issues : List Issue)
deriving DecidableEq, Repr

/-- The value that a text gives in place of another. -/
def coerce (current : Json) (text : String) : Json :=
  match current with
  | .bool _ => .bool (["true", "1", "yes"].contains (Text.lowerAscii text))
  | _ => .str text

/-- The members with another value at the end of a path, and that value. -/
def setMember (ms : Keyed Json) (text : String) : List String → Except SetFault (Keyed Json × Json)
  | [] => .error .unknownKey
  | [name] =>
    match ms.get? name with
    | none => .error .unknownKey
    | some current => .ok (ms.put name (coerce current text), coerce current text)
  | name :: rest =>
    match ms.get? name with
    | some (.obj inner) => do
      let (inner, value) ← setMember inner text rest
      return (ms.put name (.obj inner), value)
    | _ => .error .invalidKey

/-- The members of the configuration. -/
def members (c : Config) : Keyed Json :=
  match c.toJson with
  | .obj ms => ms
  | _ => []

/-- The configuration with another value under a key, and that value. -/
def set (c : Config) (key text : String) : Except SetFault (Config × Json) := do
  let (ms, value) ← setMember c.members text (Text.segments '.' key)
  match ofJson (.obj ms) with
  | .valid c => return (c, value)
  | .flawed is => throw (.badValue is)

end Config

end Restline
