import Restline.Fault
import Restline.Json.Reader
import Restline.Text.Case
import Restline.Text.Segments

/-!
Resource identifiers: absolute paths without a slash at the end. An identifier fits the template of an
operation when both have the same number of segments and agree, up to letter case, in every segment
that is no placeholder; the last segment of a template for POST names an action and does not count.

* `ResourceId` : the identifiers.
* `ResourceId.check`, `ResourceId.fits` : an identifier against a template.
* `ResourceId.ofRecord` : the identifier in a JSON record.
-/

set_option autoImplicit false

namespace Restline

/-- A resource identifier. -/
structure ResourceId where
  text : String
deriving DecidableEq, Repr

/-- Why an identifier does not fit a template. -/
inductive MismatchFault
  | segmentCount (expected got : Nat)
  | segment (expected got : String)
deriving DecidableEq, Repr

/-- The mismatch as it is told. -/
def MismatchFault.report : MismatchFault → Fault
  | .segmentCount expected got =>
    { kind := .idMismatch
      message := "id has unexpected length: expect=" ++ toString expected ++ ", got=" ++ toString got }
  | .segment expected got =>
    { kind := .idMismatch
      message := "id contains unexpected segment: expect=" ++ expected ++ ", got=" ++ got }

namespace ResourceId

/-- The identifier that a text stands for. -/
def ofText (s : String) : ResourceId := ⟨Text.withoutTrailing '/' s⟩

/-- The segments of the identifier in upper case. -/
def segments (r : ResourceId) : List String := Text.segments '/' (Text.upper r.text)

/-- The method is the one whose templates end in an action. -/
def endsInAction (method : Option String) : Bool :=
  method.any (fun m => Text.upper m == "POST")

/-- The segments of a template in upper case, without the action. -/
def templateSegments (template : String) (method : Option String) : List String :=
  let all := Text.segments '/' (Text.upper (Text.withoutTrailing '/' template))
  if endsInAction method then all.dropLast else all

/-- The segment of a template stands for any value. -/
def isPlaceholder (segment : String) : Bool := segment.startsWith "\x7b"

/-- The first segment that differs, of those that must agree. -/
def firstMismatch : List String → List String → Option (String × String)
  | e :: es, g :: gs =>
    if isPlaceholder e then firstMismatch es gs
    else if e = g then firstMismatch es gs
    else some (e, g)
  | _, _ => none

/-- The identifier fits the template, or why it does not. -/
def check (r : ResourceId) (template : String) (method : Option String) : Except MismatchFault Unit :=
  let expected := templateSegments template method
  let got := r.segments
  if got.length ≠ expected.length then .error (.segmentCount expected.length got.length)
  else
    match firstMismatch expected got with
    | some (e, g) => .error (.segment e g)
    | none => .ok ()

/-- The identifier fits the template. -/
def fits (r : ResourceId) (template : String) (method : Option String) : Bool :=
  (r.check template method).isOk

end ResourceId

/-! ### Identifiers in records -/

/-- Why a text holds no identifier. -/
inductive IdRecordFault
  | malformed (text : String) (what : Json.Expected) (left : Nat)
  | overlong
  | notRecord
  | notText
deriving DecidableEq, Repr

/-- The failure as it is told. -/
def IdRecordFault.report : IdRecordFault → Fault
  | .malformed text what left =>
    { kind := .invalidUsage
      message := "input is not valid JSON: " ++ (Json.ReadFault.malformed what left).message text }
  | .overlong => .ofCrash .badValue
  | .notRecord => { kind := .invalidUsage, message := "expect a JSON object as input" }
  | .notText =>
    { kind := .invalidUsage
      message := "expect the \"id\" key of the JSON object to be a string" }

/-- The identifier that a JSON record holds. -/
def ResourceId.ofRecord (text : String) : Except IdRecordFault ResourceId :=
  match Json.read text with
  | .error (.malformed what left) => .error (.malformed text what left)
  | .error (.overlong _) => .error .overlong
  | .ok (.obj ms) =>
    match Keyed.get? ms "id" with
    | some (.str s) => .ok (.ofText s)
    | _ => .error .notText
  | .ok _ => .error .notRecord

end Restline
