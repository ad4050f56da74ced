import Restline.Argument
import Restline.Fault
import Restline.Json.Display
import Restline.Json.Reader
import Restline.Metadata.Command
import Restline.Text.Case
import Restline.Text.Segments

/-!
Request bodies. A schema and the bound arguments give a body: an object is built from its members or
taken whole from an argument, and every other node takes the value of its argument. A node without a
value is left out, and so is an object without members, but at the root an object built from members
is always there.

* `Value.toJson` : the JSON value that a bound value gives for a family of types.
* `Schema.build`, `Schema.body` : the value of a node, and of a whole body.
* `Schema.at?` : the node at a path of names.
* `Schema.prune` : a value without the members that a schema does not accept.
-/

set_option autoImplicit false

namespace Restline

/-! ### Failures -/

/-- Why a body cannot be built. -/
inductive BodyFault
  /-- A member of an object has no name. -/
  | unnamedMember
  /-- An object has neither an argument nor members. -/
  | hollowObject
  /-- A node that is no object has no argument. -/
  | unboundNode (name : Option String)
  /-- The argument needs JSON text. -/
  | wantsJson (arg : String) (value : Value)
  | malformedJson (arg text : String) (what : Json.Expected) (left : Nat)
  /-- A whole number with too many digits stands in the text. -/
  | overlongNumeral
  | wantsInt (arg : String) (value : Value)
  | wantsBool (arg : String) (value : Value)
deriving DecidableEq, Repr

/-- A truth value as a message shows it, any other value as quoted text. -/
def Value.shownAsText : Value → String
  | .bool b => (Value.bool b).shown
  | v => Text.quoted v.toText

/-- The failure as it is told. -/
def BodyFault.report : BodyFault → Fault
  | .unnamedMember =>
    { kind := .integrity, message := "property lacks the \"name\" in the schema" }
  | .hollowObject =>
    { kind := .integrity
      message := "object schema lacks both the \"arg\" and \"props\" in the schema" }
  | .unboundNode name =>
    { kind := .integrity
      message := "schema \"" ++ name.getD "" ++ "\" lacks the \"arg\" in the schema" }
  | .wantsJson arg value =>
    { kind := .invalidUsage
      message := "expected a JSON value for " ++ arg ++ ", got " ++ value.shown }
  | .malformedJson arg text what left =>
    { kind := .invalidUsage
      message := "invalid JSON for " ++ arg ++ ": "
        ++ (Json.ReadFault.malformed what left).message text }
  | .overlongNumeral => .ofCrash .badValue
  | .wantsInt arg value =>
    { kind := .invalidUsage
      message := "expected an integer for " ++ arg ++ ", got " ++ value.shownAsText }
  | .wantsBool arg value =>
    { kind := .invalidUsage
      message := "expected true or false for " ++ arg ++ ", got " ++ value.shownAsText }

/-! ### Values of arguments -/

namespace Value

/-- The JSON value that a text holds. -/
def readJson (arg text : String) : Except BodyFault Json :=
  match Json.read text with
  | .ok j => .ok j
  | .error (.malformed what left) => .error (.malformedJson arg text what left)
  | .error (.overlong _) => .error .overlongNumeral

/-- The value of JSON text that an argument holds. -/
def parse (arg : String) : Value → Except BodyFault Json
  | .text s => readJson arg s
  | .raw s => readJson arg s
  | v => .error (.wantsJson arg v)

/-- A text as it is, JSON text as the value it holds, any other value as text. -/
def toJsonText (arg : String) : Value → Except BodyFault Json
  | .raw s => readJson arg s
  | v => .ok (.str v.toText)

/-- A whole number, or a numeral with blanks around it. -/
def toJsonInt (arg : String) : Value → Except BodyFault Json
  | .int n => .ok (.int n)
  | .bool b => .error (.wantsInt arg (.bool b))
  | v =>
    match Text.ofNumeral? (Text.trim v.toText) with
    | some n => .ok (.int n)
    | none => .error (.wantsInt arg v)

/-- A truth value, or one of its two words with blanks around it. -/
def toJsonBool (arg : String) : Value → Except BodyFault Json
  | .bool b => .ok (.bool b)
  | v =>
    let word := Text.lowerAscii (Text.trim v.toText)
    if word = "true" then .ok (.bool true)
    else if word = "false" then .ok (.bool false)
    else .error (.wantsBool arg v)

/-- The value that a text holds if it is JSON, else the text. -/
def readOpaque (text : String) : Except BodyFault Json :=
  match Json.read text with
  | .ok j => .ok j
  | .error (.malformed _ _) => .ok (.str text)
  | .error (.overlong _) => .error .overlongNumeral

/-- A number or a truth value as it is, a text as the value it holds if it is JSON. -/
def toJsonOpaque : Value → Except BodyFault Json
  | .int n => .ok (.int n)
  | .bool b => .ok (.bool b)
  | .text s => readOpaque s
  | .raw s => readOpaque s

/-- The JSON value that a bound value gives for a family of types. -/
def toJson (arg : String) (v : Value) : Kind → Except BodyFault Json
  | .object => v.parse arg
  | .array => v.parse arg
  | .string => v.toJsonText arg
  | .integer => v.toJsonInt arg
  | .boolean => v.toJsonBool arg
  | .opaqueJson => v.toJsonOpaque

end Value

/-! ### Building -/

namespace Schema

/-- The value that an argument gives for a family of types, if the argument is bound. -/
def argValue (b : Bound) (arg : String) (k : Kind) : Except BodyFault (Option Json) :=
  match b.get? arg with
  | none => .ok none
  | some v => (v.toJson arg k).map some

/-- An object with the members that have a value, the last of each name counting. -/
def objectOf (members : List (String × Json)) : Option Json :=
  if members.isEmpty then none else some (.obj (Keyed.ofPairs members))

mutual

/-- The value of a node, if it has one. -/
def build (b : Bound) : Schema → Except BodyFault (Option Json)
  | .node a ps _ _ =>
    match a.arg, Kind.ofTag a.type with
    | some arg, k => argValue b arg k
    | none, .object => buildProps b ps
    | none, _ => .error (.unboundNode a.name)

/-- The value of an object that has no argument. -/
def buildProps (b : Bound) : Option (List Schema) → Except BodyFault (Option Json)
  | none => .error .hollowObject
  | some ps => (buildMembers b ps).map objectOf

/-- The members that have a value, in order. -/
def buildMembers (b : Bound) : List Schema → Except BodyFault (List (String × Json))
  | [] => .ok []
  | s :: r =>
    match s.name with
    | none => .error .unnamedMember
    | some name => do
      let v ← build b s
      let ms ← buildMembers b r
      return (v.map (name, ·)).toList ++ ms

end

/-- The body that a schema and the bound arguments give. A body that is null is no body. -/
def body (b : Bound) (s : Schema) : Except BodyFault (Option Json) :=
  match s.arg, s.props with
  -- a root with members is an object whatever its kind is, and a body even when nothing is in it
  | none, some ps => (buildMembers b ps).map (fun ms => some (.obj (Keyed.ofPairs ms)))
  | _, _ => (build b s).map (fun v => v.bind Json.nonNull?)

/-! ### Paths -/

/-- The node can be descended into: an object that is not taken whole from an argument. -/
def isOpen (s : Schema) : Bool := s.kind == .object && s.arg.isNone

/-- The node at a path of names. -/
def at? : Schema → List String → Option Schema
  | s, [] => some s
  | s, name :: rest =>
    if s.isOpen then (s.member? name).bind (fun c => at? c rest) else none

/-- The names of a path with dots between them; empty ones do not count. -/
def pathNames (path : String) : List String :=
  (Text.segments '.' path).filter (· ≠ "")

/-! ### Pruning -/

mutual

/-- The value with only the members that the schema names and that clients write. -/
def prune (s : Schema) : Json → Json
  | .obj ms =>
    -- neither the kind of the node nor an argument of it counts
    match s.props with
    | some _ => .obj (pruneMembers s ms)
    | none => .obj ms
  | .arr items =>
    match s.item with
    | some i => .arr (pruneItems i items)
    | none => .arr items
  | j => j

/-- The members that stay, each pruned. -/
def pruneMembers (s : Schema) : List (String × Json) → List (String × Json)
  | [] => []
  | (k, j) :: r =>
    match s.member? k with
    | some c => if c.isReadOnly then pruneMembers s r else (k, prune c j) :: pruneMembers s r
    | none => pruneMembers s r

/-- The items, each pruned. -/
def pruneItems (s : Schema) : List Json → List Json
  | [] => []
  | j :: r => prune s j :: pruneItems s r

end

end Schema

/-- The body schema node of an operation at a path of names. -/
def Operation.schemaAt (o : Operation) (path : List String) : Option Schema :=
  o.bodySchema.bind (·.at? path)

end Restline
