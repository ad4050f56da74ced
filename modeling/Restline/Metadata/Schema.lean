import Restline.Validation

/-!
Schemas of request and response bodies. A node has a free-form type tag, which belongs to one of six
families; it may be bound to an argument, have named members, or have items.

* `Kind` : the families, and `Kind.ofTag`.
* `Schema` : the nodes.
* `Schema.walk` : a node and all nodes below it, through members and items.
* `Schema.ofJson`, `Schema.toJson` : reading and writing.
-/

set_option autoImplicit false

namespace Restline

/-! ### Families of types -/

/-- The families that type tags fall into. -/
inductive Kind
  | object
  | array
  | string
  | integer
  | boolean
  | opaqueJson
deriving DecidableEq, Repr, Inhabited

/-- The family of a tag. A list or a number may have more in its tag than the word; every other tag
must be the word itself. -/
def Kind.ofTag (tag : String) : Kind :=
  if tag = "object" then .object
  else if tag.startsWith "array" then .array
  else if tag = "string" then .string
  else if tag.startsWith "integer" then .integer
  else if tag = "boolean" then .boolean
  else .opaqueJson

/-- The word for a family. -/
def Kind.word : Kind → String
  | .object => "object"
  | .array => "array"
  | .string => "string"
  | .integer => "integer"
  | .boolean => "boolean"
  | .opaqueJson => "opaque"

/-- All families. -/
def Kind.all : List Kind := [.object, .array, .string, .integer, .boolean, .opaqueJson]

/-- The family with a word. -/
def Kind.ofWord? (w : String) : Option Kind := Kind.all.find? (fun k => k.word == w)

/-! ### Nodes -/

/-- What a node says of itself. -/
structure Attributes where
  type : String
  name : Option String := none
  /-- The argument whose value the node takes. -/
  arg : Option String := none
  required : Option Bool := none
  readOnly : Option Bool := none
  format : Option (Keyed Json) := none
  clientFlatten : Option Bool := none

/-- A node: its attributes, its members if it is built from members, its item if it has items, and the
values of a free-form map if it says anything about them. -/
inductive Schema
  | node (attributes : Attributes) (props : Option (List Schema)) (item : Option Schema)
      (additional : Option (Option Schema))

namespace Schema

/-- What the node says of itself. -/
def attributes : Schema → Attributes
  | .node a _ _ _ => a

/-- The members, if the node is built from members. -/
def props : Schema → Option (List Schema)
  | .node _ ps _ _ => ps

/-- The item, if the node has items. -/
def item : Schema → Option Schema
  | .node _ _ i _ => i

/-- The values of a free-form map, if the node says anything about them. -/
def additional : Schema → Option (Option Schema)
  | .node _ _ _ x => x

/-- The members, none if the node is not built from members. -/
def members (s : Schema) : List Schema := s.props.getD []

/-- The name of the node. -/
def name (s : Schema) : Option String := s.attributes.name

/-- The argument of the node. -/
def arg (s : Schema) : Option String := s.attributes.arg

/-- The family of the node. -/
def kind (s : Schema) : Kind := Kind.ofTag s.attributes.type

/-- The node is not written by clients. -/
def isReadOnly (s : Schema) : Bool := s.attributes.readOnly == some true

/-- The first member of a name. -/
def member? (s : Schema) (name : String) : Option Schema :=
  s.members.find? (fun c => c.name == some name)

mutual

/-- The node and every node below it through members and items, each before those below it. -/
def walk : Schema → List Schema
  | .node a ps i x => .node a ps i x :: (walkProps ps ++ walkItem i)

/-- The nodes of members. -/
def walkProps : Option (List Schema) → List Schema
  | none => []
  | some ps => walkList ps

/-- The nodes of a list of nodes. -/
def walkList : List Schema → List Schema
  | [] => []
  | s :: r => walk s ++ walkList r

/-- The nodes of an item. -/
def walkItem : Option Schema → List Schema
  | none => []
  | some s => walk s

end

/-! ### Reading -/

/-- How many records of one kind may stand inside each other. -/
def maxDepth : Nat := 254

/-- Reads a node that may have `depth` levels. -/
def readAt : Nat → Json → Checked Schema
  | 0, _ => .flaw .nestedTooDeep
  | depth + 1, j =>
    Checked.record (fun ms =>
      let build type name arg req ro props item format cf additional : Schema :=
        .node ⟨type, name, arg, req, ro, format, cf⟩ props item additional
      ((((((((((Checked.valid build).and
        (requiredField ms (.plain "type") Checked.text)).and
        (optionalField ms (.plain "name") Checked.text)).and
        (optionalField ms (.plain "arg") Checked.text)).and
        (optionalField ms (.plain "required") Checked.bool)).and
        (optionalField ms ⟨"readOnly", "read_only"⟩ Checked.bool)).and
        (optionalField ms (.plain "props") (Checked.listOf (readAt depth)))).and
        (optionalField ms (.plain "item") (readAt depth))).and
        (optionalField ms (.plain "format") (Checked.mapOf Checked.any))).and
        (optionalField ms ⟨"clientFlatten", "client_flatten"⟩ Checked.bool)).and
        (optionalField ms ⟨"additionalProps", "additional_props"⟩
          (Checked.record (fun ms => optionalField ms (.plain "item") (readAt depth))))) j

/-- Reads a node. -/
def ofJson (j : Json) : Checked Schema := readAt maxDepth j

/-- Reads what is said of the values of a free-form map. -/
def readMapValues (j : Json) : Checked (Option Schema) :=
  Checked.record (fun ms => optionalField ms (.plain "item") ofJson) j

end Schema

/-! ### Writing -/

/-- A member that is written if it has a value. -/
def Json.field {α : Type} (name : String) (write : α → Json) : Option α → List (String × Json)
  | none => []
  | some a => [(name, write a)]

/-- Free-form members as a value. -/
def Json.ofFreeForm (ms : Keyed Json) : Json := (Json.obj ms).withoutNonFinite

/-- A list of texts as a value. -/
def Json.ofTexts (l : List String) : Json := .arr (l.map .str)

namespace Schema

mutual

/-- The node as a value, with the fields that are set, in their order. -/
def toJson : Schema → Json
  | .node a ps i x =>
    .obj (("type", .str a.type) ::
      (Json.field "name" .str a.name ++ Json.field "arg" .str a.arg
        ++ Json.field "required" .bool a.required ++ Json.field "readOnly" .bool a.readOnly
        ++ propsToJson ps ++ itemToJson i
        ++ Json.field "format" Json.ofFreeForm a.format
        ++ Json.field "clientFlatten" .bool a.clientFlatten ++ additionalToJson x))

/-- The members as a field. -/
def propsToJson : Option (List Schema) → List (String × Json)
  | none => []
  | some ps => [("props", .arr (listToJson ps))]

/-- Nodes as values. -/
def listToJson : List Schema → List Json
  | [] => []
  | s :: r => toJson s :: listToJson r

/-- The item as a field. -/
def itemToJson : Option Schema → List (String × Json)
  | none => []
  | some s => [("item", toJson s)]

/-- The values of a free-form map as a field. -/
def additionalToJson : Option (Option Schema) → List (String × Json)
  | none => []
  | some i => [("additionalProps", .obj (itemToJson i))]

end

end Schema

end Restline
