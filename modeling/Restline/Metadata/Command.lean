import Restline.Metadata.Schema
import Restline.Text.Case
import Restline.Text.Quoted

/-!
Command documents: a command at one version of the service. A document holds the arguments of the
command in groups, the conditions that tell its operations apart, and the operations with their path,
query, body and responses.

A document is refused when no condition could select one of its operations, when an operation names a
condition that is not there, or when an object of a request body has neither an argument nor members.

* `Operator`, `Condition` : boolean expressions over which arguments are bound.
* `Operation`, `Command` : the document.
* `Command.flaw?` : the first broken rule.
* `Command.ofJson`, `Command.toJson` : reading and writing.
-/

set_option autoImplicit false

namespace Restline

/-! ### Arguments -/

/-- Help on an argument, a group or a command. -/
structure Help where
  short : Option String := none
  lines : Option (List String) := none

/-- An argument; `var` is the key of its value. -/
structure Arg where
  type : String
  var : String
  options : List String := []
  group : Option String := none
  help : Option Help := none
  required : Option Bool := none
  /-- The part of a resource's identity that the argument gives. -/
  idPart : Option String := none
  hide : Option Bool := none
  additional : Option (Option Schema) := none

/-- The argument is not offered on the command line. -/
def Arg.isHidden (a : Arg) : Bool := a.hide == some true

/-- The argument must be given. -/
def Arg.isRequired (a : Arg) : Bool := a.required == some true

/-- The argument is part of a resource's identity. -/
def Arg.isIdentity (a : Arg) : Bool := a.idPart.isSome

/-- The family of the argument's type. -/
def Arg.kind (a : Arg) : Kind := Kind.ofTag a.type

/-- A named group of arguments; the group without a name holds those of the resource's identity. -/
structure ArgGroup where
  name : String := ""
  args : List Arg := []

/-! ### Conditions -/

/-- A boolean expression over which arguments are bound. -/
inductive Operator
  | hasValue (arg : String)
  | not (operand : Operator)
  | all (operands : List Operator)
  | any (operands : List Operator)

/-- A named expression. -/
structure Condition where
  var : String
  operator : Operator

/-! ### Operations -/

/-- A placeholder of a path and the argument that fills it. -/
structure PathParam where
  type : String := "string"
  name : String
  arg : String
  required : Option Bool := none
  format : Option (Keyed Json) := none

/-- A query parameter with a fixed value. -/
structure QueryConst where
  name : String
  type : String := "string"
  required : Option Bool := none
  readOnly : Option Bool := none
  const : Option Bool := none
  /-- The value, inside a record that may be absent. -/
  default : Option (Option Json) := none

/-- The value of the parameter, if it has one that is not null. -/
def QueryConst.value? (q : QueryConst) : Option Json := q.default.join

/-- A query parameter with the value of an argument. -/
structure QueryParam where
  name : String
  arg : String
  type : String := "string"
  required : Option Bool := none

/-- The content of a body. -/
structure Body where
  schema : Option Schema := none
  var : Option String := none
  ref : Option String := none

/-- The request of an operation. -/
structure Request where
  method : String
  pathParams : List PathParam := []
  queryConsts : List QueryConst := []
  queryParams : List QueryParam := []
  body : Option Body := none

/-- A response that an operation declares. -/
structure Response where
  statusCodes : Option (List Int) := none
  body : Option Body := none
  isError : Option Bool := none

/-- How an operation is called. -/
structure Http where
  path : String
  request : Request
  responses : List Response := []

/-- One operation of a command. Without `http` it cannot be called. -/
structure Operation where
  operationId : Option String := none
  http : Option Http := none
  /-- The conditions that select the operation. -/
  tags : Option (List String) := none

namespace Operation

/-- The method, if the operation can be called. -/
def method (o : Operation) : Option String := o.http.map (·.request.method)

/-- The schema of the request body, if there is one. -/
def bodySchema (o : Operation) : Option Schema := do
  let h ← o.http
  let b ← h.request.body
  b.schema

/-- The methods whose requests have a body. -/
def bodyMethods : List String := ["PUT", "PATCH", "POST"]

/-- The operation's request has a body. -/
def carriesBody (o : Operation) : Bool := o.method.any bodyMethods.contains

/-- The conditions that select the operation, none if it names none. -/
def when (o : Operation) : List String := o.tags.getD []

end Operation

/-! ### Commands -/

/-- Where a resource lives. -/
inductive Plane
  | management
  | data
deriving DecidableEq, Repr

/-- The word for a plane. -/
def Plane.word : Plane → String
  | .management => "mgmt-plane"
  | .data => "data-plane"

/-- A resource that a command works on. -/
structure Resource where
  id : String
  plane : Plane := .management

/-- What a command prints; members of any other name are kept. -/
structure Output where
  type : Option String := none
  ref : Option String := none
  clientFlatten : Option Bool := none
  extra : Keyed Json := []

/-- A command at one version. -/
structure Command where
  argGroups : List ArgGroup := []
  conditions : Option (List Condition) := none
  operations : List Operation := []
  outputs : Option (List Output) := none
  resources : List Resource := []

namespace Command

/-- The first group without a name. -/
def identityGroup (c : Command) : Option ArgGroup := c.argGroups.find? (fun g => g.name == "")

/-- The groups with a name. -/
def namedGroups (c : Command) : List ArgGroup := c.argGroups.filter (fun g => g.name != "")

/-- Some operation has a request body. -/
def hasRequestBody (c : Command) : Bool := c.operations.any (fun o => o.bodySchema.isSome)

/-- All arguments, those of groups without a name first. -/
def args (c : Command) : List Arg :=
  (c.argGroups.filter (fun g => g.name == "") ++ c.namedGroups).flatMap (·.args)

/-! ### Rules -/

/-- The name of an operation as a message shows it. -/
def shownId (o : Operation) : String :=
  match o.operationId with
  | none => "None"
  | some id => Text.quoted id

/-- What is wrong with an operation's tags, given the names of the conditions. -/
def tagFlaw? (known : List String) (o : Operation) : Option String :=
  match o.when with
  | [] =>
    some ("operation " ++ shownId o ++ " has no \"when\" tag, so no condition can select it")
  | tags =>
    (tags.find? (fun t => !known.contains t)).map
      (fun t => "operation " ++ shownId o ++ " refers to unknown condition " ++ Text.quoted t)

/-- The node is an object that can be built neither from an argument nor from members. -/
def isHollow (s : Schema) : Bool := s.kind == .object && s.arg.isNone && s.props.isNone

/-- What is wrong with the objects of an operation's body. -/
def bodyFlaw? (o : Operation) : Option String := do
  let s ← o.bodySchema
  let n ← s.walk.find? isHollow
  let name := match n.name with
    | none | some "" => "<root>"
    | some name => name
  return "object schema " ++ Text.quoted name ++ " of operation " ++ shownId o
    ++ " lacks both \"arg\" and \"props\""

/-- The first broken rule, those on tags before those on bodies. -/
def flaw? (c : Command) : Option String :=
  let tags := match c.conditions with
    | none => none
    | some cs => c.operations.findSome? (tagFlaw? (cs.map Condition.var))
  tags.or (c.operations.findSome? bodyFlaw?)

end Command

/-! ### Reading -/

section Reading

open Checked (text bool int listOf mapOf record)

/-- Reads help. -/
def Help.ofJson : Json → Checked Help :=
  record fun ms =>
    ((Checked.valid Help.mk).and
      (optionalField ms (.plain "short") text)).and
      (optionalField ms (.plain "lines") (listOf text))

/-- Reads an argument. -/
def Arg.ofJson : Json → Checked Arg :=
  record fun ms =>
    (((((((((Checked.valid Arg.mk).and
      (requiredField ms (.plain "type") text)).and
      (requiredField ms (.plain "var") text)).and
      (fieldOr ms (.plain "options") [] (listOf text))).and
      (optionalField ms (.plain "group") text)).and
      (optionalField ms (.plain "help") Help.ofJson)).and
      (optionalField ms (.plain "required") bool)).and
      (optionalField ms ⟨"idPart", "id_part"⟩ text)).and
      (optionalField ms (.plain "hide") bool)).and
      (optionalField ms ⟨"additionalProps", "additional_props"⟩ Schema.readMapValues)

/-- Reads a group of arguments. -/
def ArgGroup.ofJson : Json → Checked ArgGroup :=
  record fun ms =>
    ((Checked.valid ArgGroup.mk).and
      (fieldOr ms (.plain "name") "" text)).and
      (fieldOr ms (.plain "args") [] (listOf Arg.ofJson))

/-- Two or more operands. -/
def twoOrMore (ops : List Operator) : Checked (List Operator) :=
  if ops.length < 2 then .flaw .tooFewItems else .valid ops

/-- Reads an expression that may have `depth` levels. The word in `type` says which kind it is, and
issues inside it are placed under that word. -/
def Operator.readAt : Nat → Json → Checked Operator
  | 0, _ => .flaw .nestedTooDeep
  | depth + 1, j =>
    match j with
    | .obj ms =>
      match Keyed.get? ms "type" with
      | none => .flaw .noTag
      | some (.str "hasValue") =>
        ((requiredField ms (.plain "arg") text).map Operator.hasValue).under (.name "hasValue")
      | some (.str "not") =>
        ((requiredField ms (.plain "operator") (readAt depth)).map Operator.not).under (.name "not")
      | some (.str "and") =>
        ((requiredField ms (.plain "operators") fun j => (listOf (readAt depth) j).andThen twoOrMore).map
          Operator.all).under (.name "and")
      | some (.str "or") =>
        ((requiredField ms (.plain "operators") fun j => (listOf (readAt depth) j).andThen twoOrMore).map
          Operator.any).under (.name "or")
      | some _ => .flaw .unknownTag
    | _ => .flaw .notTagged

/-- Reads an expression. -/
def Operator.ofJson (j : Json) : Checked Operator := Operator.readAt Schema.maxDepth j

/-- Reads a condition. -/
def Condition.ofJson : Json → Checked Condition :=
  record fun ms =>
    ((Checked.valid Condition.mk).and
      (requiredField ms (.plain "var") text)).and
      (requiredField ms (.plain "operator") Operator.ofJson)

/-- Reads a placeholder of a path. -/
def PathParam.ofJson : Json → Checked PathParam :=
  record fun ms =>
    (((((Checked.valid PathParam.mk).and
      (fieldOr ms (.plain "type") "string" text)).and
      (requiredField ms (.plain "name") text)).and
      (requiredField ms (.plain "arg") text)).and
      (optionalField ms (.plain "required") bool)).and
      (optionalField ms (.plain "format") (mapOf Checked.any))

/-- Reads the value of a query parameter. -/
def readConstValue : Json → Checked (Option Json) :=
  record fun ms => optionalField ms (.plain "value") Checked.any

/-- Reads a query parameter with a fixed value. -/
def QueryConst.ofJson : Json → Checked QueryConst :=
  record fun ms =>
    ((((((Checked.valid QueryConst.mk).and
      (requiredField ms (.plain "name") text)).and
      (fieldOr ms (.plain "type") "string" text)).and
      (optionalField ms (.plain "required") bool)).and
      (optionalField ms ⟨"readOnly", "read_only"⟩ bool)).and
      (optionalField ms (.plain "const") bool)).and
      (optionalField ms (.plain "default") readConstValue)

/-- Reads a query parameter with the value of an argument. -/
def QueryParam.ofJson : Json → Checked QueryParam :=
  record fun ms =>
    ((((Checked.valid QueryParam.mk).and
      (requiredField ms (.plain "name") text)).and
      (requiredField ms (.plain "arg") text)).and
      (fieldOr ms (.plain "type") "string" text)).and
      (optionalField ms (.plain "required") bool)

/-- Reads the content of a body. -/
def Body.readContent : Json → Checked Body :=
  record fun ms =>
    (((Checked.valid Body.mk).and
      (optionalField ms ⟨"schema", "schema_"⟩ Schema.ofJson)).and
      (optionalField ms (.plain "var") text)).and
      (optionalField ms (.plain "ref") text)

/-- Reads a body. -/
def Body.ofJson : Json → Checked Body :=
  record fun ms => requiredField ms ⟨"json", "json_"⟩ Body.readContent

/-- Reads the placeholders of a path. -/
def readPathParams : Json → Checked (List PathParam) :=
  record fun ms => fieldOr ms (.plain "params") [] (listOf PathParam.ofJson)

/-- Reads the query parameters, fixed ones and others. -/
def readQuery : Json → Checked (List QueryConst × List QueryParam) :=
  record fun ms =>
    ((Checked.valid Prod.mk).and
      (fieldOr ms (.plain "consts") [] (listOf QueryConst.ofJson))).and
      (fieldOr ms (.plain "params") [] (listOf QueryParam.ofJson))

/-- Reads a request. The method is kept in upper case. -/
def Request.ofJson : Json → Checked Request :=
  record fun ms =>
    ((((Checked.valid fun method path query body =>
        Request.mk (Text.upper method) path query.1 query.2 body).and
      (requiredField ms (.plain "method") text)).and
      (fieldOr ms (.plain "path") [] readPathParams)).and
      (fieldOr ms (.plain "query") ([], []) readQuery)).and
      (optionalField ms (.plain "body") Body.ofJson)

/-- Reads a response. -/
def Response.ofJson : Json → Checked Response :=
  record fun ms =>
    (((Checked.valid Response.mk).and
      (optionalField ms ⟨"statusCode", "status_code"⟩ (listOf int))).and
      (optionalField ms (.plain "body") Body.ofJson)).and
      (optionalField ms ⟨"isError", "is_error"⟩ bool)

/-- Reads how an operation is called. -/
def Http.ofJson : Json → Checked Http :=
  record fun ms =>
    (((Checked.valid Http.mk).and
      (requiredField ms (.plain "path") text)).and
      (requiredField ms (.plain "request") Request.ofJson)).and
      (fieldOr ms (.plain "responses") [] (listOf Response.ofJson))

/-- Reads an operation. -/
def Operation.ofJson : Json → Checked Operation :=
  record fun ms =>
    (((Checked.valid Operation.mk).and
      (optionalField ms ⟨"operationId", "operation_id"⟩ text)).and
      (optionalField ms (.plain "http") Http.ofJson)).and
      (optionalField ms (.plain "when") (listOf text))

/-- Reads a plane. -/
def Plane.ofJson : Json → Checked Plane
  | .str "mgmt-plane" => .valid .management
  | .str "data-plane" => .valid .data
  | _ => .flaw .notOneOf

/-- Reads a resource. -/
def Resource.ofJson : Json → Checked Resource :=
  record fun ms =>
    ((Checked.valid Resource.mk).and
      (requiredField ms (.plain "id") text)).and
      (fieldOr ms (.plain "plane") .management Plane.ofJson)

/-- The fields of an output that have a meaning. -/
def Output.fields : List Field := [.plain "type", .plain "ref", ⟨"clientFlatten", "client_flatten"⟩]

/-- Reads an output. -/
def Output.ofJson : Json → Checked Output :=
  record fun ms =>
    (((Checked.valid fun type ref cf => Output.mk type ref cf (unclaimed ms Output.fields)).and
      (optionalField ms (.plain "type") text)).and
      (optionalField ms (.plain "ref") text)).and
      (optionalField ms ⟨"clientFlatten", "client_flatten"⟩ bool)

/-- Reads a document without regard to its rules. -/
def Command.readFields : Json → Checked Command :=
  record fun ms =>
    (((((Checked.valid Command.mk).and
      (fieldOr ms ⟨"argGroups", "arg_groups"⟩ [] (listOf ArgGroup.ofJson))).and
      (optionalField ms (.plain "conditions") (listOf Condition.ofJson))).and
      (fieldOr ms (.plain "operations") [] (listOf Operation.ofJson))).and
      (optionalField ms (.plain "outputs") (listOf Output.ofJson))).and
      (fieldOr ms (.plain "resources") [] (listOf Resource.ofJson))

/-- Reads a document; its rules are looked at when all fields fit. -/
def Command.ofJson (j : Json) : Checked Command :=
  (Command.readFields j).andThen fun c =>
    match c.flaw? with
    | none => .valid c
    | some message => .flaw (.rule message)

end Reading

/-! ### Writing -/

section Writing

open Json (field ofTexts ofFreeForm)

/-- Help as a value. -/
def Help.toJson (h : Help) : Json :=
  .obj (field "short" .str h.short ++ field "lines" ofTexts h.lines)

/-- An argument as a value. -/
def Arg.toJson (a : Arg) : Json :=
  .obj ([("type", .str a.type), ("var", .str a.var), ("options", ofTexts a.options)]
    ++ field "group" .str a.group ++ field "help" Help.toJson a.help
    ++ field "required" .bool a.required ++ field "idPart" .str a.idPart ++ field "hide" .bool a.hide
    ++ Schema.additionalToJson a.additional)

/-- A group of arguments as a value. -/
def ArgGroup.toJson (g : ArgGroup) : Json :=
  .obj [("name", .str g.name), ("args", .arr (g.args.map Arg.toJson))]

mutual

/-- An expression as a value. -/
def Operator.toJson : Operator → Json
  | .hasValue arg => .obj [("type", .str "hasValue"), ("arg", .str arg)]
  | .not o => .obj [("type", .str "not"), ("operator", o.toJson)]
  | .all os => .obj [("type", .str "and"), ("operators", .arr (Operator.listToJson os))]
  | .any os => .obj [("type", .str "or"), ("operators", .arr (Operator.listToJson os))]

/-- Expressions as values. -/
def Operator.listToJson : List Operator → List Json
  | [] => []
  | o :: r => o.toJson :: Operator.listToJson r

end

/-- A condition as a value. -/
def Condition.toJson (c : Condition) : Json :=
  .obj [("var", .str c.var), ("operator", c.operator.toJson)]

/-- A placeholder of a path as a value. -/
def PathParam.toJson (p : PathParam) : Json :=
  .obj ([("type", .str p.type), ("name", .str p.name), ("arg", .str p.arg)]
    ++ field "required" .bool p.required ++ field "format" ofFreeForm p.format)

/-- A query parameter with a fixed value as a value. -/
def QueryConst.toJson (q : QueryConst) : Json :=
  .obj ([("name", .str q.name), ("type", .str q.type)]
    ++ field "required" .bool q.required ++ field "readOnly" .bool q.readOnly
    ++ field "const" .bool q.const
    ++ field "default" (fun v => .obj (field "value" Json.withoutNonFinite v)) q.default)

/-- A query parameter with the value of an argument as a value. -/
def QueryParam.toJson (q : QueryParam) : Json :=
  .obj ([("name", .str q.name), ("arg", .str q.arg), ("type", .str q.type)]
    ++ field "required" .bool q.required)

/-- A body as a value. -/
def Body.toJson (b : Body) : Json :=
  .obj [("json", .obj (field "schema" Schema.toJson b.schema ++ field "var" .str b.var
    ++ field "ref" .str b.ref))]

/-- A request as a value. -/
def Request.toJson (r : Request) : Json :=
  .obj ([("method", .str r.method),
      ("path", .obj [("params", .arr (r.pathParams.map PathParam.toJson))]),
      ("query", .obj [("consts", .arr (r.queryConsts.map QueryConst.toJson)),
        ("params", .arr (r.queryParams.map QueryParam.toJson))])]
    ++ field "body" Body.toJson r.body)

/-- A response as a value. -/
def Response.toJson (r : Response) : Json :=
  .obj (field "statusCode" (fun l => .arr (l.map .int)) r.statusCodes
    ++ field "body" Body.toJson r.body ++ field "isError" .bool r.isError)

/-- How an operation is called, as a value. -/
def Http.toJson (h : Http) : Json :=
  .obj [("path", .str h.path), ("request", h.request.toJson),
    ("responses", .arr (h.responses.map Response.toJson))]

/-- An operation as a value. -/
def Operation.toJson (o : Operation) : Json :=
  .obj (field "operationId" .str o.operationId ++ field "http" Http.toJson o.http
    ++ field "when" ofTexts o.tags)

/-- A resource as a value. -/
def Resource.toJson (r : Resource) : Json :=
  .obj [("id", .str r.id), ("plane", .str r.plane.word)]

/-- An output as a value, without the members that are null. -/
def Output.toJson (o : Output) : Json :=
  .obj (field "type" .str o.type ++ field "ref" .str o.ref
    ++ field "clientFlatten" .bool o.clientFlatten
    ++ (o.extra.filter (fun m => match m.2 with | .null => false | _ => true)).map
      (fun m => (m.1, m.2.withoutNonFinite)))

/-- A document as a value. -/
def Command.toJson (c : Command) : Json :=
  .obj ([("argGroups", .arr (c.argGroups.map ArgGroup.toJson))]
    ++ field "conditions" (fun l => .arr (l.map Condition.toJson)) c.conditions
    ++ [("operations", .arr (c.operations.map Operation.toJson))]
    ++ field "outputs" (fun l => .arr (l.map Output.toJson)) c.outputs
    ++ [("resources", .arr (c.resources.map Resource.toJson))])

end Writing

end Restline
