import Restline.Operation.Body
import Restline.ResourceId

/-!
Requests. The path of a request comes from the template of its operation, with the bound arguments put
in for the placeholders, or from a full identifier; the query takes the fixed values, then the bound
ones, then the version asked for, each laid over those before; the body is a ready-made one or is built
from the schema.

* `ReadyRequest`, `Operation.request` : a request and how it is made.
* `Operation.pathOfId`, `Operation.pathOfBound`, `Operation.query`, `Operation.requestBody` : its parts.
* `Call` : a request as it is handed to a transport, with the version apart.
-/

set_option autoImplicit false

namespace Restline

/-! ### Requests -/

/-- A request that is ready to be sent, with a path below the endpoint of the service. -/
structure ReadyRequest where
  method : String
  path : String
  query : Keyed Json := []
  body : Option Json := none

/-- The name under which a query gives the version of the service. -/
def versionParam : String := "api-version"

/-- The version of the service that the request asks for. -/
def ReadyRequest.version (r : ReadyRequest) : Option String :=
  ((r.query.get? versionParam).bind Json.nonNull?).map Json.display

/-- A request in the parts that a transport takes. -/
structure Call where
  method : String
  path : String
  version : Option String
  body : Option Json
  query : Keyed Json

/-- The request in the parts that a transport takes. -/
def ReadyRequest.call (r : ReadyRequest) : Call :=
  ⟨r.method, r.path, r.version, r.body, r.query.erase versionParam⟩

/-! ### Failures -/

/-- Why a request cannot be made. -/
inductive RequestFault
  /-- The operation cannot be called. -/
  | notCallable (operationId : Option String)
  | mismatch (f : MismatchFault)
  | missingParam (name : String)
  | optionalParam (name : String)
  | body (f : BodyFault)
deriving DecidableEq, Repr

/-- The failure as it is told. -/
def RequestFault.report : RequestFault → Fault
  | .notCallable id =>
    { kind := .integrity
      message := "HTTP information not found for operation \"" ++ id.getD "" ++ "\"" }
  | .mismatch f => f.report
  | .missingParam name =>
    { kind := .missingParameter, message := "missing required path parameter: " ++ name }
  | .optionalParam name =>
    { kind := .unsupportedInput
      message := "optional path parameter \"" ++ name ++ "\" is not supported" }
  | .body f => f.report

namespace Operation

/-! ### Paths -/

/-- A placeholder as it stands in a template. -/
def placeholder (name : String) : String := "\x7b" ++ name ++ "\x7d"

/-- The path with the bound values put in for the placeholders, one after the other. -/
def fill (b : Bound) : List PathParam → String → Except RequestFault String
  | [], path => .ok path
  | p :: r, path =>
    match b.get? p.arg with
    -- a placeholder that such a value brings along is filled as well, if its turn comes later
    | some v => fill b r (Text.replaceAll (placeholder p.name) v.toText path)
    | none =>
      if p.required == some true then .error (.missingParam p.name)
      else .error (.optionalParam p.name)

/-- The path that the bound arguments give. -/
def pathOfBound (h : Http) (b : Bound) : Except RequestFault String :=
  fill b h.request.pathParams h.path

/-- The path that an identifier gives: itself, for POST followed by the action of the template. -/
def pathOfId (h : Http) (r : ResourceId) : Except RequestFault String := do
  (r.check h.path (some h.request.method)).mapError RequestFault.mismatch
  if h.request.method = "POST" then
    return r.text ++ "/" ++ Text.lastSegment '/' (Text.withoutTrailing '/' h.path)
  else return r.text

/-! ### Queries -/

/-- The fixed query parameters that have a value. -/
def constValues (consts : List QueryConst) : List (String × Json) :=
  consts.filterMap (fun q => (q.value?.bind Json.nonNull?).map (q.name, ·))

/-- The query parameters whose arguments are bound, as text. -/
def boundValues (b : Bound) (params : List QueryParam) : List (String × Json) :=
  params.filterMap (fun q => (b.get? q.arg).map (fun v => (q.name, Json.str v.toText)))

/-- The query: fixed values, then bound ones, then the version asked for. -/
def query (h : Http) (b : Bound) (version : Option String) : Keyed Json :=
  Keyed.ofPairs (constValues h.request.queryConsts ++ boundValues b h.request.queryParams
    ++ (version.map (fun v => (versionParam, Json.str v))).toList)

/-! ### Requests -/

/-- The body of the request: a ready-made one, or the one that the schema gives. -/
def requestBody (o : Operation) (b : Bound) (given : Option Json) : Except BodyFault (Option Json) :=
  if o.carriesBody then
    match given, o.bodySchema with
    -- a ready-made body is not held against the schema
    | some j, _ => .ok (some j)
    | none, some s => s.body b
    | none, none => .ok none
  else .ok none

/-- The request of the operation. -/
def request (o : Operation) (b : Bound) (r : Option ResourceId) (given : Option Json)
    (version : Option String) : Except RequestFault ReadyRequest :=
  match o.http with
  | none => .error (.notCallable o.operationId)
  | some h => do
    let path ← match r with
      | some r => pathOfId h r
      | none => pathOfBound h b
    let body ← (o.requestBody b given).mapError RequestFault.body
    return ⟨h.request.method, path, query h b version, body⟩

end Operation

end Restline
