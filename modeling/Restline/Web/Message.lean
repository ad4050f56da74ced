import Restline.Fault
import Restline.Json.Writer
import Restline.Json.Display
import Restline.Operation.Response
import Restline.Text.Case
import Restline.Web.Address
import Restline.Web.Base64

/-!
Messages on the web. A request has a method, an address, fields and perhaps a body; what comes back is a
response or a failure of the network.

The fields of a request are known by their names in lower case; fields that differ in letter case only
are joined. A body is one line of JSON, and a name and a password in the address make up the field that
authorizes the request.

* `WebRequest`, `WebOutcome` : a request and what became of it.
* `WebRequest.make` : the request for an address, query parameters, fields and a body.
-/

set_option autoImplicit false

namespace Restline

/-- A request as it is sent. -/
structure WebRequest where
  method : String
  address : String
  /-- The fields, by their names in lower case. -/
  fields : Keyed String
  body : Option String
deriving DecidableEq, Repr

/-- What became of a request that was sent. -/
inductive WebOutcome
  | reply (r : Reply)
  | failed (failure : TransportFailure) (message : String)

namespace WebRequest

/-! ### Query parameters -/

/-- The value of a query parameter as text. -/
def paramText : Json → String
  | .null => ""
  | .bool true => "true"
  | .bool false => "false"
  | j => j.display

/-- A query parameter, as often as its value has items. -/
def paramPairs : String × Json → List (String × String)
  | (name, .arr items) => items.map (fun j => (name, paramText j))
  | (name, j) => [(name, paramText j)]

/-- The query of an address; without parameters there is none. -/
def queryText (params : Keyed Json) : Option String :=
  if params.isEmpty then none else some (Web.Form.encode (params.flatMap paramPairs))

/-! ### Fields -/

/-- The text can stand in a field. -/
def isFieldText (s : String) : Bool := s.toList.all (·.toNat < 128)

/-- A field laid into others: one of the same name in lower case takes up the value. -/
def addField (fields : Keyed String) (name value : String) : Keyed String :=
  let name := Text.lowerAscii name
  match fields.get? name with
  | some before => fields.put name (before ++ ", " ++ value)
  | none => fields.put name value

/-- The fields by their names in lower case. -/
def joinFields (fields : Keyed String) : Except Crash (Keyed String) :=
  if fields.all (fun f => isFieldText f.1 && isFieldText f.2) then
    .ok (fields.foldl (fun fs f => addField fs f.1 f.2) [])
  else .error .unencodable

/-- The field that authorizes with a name and a password. -/
def basicValue (name password : List UInt8) : String :=
  "Basic " ++ Web.Base64.encode (name ++ ':'.toNat.toUInt8 :: password)

/-! ### Requests -/

/-- The body as one line. -/
def bodyText : Option Json → Except Crash (Option String)
  | none => .ok none
  | some j => if j.isFinite then .ok (some (j.write Json.compact)) else .error .badValue

/-- The address was not made. -/
def addressOr (a : Option Web.Address) : Except Crash Web.Address :=
  match a with
  | some a => .ok a
  | none => .error (.transport .invalidUrl)

/-- The request for a path below the address of a service. -/
def make (base : Web.Address) (method path : String) (params : Keyed Json) (fields : Keyed String)
    (body : Option Json) : Except Crash WebRequest := do
  let address ← addressOr (base.below? path)
  let address ← addressOr (address.withQuery? (queryText params))
  let fields ← joinFields fields
  let body ← bodyText body
  let fields := if body.isSome && !fields.has "content-type" then
    fields.put "content-type" "application/json" else fields
  let fields := match address.credentials? with
    | some (name, password) => fields.put "authorization" (basicValue name password)
    | none => fields
  return ⟨Text.upper method, address.toText, fields, body⟩

end WebRequest

end Restline
