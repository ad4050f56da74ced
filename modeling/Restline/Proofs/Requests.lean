import Restline.Operation.Request
import Restline.Proofs.Results

/-!
Requests that are made. A request is made when the operation can be called, its path is there and its
body can be built.

* `Operation.pathOfId_eq_ok_iff` : the path that an identifier gives.
* `Operation.request_eq_ok_iff` : **when a request is made, and which**.
* `Operation.operationOf`, `Operation.documentOf` : operations with nothing but placeholders.
-/

set_option autoImplicit false

namespace Restline

namespace Operation

/-! ### Paths -/

/-- The path that an identifier gives. -/
theorem pathOfId_eq_ok_iff {h : Http} {r : ResourceId} {path : String} :
    pathOfId h r = .ok path ↔
      r.check h.path (some h.request.method) = .ok () ∧
        (if h.request.method = "POST" then
            r.text ++ "/" ++ Text.lastSegment '/' (Text.withoutTrailing '/' h.path)
          else r.text) = path := by
  rw [pathOfId]
  cases r.check h.path (some h.request.method) with
  | error e => simp
  | ok u => by_cases hm : h.request.method = "POST" <;> simp [hm]

/-! ### Requests -/

/-- **When a request is made, and which.** -/
theorem request_eq_ok_iff {o : Operation} {b : Bound} {r : Option ResourceId} {given : Option Json}
    {version : Option String} {q : ReadyRequest} :
    o.request b r given version = .ok q ↔
      ∃ h path body, o.http = some h ∧
        (match r with
          | some r => pathOfId h r
          | none => pathOfBound h b) = .ok path ∧
        o.requestBody b given = .ok body ∧ ⟨h.request.method, path, query h b version, body⟩ = q := by
  cases hh : o.http with
  | none => simp [request, hh]
  | some h =>
      cases r <;>
        simp only [request, hh, Except.bind_eq_ok_iff, Except.mapError_eq_ok_iff, Except.pure_eq_ok,
          Except.ok.injEq, Option.some.injEq, exists_and_left, exists_eq_left']

theorem http_of_request {o : Operation} {b : Bound} {r : Option ResourceId} {given : Option Json}
    {version : Option String} {q : ReadyRequest} (h : o.request b r given version = .ok q) :
    ∃ http, o.http = some http := by
  obtain ⟨http, -, -, hh, -⟩ := request_eq_ok_iff.1 h
  exact ⟨http, hh⟩

/-! ### Operations with placeholders only -/

/-- A call with a method, a template and the names of its placeholders, each with an argument. -/
def callOf (method template : String) (params : List (String × String)) : Http where
  path := template
  request := { method, pathParams := params.map fun p => { name := p.1, arg := p.2 } }

/-- An operation with the call. -/
def operationOf (method template : String) (params : List (String × String)) : Operation where
  http := some (callOf method template params)

/-- A document of the operation. -/
def documentOf (method template : String) (params : List (String × String)) : Json :=
  .obj [("http", .obj [("path", .str template),
    ("request", .obj [("method", .str method),
      ("path", .obj [("params", .arr (params.map fun p =>
        .obj [("name", .str p.1), ("arg", .str p.2)]))])])])]

/-- Such a call has no query and no body. -/
theorem request_operationOf {method template path : String} {params : List (String × String)} {b : Bound}
    {r : Option ResourceId}
    (hpath : (match r with
      | some r => pathOfId (callOf method template params) r
      | none => pathOfBound (callOf method template params) b) = .ok path) :
    (operationOf method template params).request b r none none = .ok ⟨method, path, [], none⟩ := by
  refine request_eq_ok_iff.2 ⟨_, path, none, rfl, hpath, ?_, rfl⟩
  unfold requestBody
  split
  · rfl
  · rfl

end Operation

end Restline
