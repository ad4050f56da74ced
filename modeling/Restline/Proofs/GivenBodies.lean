import Restline.Proofs.BuiltMembers
import Restline.Proofs.Preview
import Restline.Proofs.Requests

/-!
Bodies that are given. The payload of a file or of the editor becomes the body of the request as it is,
whatever arguments are bound; only null does not, which counts as no payload, so that the body is built from
the schema.

* `Schema.GivesNothing`, `Schema.body_eq_none_iff` : when a schema builds no body.
* `ReadyRequest.content` : the body of a request, null when it has none.
* `Invocation.plan_eq_request_iff` : the request that an invocation plans.
* `Invocation.HasPayload`, `Invocation.given_verbatim_iff` : **when a payload becomes the body as it is**.
-/

set_option autoImplicit false

namespace Restline

/-! ### Null -/

theorem Json.nonNull?_null : Json.null.nonNull? = none := rfl

theorem Json.nonNull?_of_ne {j : Json} (h : j ≠ .null) : j.nonNull? = some j := by
  cases j with
  | null => exact absurd rfl h
  | _ => rfl

theorem Json.nonNull?_eq_none_iff {j : Json} : j.nonNull? = none ↔ j = .null := by
  cases j <;> simp [Json.nonNull?]

/-! ### Bodies that are not built -/

namespace Schema

/-- The bound arguments give the schema no value: it takes that of an argument, which is not bound, or is
bound to null. -/
def GivesNothing (b : Bound) (s : Schema) : Prop :=
  ∃ arg, s.arg = some arg ∧ ∀ v, b.get? arg = some v → v.toJson arg s.kind = .ok .null

/-- A body without an argument is built from members, or cannot be built. -/
theorem body_ne_none_of_arg {b : Bound} {s : Schema} (harg : s.arg = none) : s.body b ≠ .ok none := by
  intro hbody
  rw [body, harg] at hbody
  cases s with
  | node a ps item additional =>
      have ha : a.arg = none := harg
      cases ps with
      | some ps =>
          obtain ⟨ms, -, hms⟩ := Except.map_eq_ok_iff.1 hbody
          cases hms
      | none =>
          obtain ⟨v, hv, -⟩ := Except.map_eq_ok_iff.1 hbody
          rw [build, ha] at hv
          cases hkind : Kind.ofTag a.type <;> rw [hkind] at hv <;> cases hv

/-- **When no body is built.** -/
theorem body_eq_none_iff {b : Bound} {s : Schema} : s.body b = .ok none ↔ s.GivesNothing b := by
  cases harg : s.arg with
  | none => exact iff_of_false (body_ne_none_of_arg harg) (by simp [GivesNothing, harg])
  | some arg =>
      have hnothing : s.GivesNothing b ↔ ∀ v, b.get? arg = some v → v.toJson arg s.kind = .ok .null := by
        simp [GivesNothing, harg]
      rw [body_of_arg harg, hnothing, argValue]
      cases b.get? arg with
      | none => simp [Except.map]
      | some v =>
          cases hread : v.toJson arg s.kind with
          | error f => simp [Except.map, hread]
          | ok j => simp [Except.map, hread, Json.nonNull?_eq_none_iff]

/-- A body that is built is not null. -/
theorem body_ne_some_null {b : Bound} {s : Schema} : s.body b ≠ .ok (some .null) := by
  intro hbody
  rw [body] at hbody
  split at hbody
  · obtain ⟨ms, -, hms⟩ := Except.map_eq_ok_iff.1 hbody
    cases hms
  · obtain ⟨v, -, hv⟩ := Except.map_eq_ok_iff.1 hbody
    obtain ⟨j, -, hj⟩ := Option.bind_eq_some_iff.1 hv
    cases j <;> cases hj

end Schema

/-! ### Requests with a given body -/

/-- The body of a request. One without a body and one whose body is null are the same. -/
def ReadyRequest.content (q : ReadyRequest) : Json := q.body.getD .null

namespace Operation

variable {o : Operation} {b : Bound} {body : Option Json} {v : Json}

theorem requestBody_some (hcarries : o.carriesBody = true) : o.requestBody b (some v) = .ok (some v) := by
  rw [requestBody, if_pos hcarries]

/-- Without a payload the body is what the schema gives. -/
theorem requestBody_none_eq_ok_iff (hcarries : o.carriesBody = true) :
    o.requestBody b none = .ok body ↔
      (∃ s, o.bodySchema = some s ∧ s.body b = .ok body) ∨ (o.bodySchema = none ∧ body = none) := by
  simp only [requestBody, if_pos hcarries]
  cases o.bodySchema with
  | none => simp [eq_comm]
  | some s => simp

/-- A payload is the content of the request, unless it is null and the schema gives something. -/
theorem content_eq_iff (hcarries : o.carriesBody = true) (hbody : o.requestBody b v.nonNull? = .ok body) :
    body.getD .null = v ↔ v ≠ .null ∨ ∀ s, o.bodySchema = some s → s.GivesNothing b := by
  by_cases hnull : v = .null
  · subst hnull
    rw [Json.nonNull?_null, requestBody_none_eq_ok_iff hcarries] at hbody
    rw [or_iff_right (not_not.2 rfl)]
    rcases hbody with ⟨s, hschema, hs⟩ | ⟨hschema, rfl⟩
    · have hone : (∀ s', o.bodySchema = some s' → s'.GivesNothing b) ↔ s.GivesNothing b := by
        simp [hschema]
      rw [hone, ← Schema.body_eq_none_iff, hs]
      cases body with
      | none => simp
      | some j =>
          have hj : j ≠ .null := fun hj => Schema.body_ne_some_null (hj ▸ hs)
          simp [hj]
    · simp [hschema]
  · rw [Json.nonNull?_of_ne hnull, requestBody_some hcarries] at hbody
    obtain rfl := Except.ok.inj hbody
    exact iff_of_true rfl (.inl hnull)

end Operation

/-! ### Invocations with a payload -/

namespace Invocation

variable {i : Invocation} {s : Sources} {v : Json} {b : Bound} {o : Operation} {q : ReadyRequest}

/-- The text of the payload: that of the file, or else what was written in the editor. -/
def payloadText (i : Invocation) (s : Sources) : Except Fault String :=
  match i.file with
  | some path => s.readFile path
  | none => s.composed

/-- The invocation is for one request, is to render nothing, and has a payload that reads as the value. -/
structure HasPayload (i : Invocation) (s : Sources) (v : Json) : Prop where
  asked : i.file.isSome = true ∨ i.edit = true
  single : i.stdin = false
  shell : i.shell = .ok none
  reads : ∃ text, i.payloadText s = .ok text ∧ Json.read text = .ok v

/-- With these arguments the invocation selects the operation and builds the request. -/
def Builds (i : Invocation) (s : Sources) (b : Bound) (o : Operation) (q : ReadyRequest) : Prop :=
  ({ i with bound := b }).plan none s = .ok (.request o q)

/-- The invocation without its payload. -/
def withoutPayload (i : Invocation) : Invocation := { i with file := none, edit := false }

/-- The payload as it is taken: null is none. -/
theorem HasPayload.givenBody (h : i.HasPayload s v) : i.givenBody s = .ok v.nonNull? := by
  obtain ⟨text, htext, hread⟩ := h.reads
  have hpayload : payload text = .ok v.nonNull? := by rw [payload, hread]
  rw [Invocation.givenBody]
  rw [payloadText] at htext
  cases hfile : i.file with
  | some path =>
      rw [hfile] at htext
      simp only [htext, Except.bind, hpayload]
  | none =>
      have hedit : i.edit = true := h.asked.resolve_left (by simp [hfile])
      rw [hfile] at htext
      simp only [hedit, if_true, htext, Except.bind, hpayload]

/-- The body of the one request is the payload, if the operation carries one. -/
theorem singleRequest_eq (i : Invocation) (s : Sources) :
    i.singleRequest s = i.identifier s >>= fun r =>
      (i.command.select i.bound r).mapError SelectFault.report >>= fun o =>
        (if o.carriesBody then i.givenBody s else .ok none) >>= fun body =>
          i.command.prepare i.bound r body i.apiVersion := by
  rw [singleRequest]
  congr 1
  funext r
  congr 1
  funext o
  cases o.carriesBody <;> rfl

/-- **The request that an invocation plans**: its identifier and arguments select the operation, whose request
is built with the payload if it carries one. -/
theorem plan_eq_request_iff :
    i.plan none s = .ok (.request o q) ↔ ∃ r body, i.identifier s = .ok r ∧
      i.command.select i.bound r = .ok o ∧ (if o.carriesBody then i.givenBody s else .ok none) = .ok body ∧
      o.request i.bound r body i.apiVersion = .ok q := by
  rw [plan_none, singleRequest_eq]
  simp only [Command.prepare, Except.bind_eq_ok_iff, Except.mapError_eq_ok_iff, Except.pure_eq_ok,
    Except.ok.injEq]
  constructor
  · rintro ⟨p, ⟨r, hr, o', ho', body, hbody, o'', ho'', q', hq', rfl⟩, heq⟩
    -- the operation is selected twice, with the same outcome
    obtain rfl := Except.ok.inj (ho'.symm.trans ho'')
    obtain ⟨rfl, rfl⟩ := Plan.request.inj heq
    exact ⟨r, body, hr, ho', hbody, hq'⟩
  · rintro ⟨r, body, hr, ho, hbody, hq⟩
    exact ⟨(o, q), ⟨r, hr, o, ho, body, hbody, o, ho, q, hq, rfl⟩, rfl⟩

/-- The request that is built with the payload. -/
theorem HasPayload.builds_iff (h : i.HasPayload s v) (hcarries : o.carriesBody = true) :
    i.Builds s b o q ↔ ∃ r, i.identifier s = .ok r ∧ i.command.select b r = .ok o ∧
      o.request b r v.nonNull? i.apiVersion = .ok q := by
  have hgiven : ({ i with bound := b }).givenBody s = .ok v.nonNull? := h.givenBody
  rw [Builds, plan_eq_request_iff, if_pos hcarries, hgiven]
  constructor
  · rintro ⟨r, body, hr, ho, hbody, hq⟩
    obtain rfl := Except.ok.inj hbody
    exact ⟨r, hr, ho, hq⟩
  · rintro ⟨r, hr, ho, hq⟩
    exact ⟨r, _, hr, ho, rfl, hq⟩

/-- The content of a request that is built with the payload. -/
theorem HasPayload.content_iff (h : i.HasPayload s v) (hcarries : o.carriesBody = true)
    (hbuilds : i.Builds s b o q) :
    q.content = v ↔ v ≠ .null ∨ ∀ sc, o.bodySchema = some sc → sc.GivesNothing b := by
  obtain ⟨r, -, -, hq⟩ := (h.builds_iff hcarries).1 hbuilds
  obtain ⟨http, path, body, -, -, hbody, rfl⟩ := Operation.request_eq_ok_iff.1 hq
  exact Operation.content_eq_iff hcarries hbody

/-- Without its payload an invocation builds what it builds with null. -/
theorem withoutPayload_builds_iff (hcarries : o.carriesBody = true) :
    i.withoutPayload.Builds s b o q ↔ ∃ r, i.identifier s = .ok r ∧ i.command.select b r = .ok o ∧
      o.request b r none i.apiVersion = .ok q := by
  rw [Builds, plan_eq_request_iff, if_pos hcarries]
  constructor
  · rintro ⟨r, body, hr, ho, hbody, hq⟩
    obtain rfl := Except.ok.inj hbody
    exact ⟨r, hr, ho, hq⟩
  · rintro ⟨r, hr, ho, hq⟩
    exact ⟨r, none, hr, ho, rfl, hq⟩

/-- A preview shows the one request that is planned. -/
theorem exec_run_preview_iff (hshell : i.shell = .ok none) (hsingle : i.stdin = false)
    (w : Option (Transport (StateM Trace))) (t : Trace) :
    Recorded.exec (i.run w (some Trace.preview) s) t = (.ok none, { t with previews := t.previews ++ [q] }) ↔
      ∃ o, i.plan none s = .ok (.request o q) := by
  have hrequests : i.requests s = [i.singleRequest s] := by simp [requests, hsingle]
  rw [run_eq_mapM hshell, Recorded.exec_bind_pure, exec_mapM_preview, hrequests, plan_none]
  cases i.singleRequest s with
  | error e => simp [Except.map]
  | ok p => simp [Except.map, made]

/-- The payload is the body as it is, and the same whatever arguments are bound. -/
structure TakesVerbatim (i : Invocation) (s : Sources) (v : Json) (o : Operation) : Prop where
  content : ∀ b q, i.Builds s b o q → q.content = v
  same : ∀ b b' q q', i.Builds s b o q → i.Builds s b' o q' → q.content = q'.content

/-- **When a payload becomes the body as it is**, for all bound arguments that select the operation and build
a request: always, unless the payload is null and the schema of the body gives something. Null is taken for
no payload: the request is then the one that is built without. A preview shows the request that is meant. -/
theorem given_verbatim_iff (h : i.HasPayload s v) (hcarries : o.carriesBody = true) :
    (i.TakesVerbatim s v o ↔
        v ≠ .null ∨ ∀ b q, i.Builds s b o q → ∀ sc, o.bodySchema = some sc → sc.GivesNothing b) ∧
      (v ≠ .null → ∀ b q, i.Builds s b o q → q.body = some v) ∧
      (v = .null → ∀ b q, i.Builds s b o q ↔ i.withoutPayload.Builds s b o q) ∧
      ∀ b q w t, Recorded.exec (({ i with bound := b }).run w (some Trace.preview) s) t =
          (.ok none, { t with previews := t.previews ++ [q] }) ↔ ∃ o, i.Builds s b o q := by
  refine ⟨⟨fun htakes => ?_, fun hwhen => ?_⟩, fun hv b q hbuilds => ?_, fun hv b q => ?_, fun b q w t => ?_⟩
  · rw [or_iff_not_imp_left, not_not]
    intro hv b q hbuilds
    have hcontent := (h.content_iff hcarries hbuilds).1 (htakes.content b q hbuilds)
    exact hcontent.resolve_left (not_not.2 hv)
  · have hcontent : ∀ b q, i.Builds s b o q → q.content = v := fun b q hbuilds =>
      (h.content_iff hcarries hbuilds).2 (hwhen.imp_right fun hnothing => hnothing b q hbuilds)
    exact ⟨hcontent, fun b b' q q' hq hq' => (hcontent b q hq).trans (hcontent b' q' hq').symm⟩
  · obtain ⟨r, -, -, hq⟩ := (h.builds_iff hcarries).1 hbuilds
    obtain ⟨http, path, body, -, -, hbody, rfl⟩ := Operation.request_eq_ok_iff.1 hq
    rw [Json.nonNull?_of_ne hv, Operation.requestBody_some hcarries] at hbody
    exact (Except.ok.inj hbody).symm
  · rw [h.builds_iff hcarries, withoutPayload_builds_iff hcarries, hv, Json.nonNull?_null]
  · have hshell : ({ i with bound := b } : Invocation).shell = .ok none := h.shell
    exact exec_run_preview_iff hshell h.single w t

/-! ### A thing that is put -/

/-- An object whose location is an argument. -/
def placeSchema : Schema :=
  .node { type := "object" }
    (some [.node { type := "string", name := some "location", arg := some "$location" } none none none])
    none none

/-- Puts such an object. -/
def putPlace : Operation where
  operationId := some "Things_Put"
  http := some
    { path := "/things", request := { method := "PUT", body := some { schema := some placeSchema } } }

/-- The thing is written in an editor. -/
def editedPlace : Invocation where
  location := ⟨["thing", "put"], "1", {}⟩
  command := { operations := [putPlace] }
  edit := true

/-- What was saved in the editor. -/
def saved (text : String) : Sources := { readFile := fun _ => .ok "", editor := some text }

/-- What was saved is the payload. -/
theorem hasPayload_editedPlace {text : String} (htext : (saved text).composed = .ok text)
    (hread : Json.read text = .ok v) : editedPlace.HasPayload (saved text) v :=
  ⟨.inr rfl, rfl, rfl, text, htext, hread⟩

/-- An empty list takes the place of the one that is built, whatever the location is. -/
theorem given_verbatim_of_list :
    let s := saved "[]"
    let v : Json := .arr []
    editedPlace.HasPayload s v ∧ putPlace.carriesBody = true ∧ editedPlace.TakesVerbatim s v putPlace ∧
      (∃ q, editedPlace.Builds s [] putPlace q) ∧
      ∃ q, editedPlace.Builds s [("$location", .text "east")] putPlace q := by
  intro s v
  have h : editedPlace.HasPayload s v := hasPayload_editedPlace (by rfl) (by rfl)
  have hcarries : putPlace.carriesBody = true := by decide +kernel
  refine ⟨h, hcarries, (given_verbatim_iff h hcarries).1.2 (.inl (by simp [v])), ?_, ?_⟩
  · exact ⟨_, (h.builds_iff hcarries).2 ⟨none, rfl, rfl, rfl⟩⟩
  · exact ⟨_, (h.builds_iff hcarries).2 ⟨none, rfl, rfl, rfl⟩⟩

/-- Null in the editor gives way to the object that is built of the location. -/
theorem exists_not_takesVerbatim :
    ∃ (i : Invocation) (s : Sources) (v : Json) (o : Operation), i.HasPayload s v ∧ o.carriesBody = true ∧
      ¬ i.TakesVerbatim s v o := by
  have h : editedPlace.HasPayload (saved "null") .null := hasPayload_editedPlace (by rfl) (by rfl)
  have hcarries : putPlace.carriesBody = true := by decide +kernel
  let b : Bound := [("$location", .text "east")]
  let built : Json := .obj [("location", .str "east")]
  have hbody : placeSchema.body b = .ok (some built) := by
    simp [b, placeSchema, Schema.body, Schema.arg, Schema.props, Schema.attributes, Schema.buildMembers,
      Schema.build, Schema.name, Schema.argValue, Kind.ofTag, Keyed.get?, Value.toJson, Value.toJsonText,
      Value.toText, Except.map]
    rfl
  have hgiven := (Operation.requestBody_none_eq_ok_iff hcarries).2 (.inl ⟨placeSchema, rfl, hbody⟩)
  have hrequest : putPlace.request b none none none = .ok ⟨"PUT", "/things", [], some built⟩ :=
    Operation.request_eq_ok_iff.2 ⟨_, "/things", _, rfl, rfl, hgiven, rfl⟩
  have hbuilds := (h.builds_iff hcarries).2 ⟨none, rfl, rfl, hrequest⟩
  refine ⟨editedPlace, saved "null", .null, putPlace, h, hcarries, fun htakes => ?_⟩
  have hcontent := htakes.content _ _ hbuilds
  cases hcontent

end Invocation

end Restline
