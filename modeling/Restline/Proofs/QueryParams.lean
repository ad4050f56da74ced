import Restline.Client
import Restline.Proofs.KeyedLists
import Restline.Proofs.Recorded
import Restline.Proofs.Requests

/-!
The query parameters of a request that is sent. Parameters come from four places: what authorizes the
request, the constants of the operation, its parameters whose arguments are bound, and the version that was
asked for. They are laid over each other in three steps, and on the way the version is taken out and put
back as text; in the end a name has the value of the last place that gives it one.

* `Operation.ownValue?` : what a request itself gives a parameter.
* `Client.sentValue?` : what a parameter is sent with.
* `Operation.get?_query`, `ReadyRequest.version_of_request` : the query and the version of a request.
* `Client.params_of_send` : **each parameter is sent once, with the value of the last place**.
-/

set_option autoImplicit false

namespace Restline

/-! ### What a request gives its parameters -/

theorem Json.nonNull?_eq_some {j j' : Json} (h : j.nonNull? = some j') : j'.nonNull? = some j' := by
  cases j with
  | null => cases h
  | _ =>
      obtain rfl := Option.some_inj.1 h
      rfl

namespace Operation

/-- What a request itself gives a parameter: the version asked for, else the value of the last bound
parameter of the name, else the last constant of the name that is not null. -/
def ownValue? (h : Http) (b : Bound) (version : Option String) (name : String) : Option Json :=
  ((if name = versionParam then version.map Json.str else none).or
    (h.request.queryParams.reverse.findSome? fun p =>
      if p.name = name then (b.get? p.arg).map fun v => Json.str v.toText else none)).or
    (h.request.queryConsts.reverse.findSome? fun q =>
      if q.name = name then q.value?.bind Json.nonNull? else none)

variable {h : Http} {b : Bound} {version : Option String} {name : String}

/-- A pair under a name, if there is a value, gives that name the value. -/
theorem pair_bind {α : Type} (own : String) (v : Option α) (name : String) :
    ((v.map (own, ·)).bind fun e => if e.1 = name then some e.2 else none) =
      if own = name then v else none := by
  cases v <;> simp

theorem get?_query : (query h b version).get? name = ownValue? h b version name := by
  have hconsts : Keyed.last? (constValues h.request.queryConsts) name =
      h.request.queryConsts.reverse.findSome? fun q =>
        if q.name = name then q.value?.bind Json.nonNull? else none := by
    simp only [constValues, Keyed.last?_filterMap, pair_bind]
  have hbound : Keyed.last? (boundValues b h.request.queryParams) name =
      h.request.queryParams.reverse.findSome? fun p =>
        if p.name = name then (b.get? p.arg).map fun v => Json.str v.toText else none := by
    rw [boundValues, Keyed.last?_filterMap]
    refine congrArg (fun f => List.findSome? f _) (funext fun p => ?_)
    rw [← pair_bind p.name _ name, Option.map_map]
    rfl
  have hversion : Keyed.last? (version.map fun v => (versionParam, Json.str v)).toList name =
      if name = versionParam then version.map Json.str else none := by
    cases version with
    | none => exact (ite_self none).symm
    | some v => simp [eq_comm]
  rw [query, Keyed.get?_ofPairs, Keyed.last?_append, Keyed.last?_append, hconsts, hbound, hversion,
    ownValue?, Option.or_assoc]

/-- No parameter is given null. -/
theorem nonNull?_ownValue {j : Json} (hj : ownValue? h b version name = some j) :
    j.nonNull? = some j := by
  rcases Option.or_eq_some_iff.1 hj with hj | ⟨-, hj⟩
  · rcases Option.or_eq_some_iff.1 hj with hj | ⟨-, hj⟩
    · split at hj
      · obtain ⟨v, -, rfl⟩ := Option.map_eq_some_iff.1 hj
        rfl
      · cases hj
    · obtain ⟨p, -, hp⟩ := List.exists_of_findSome?_eq_some hj
      split at hp
      · obtain ⟨v, -, rfl⟩ := Option.map_eq_some_iff.1 hp
        rfl
      · cases hp
  · obtain ⟨q, -, hq⟩ := List.exists_of_findSome?_eq_some hj
    split at hq
    · obtain ⟨j', -, hj'⟩ := Option.bind_eq_some_iff.1 hq
      exact Json.nonNull?_eq_some hj'
    · cases hq

end Operation

/-- The version of a request is what the request gives its parameter, as text. -/
theorem ReadyRequest.version_of_request {o : Operation} {h : Http} (hh : o.http = some h) {b : Bound}
    {r : Option ResourceId} {given : Option Json} {version : Option String} {q : ReadyRequest}
    (hq : o.request b r given version = .ok q) :
    q.query = Operation.query h b version ∧
      q.version = (Operation.ownValue? h b version versionParam).map Json.display := by
  obtain ⟨h', path, body, hh', -, -, rfl⟩ := Operation.request_eq_ok_iff.1 hq
  obtain rfl := Option.some_inj.1 (hh'.symm.trans hh)
  refine ⟨rfl, ?_⟩
  rw [ReadyRequest.version, Operation.get?_query]
  cases hown : Operation.ownValue? h' b version versionParam with
  | none => rfl
  | some j => rw [Option.bind_some, Operation.nonNull?_ownValue hown]

/-! ### What a parameter is sent with -/

namespace Client

/-- What a parameter is sent with: what the request itself gives it, which for the version is sent as text,
else the value that authorizes. -/
def sentValue? (c : Client) (h : Http) (b : Bound) (version : Option String) (name : String) :
    Option Json :=
  ((Operation.ownValue? h b version name).map fun j =>
      if name = versionParam then .str j.display else j).or
    (c.grant.params.reverse.findSome? fun p => if p.1 = name then some (.str p.2) else none)

variable (c : Client)

/-- What authorizes, with the query of a call laid over it and the version over both. -/
theorem get?_params_eq_last? (call : Call) (name : String) :
    (c.params call).get? name =
      ((if name = versionParam then call.version.map Json.str else none).or
        (Keyed.last? call.query name)).or ((Keyed.last? c.grant.params name).map Json.str) := by
  rw [params]
  cases call.version with
  | none =>
      simp only
      rw [Keyed.get?_union, Keyed.get?_ofPairs, Keyed.last?_map, Option.map_none, ite_self, Option.none_or]
  | some v =>
      simp only
      rw [Keyed.get?_put, Keyed.get?_union, Keyed.get?_ofPairs, Keyed.last?_map]
      by_cases hname : name = versionParam
      · rw [if_pos hname.symm, if_pos hname, Option.map_some, Option.some_or, Option.some_or]
      · rw [if_neg (Ne.symm hname), if_neg hname, Option.none_or]

/-- The parameters of a call whose query has every name once. -/
theorem get?_params {call : Call} (hquery : call.query.keys.Nodup) (name : String) :
    (c.params call).get? name =
      ((if name = versionParam then call.version.map Json.str else none).or (call.query.get? name)).or
        (c.grant.params.reverse.findSome? fun p => if p.1 = name then some (.str p.2) else none) := by
  have hgranted : (Keyed.last? c.grant.params name).map Json.str =
      c.grant.params.reverse.findSome? fun p => if p.1 = name then some (.str p.2) else none := by
    rw [← Keyed.last?_map, Keyed.last?, ← List.map_reverse, List.findSome?_map]
    rfl
  rw [c.get?_params_eq_last?, Keyed.last?_of_nodup hquery, hgranted]

theorem nodup_keys_params (call : Call) : (c.params call).keys.Nodup := by
  have hown : (Keyed.union (Keyed.ofPairs (c.grant.params.map fun p => (p.1, Json.str p.2)))
      call.query).keys.Nodup := Keyed.nodup_keys_union (Keyed.nodup_keys_ofPairs _) _
  rw [params]
  cases call.version with
  | none => exact hown
  | some v => exact Keyed.nodup_keys_put hown versionParam _

/-- **Each parameter is sent once, with the value of the last place that gives it one.** A request that was
made is sent in one call, whose parameters have each name once; a name has the version asked for, the value
of the last bound parameter, the last constant that is not null or the value that authorizes, the first of
them that there is, and no other name is sent. The version is sent as text. -/
theorem params_of_send {o : Operation} {h : Http} (hh : o.http = some h) {b : Bound}
    {r : Option ResourceId} {given : Option Json} {version : Option String} {q : ReadyRequest}
    (hq : o.request b r given version = .ok q) (v : Service) (t : Trace) :
    ∃ call, (Recorded.exec (send (some v.transport) o q) t).2.calls = t.calls ++ [call] ∧
      (c.params call).keys.Nodup ∧
      ∀ name, (c.params call).get? name = c.sentValue? h b version name := by
  refine ⟨q.call, by rw [Recorded.exec_send hh], c.nodup_keys_params q.call, fun name => ?_⟩
  obtain ⟨hquery, hversion⟩ := ReadyRequest.version_of_request hh hq
  have hnodup : q.query.keys.Nodup := by
    rw [hquery]
    exact Keyed.nodup_keys_ofPairs _
  have hcall : q.call = ⟨q.method, q.path, q.version, q.body, q.query.erase versionParam⟩ := rfl
  rw [hcall, c.get?_params (Keyed.nodup_keys_erase hnodup versionParam), sentValue?, Keyed.get?_erase,
    hversion, hquery, Operation.get?_query]
  by_cases hname : name = versionParam
  · -- the version was taken out of the query, and only its text is left
    subst hname
    rw [if_pos rfl, if_pos rfl, Option.or_none, Option.map_map]
    simp only [if_pos]
    rfl
  · simp only [if_neg hname, if_neg (Ne.symm hname), Option.none_or, Option.map_id']

/-! ### Parameters from every place -/

/-- An operation that lists things, with constants and parameters of the same names. -/
def listThings : Operation where
  http := some { path := "/things", request :=
    { method := "GET"
      queryConsts := [{ name := "api-version", default := some (some (.int 1)) },
        { name := "top", default := some (some (.int 5)) },
        { name := "top", default := some (some .null) },
        { name := "mode", default := some (some (.str "a")) }]
      queryParams := [{ name := "mode", arg := "$mode" }, { name := "mode", arg := "$kind" },
        { name := "filter", arg := "$filter" }] } }

/-- A number as the version is sent as text, a null constant does not count, of two bound parameters of one
name the last one does, and what authorizes is sent where the request itself gives nothing. -/
theorem params_of_send_listThings :
    ∃ (c : Client) (q : ReadyRequest) (call : Call),
      c.grant.params = [("api-version", "0"), ("mode", "z"), ("key", "k")] ∧
      listThings.request [("$mode", .text "x"), ("$kind", .bool true)] none none none = .ok q ∧
      (Recorded.exec (send (some (Service.transport fun _ _ => .ok ⟨200, .empty⟩)) listThings q) {}).2.calls =
        [call] ∧
      (c.params call).keys.Nodup ∧
      (c.params call).get? "api-version" = some (.str "1") ∧
      (c.params call).get? "top" = some (.int 5) ∧
      (c.params call).get? "mode" = some (.str "true") ∧
      (c.params call).get? "key" = some (.str "k") ∧
      (c.params call).get? "filter" = none := by
  let c : Client := ⟨{ name := "p" }, {}, ⟨[], [("api-version", "0"), ("mode", "z"), ("key", "k")]⟩⟩
  have hq : listThings.request [("$mode", .text "x"), ("$kind", .bool true)] none none none =
      .ok ⟨"GET", "/things", [("api-version", .int 1), ("top", .int 5), ("mode", .str "true")], none⟩ := by
    rfl
  obtain ⟨call, hcalls, hnodup, hget⟩ :=
    params_of_send c rfl hq (fun _ _ => .ok ⟨200, .empty⟩) {}
  exact ⟨c, _, call, rfl, hq, hcalls, hnodup, (hget "api-version").trans (by rfl),
    (hget "top").trans (by rfl), (hget "mode").trans (by rfl), (hget "key").trans (by rfl),
    (hget "filter").trans (by rfl)⟩

end Client

end Restline
