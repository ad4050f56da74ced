import Restline.Proofs.Bulk
import Restline.Proofs.Identifier

/-!
Previews. A preview shows the requests that a run would send: both go through the same requests in the
same order, and both stop at the first that cannot be made.

* `Invocation.requests` : the requests that an invocation asks for, or why they cannot be made.
* `Invocation.run_eq_mapM` : a run that renders nothing does one thing with each of these requests.
* `made` : the requests before the first that cannot be made.
* `Service.Declares` : every reply to these requests has a status that is declared.
* `exec_mapM_preview`, `exec_mapM_send` : previewing requests, and sending them.
* `Invocation.preview_eq_run` : **a preview shows what a run sends**.
-/

set_option autoImplicit false

namespace Restline

/-! ### Identifiers of records -/

theorem Command.recordTask_eq_ok {c : Command} {b : Bound} {line : String} {o : Operation}
    {r : ResourceId} {body : Option Json} (h : c.recordTask b line = .ok (o, r, body)) :
    c.select b (some r) = .ok o ∧ ResourceId.ofText r.text = r := by
  obtain ⟨record, -, h⟩ := Except.bind_eq_ok_iff.1 h
  obtain ⟨o', hs, h⟩ := Except.bind_eq_ok_iff.1 h
  rw [Except.mapError_eq_ok_iff] at hs
  obtain ⟨rfl, rfl, -⟩ : o' = o ∧ ResourceId.ofText record.id = r ∧ record.bodyFor o' = body := by
    simpa using h
  exact ⟨hs, ResourceId.ofText_text_ofText record.id⟩

/-! ### Requests -/

/-- The request of the record on a line, with its operation. -/
def Command.recordRequest (c : Command) (b : Bound) (version : Option String) (line : String) :
    Except Fault (Operation × ReadyRequest) := do
  let (o, r, body) ← c.recordTask b line
  let q ← (o.request b (some r) body version).mapError RequestFault.report
  return (o, q)

/-- The service answers each of the requests, after the calls before it, with a status that the
operation declares; the requests after one that cannot be made do not count. -/
def Service.Declares (v : Service) :
    List Call → List (Except Fault (Operation × ReadyRequest)) → Prop
  | _, [] => True
  | _, .error _ :: _ => True
  | past, .ok (o, q) :: rest =>
    (∃ h reply, o.http = some h ∧ v past q.call = .ok reply ∧
        h.responses.any (·.lists reply.status) = true) ∧
      v.Declares (past ++ [q.call]) rest

namespace Invocation

/-- The request of an invocation that is not for records, with its operation. -/
def singleRequest (i : Invocation) (s : Sources) : Except Fault (Operation × ReadyRequest) := do
  let r ← i.identifier s
  let o ← (i.command.select i.bound r).mapError SelectFault.report
  let body ← if o.carriesBody then i.givenBody s else .ok none
  i.command.prepare i.bound r body i.apiVersion

/-- The requests that an invocation asks for, each with its operation, or why it cannot be made. -/
def requests (i : Invocation) (s : Sources) : List (Except Fault (Operation × ReadyRequest)) :=
  if i.stdin then
    (recordLines (Text.lines s.input)).map (i.command.recordRequest i.bound i.apiVersion)
  else [i.singleRequest s]

/-- Without a shell, the plan is the request. -/
theorem plan_none (i : Invocation) (s : Sources) :
    i.plan none s = i.singleRequest s >>= fun p => pure (.request p.1 p.2) := by
  simp only [plan, singleRequest, bind_assoc]
  congr 1
  funext r
  congr 1
  funext o
  cases o.carriesBody <;> simp only [if_true, Bool.false_eq_true, if_false, bind_assoc]

section

variable {m : Type → Type} [Monad m]

/-- What is done with a request: it is previewed, or else sent. -/
def outlet (t : Option (Transport m)) (preview : Option (ReadyRequest → ExceptT Fault m Unit))
    (x : Except Fault (Operation × ReadyRequest)) : ExceptT Fault m String := do
  let (o, q) ← told id x
  match preview with
  | some preview =>
    preview q
    return ""
  | none => send t o q

variable [LawfulMonad m]

/-- Previewing or sending for a record is previewing or sending its request. -/
theorem onRecord_actOnRecord (i : Invocation) (t : Option (Transport m))
    (preview : Option (ReadyRequest → ExceptT Fault m Unit)) (line : String) :
    i.command.onRecord i.bound (i.actOnRecord t preview none) line =
      outlet t preview (i.command.recordRequest i.bound i.apiVersion line) := by
  simp only [Command.onRecord, outlet, Command.recordRequest, told_bind, bind_assoc]
  cases h : i.command.recordTask i.bound line with
  | error e => simp only [told_error, ExceptT.bind_throw]
  | ok task =>
      obtain ⟨o, r, body⟩ := task
      obtain ⟨hs, hr⟩ := Command.recordTask_eq_ok h
      cases preview with
      | none => simp only [told_ok, pure_bind, actOnRecord, sendRecord, told_mapError, told_pure]
      | some preview => simp only [told_ok, pure_bind, actOnRecord, Command.prepare, hr, hs,
          told_mapError, told_pure, bind_assoc, told_bind]

/-- **A run that renders nothing does one thing with each of its requests.** -/
theorem run_eq_mapM {i : Invocation} (h : i.shell = .ok none) (t : Option (Transport m))
    (preview : Option (ReadyRequest → ExceptT Fault m Unit)) (s : Sources) :
    i.run t preview s =
      (do
        let texts ← (i.requests s).mapM (outlet t preview)
        return if preview.isSome then none else some ("\n".intercalate texts)) := by
  rw [run, h, told_ok, pure_bind, requests]
  by_cases hb : i.stdin = true
  · rw [if_pos hb, if_pos hb, runBulk, Command.bulk, Command.forRecords_eq_mapM, List.mapM_map]
    have hact : i.command.onRecord i.bound (i.actOnRecord t preview none) =
        fun line => outlet t preview (i.command.recordRequest i.bound i.apiVersion line) :=
      funext (onRecord_actOnRecord i t preview)
    simp only [hact, bind_assoc, pure_bind, Option.isNone_none, Bool.and_true]
    rfl
  · rw [if_neg hb, if_neg hb, runSingle, plan_none]
    cases preview with
    | none =>
        simp only [outlet, told_bind, bind_assoc, List.mapM_cons, List.mapM_nil, pure_bind,
          told_pure, Option.isSome_none, Bool.false_eq_true, if_false]
        rfl
    | some preview =>
        simp only [outlet, told_bind, bind_assoc, List.mapM_cons, List.mapM_nil, pure_bind,
          told_pure, Option.isSome_some, if_true]

end

/-! ### Previewing and sending -/

section

open Recorded

/-- The requests before the first that cannot be made. -/
def made : List (Except Fault (Operation × ReadyRequest)) → List ReadyRequest
  | [] => []
  | .error _ :: _ => []
  | .ok (_, q) :: rest => q :: made rest

/-- A preview leaves nothing but the requests that can be made. -/
theorem exec_mapM_preview (w : Option (Transport (StateM Trace))) :
    ∀ (xs : List (Except Fault (Operation × ReadyRequest))) (t : Trace),
      exec (xs.mapM (outlet w (some Trace.preview))) t =
        ((xs.mapM id).map (fun ps => ps.map fun _ => ""),
          { t with previews := t.previews ++ made xs }) := by
  intro xs
  induction xs with
  | nil =>
      intro t
      rw [List.mapM_nil, List.mapM_nil, exec_pure]
      simp [made, Except.map]
  | cons x rest ih =>
      intro t
      rw [List.mapM_cons, List.mapM_cons]
      cases x with
      | error e =>
          have hx : exec (outlet w (some Trace.preview) (.error e)) t = (.error e, t) := rfl
          rw [exec_bind_error hx]
          simp [made, Except.map]
      | ok p =>
          obtain ⟨o, q⟩ := p
          have hx : exec (outlet w (some Trace.preview) (.ok (o, q))) t =
              (.ok "", { t with previews := t.previews ++ [q] }) := rfl
          rw [exec_bind_ok hx, exec_bind, ih]
          cases rest.mapM id with
          | error e => simp [made, Except.map]
          | ok ps =>
              simp only [Except.map, exec_pure]
              simp [made]

/-- Sending a request takes the text of a declared reply. -/
theorem exec_outlet_send {v : Service} {o : Operation} {q : ReadyRequest} {h : Http} {reply : Reply}
    {t : Trace} (hh : o.http = some h) (hreply : v t.calls q.call = .ok reply)
    (hlists : h.responses.any (·.lists reply.status) = true) :
    exec (outlet (some v.transport) none (.ok (o, q))) t =
      (.ok (Text.Utf8.decodeLossy reply.body), { t with calls := t.calls ++ [q.call] }) := by
  rw [outlet, told_ok, pure_bind]
  dsimp only
  rw [exec_send hh, hreply, Except.bind, Reply.route, Response.route, if_pos hlists]
  rfl

/-- Sending requests to a service that declares its answers calls it for those that can be made, and
fails only where a request cannot be made. -/
theorem exec_mapM_send {v : Service} :
    ∀ {xs : List (Except Fault (Operation × ReadyRequest))} {t : Trace}, v.Declares t.calls xs →
      (exec (xs.mapM (outlet (some v.transport) none)) t).2 =
          { t with calls := t.calls ++ (made xs).map ReadyRequest.call } ∧
        ∀ e, (exec (xs.mapM (outlet (some v.transport) none)) t).1 = .error e ↔
          xs.mapM id = .error e := by
  intro xs
  induction xs with
  | nil =>
      intro t _
      rw [List.mapM_nil, List.mapM_nil, exec_pure]
      simp [made]
  | cons x rest ih =>
      intro t hv
      rw [List.mapM_cons, List.mapM_cons]
      cases x with
      | error e =>
          have hx : exec (outlet (some v.transport) none (.error e)) t = (.error e, t) := rfl
          rw [exec_bind_error hx]
          simp [made]
      | ok p =>
          obtain ⟨o, q⟩ := p
          obtain ⟨⟨h, reply, hh, hreply, hlists⟩, hrest⟩ := hv
          -- the reply is accepted, so the requests go on after this call
          obtain ⟨htrace, herror⟩ := ih (t := { t with calls := t.calls ++ [q.call] }) hrest
          rw [exec_bind_ok (exec_outlet_send hh hreply hlists), exec_bind]
          cases hr : exec (rest.mapM (outlet (some v.transport) none))
              { t with calls := t.calls ++ [q.call] } with
          | mk r t' =>
              rw [hr] at htrace herror
              dsimp only at htrace herror
              subst htrace
              cases r with
              | error e' =>
                  have hs : rest.mapM id = .error e' := (herror e').1 rfl
                  simp [made, hs]
              | ok texts =>
                  cases hs : rest.mapM id with
                  | error e' => exact absurd ((herror e').2 hs) (by simp)
                  | ok ps =>
                      simp only [exec_pure]
                      simp [made]

theorem shell_of_noName {i : Invocation} (h : i.printCli = none ∨ i.printCli = some "") :
    i.shell = .ok none := by
  rcases h with h | h
  · simp only [shell, h]
  · simp only [shell, h]

/-- **A preview shows what a run sends.** Without a command line to render, a preview makes no call.
Where every reply has a declared status, the previewed requests are those of the calls that the run
makes, in order, and the two fail alike, with the same failure after the same requests. -/
theorem preview_eq_run {i : Invocation} (h : i.printCli = none ∨ i.printCli = some "")
    (s : Sources) (v : Service) (t : Trace) :
    let dry := exec (i.run (some v.transport) (some Trace.preview) s) t
    let real := exec (i.run (some v.transport) none s) t
    dry.2.calls = t.calls ∧
      (v.Declares t.calls (i.requests s) →
        ∃ qs : List ReadyRequest, dry.2 = { t with previews := t.previews ++ qs } ∧
          real.2 = { t with calls := t.calls ++ qs.map ReadyRequest.call } ∧
          ∀ e, dry.1 = .error e ↔ real.1 = .error e) := by
  intro dry real
  have hshell := shell_of_noName h
  have hdry : dry = exec (i.run (some v.transport) (some Trace.preview) s) t := rfl
  have hreal : real = exec (i.run (some v.transport) none s) t := rfl
  rw [run_eq_mapM hshell, exec_bind_pure, exec_mapM_preview] at hdry
  rw [run_eq_mapM hshell, exec_bind_pure] at hreal
  refine ⟨by rw [hdry], fun hv => ?_⟩
  obtain ⟨htrace, herror⟩ := exec_mapM_send hv
  refine ⟨made (i.requests s), by rw [hdry], by rw [hreal]; exact htrace, fun e => ?_⟩
  -- both fail with the first failure among the requests
  rw [hdry, hreal, Except.map_eq_error_iff, Except.map_eq_error_iff, Except.map_eq_error_iff,
    herror e]

/-- An invocation that lists things. -/
def ofThings : Invocation where
  location := ⟨["thing", "list"], "1", {}⟩
  command :=
    { operations :=
        [{ operationId := some "Things_List",
           http := some
            { path := "/things", request := { method := "GET" },
              responses := [{ statusCodes := some [200] }] } }] }

/-- The list of things is previewed as it is asked for. -/
theorem preview_eq_run_of_things :
    let s : Sources := { readFile := fun _ => .ok "" }
    let v : Service := fun _ _ => .ok ⟨200, ByteArray.empty⟩
    ∃ qs : List ReadyRequest,
      (exec (ofThings.run (some v.transport) (some Trace.preview) s) {}).2 = { previews := qs } ∧
        (exec (ofThings.run (some v.transport) none s) {}).2 =
          { calls := qs.map ReadyRequest.call } ∧
        qs.map ReadyRequest.path = ["/things"] := by
  intro s v
  have hdeclares : v.Declares [] (ofThings.requests s) := ⟨⟨_, _, rfl, rfl, rfl⟩, trivial⟩
  have hpaths : (exec (ofThings.run (some v.transport) (some Trace.preview) s) {}).2.previews.map
      ReadyRequest.path = ["/things"] := rfl
  obtain ⟨-, hall⟩ := preview_eq_run (i := ofThings) (.inl rfl) s v {}
  obtain ⟨qs, hdry, hreal, -⟩ := hall hdeclares
  refine ⟨qs, by simpa using hdry, by simpa using hreal, ?_⟩
  rw [hdry] at hpaths
  exact hpaths

end

end Invocation

end Restline
