import Restline.Proofs.Bulk
import Restline.Proofs.Requests

/-!
Invocations that name a shell, which ask for a command line to be rendered. For records nothing is ever
sent; for one request, the command line takes the place of the request only if the operation has a body,
and a request without a body is sent or previewed as ever.

* `Invocation.renderedRecord`, `Invocation.runBulk_some` : records are rendered without effects.
* `Invocation.AsksBare` : the invocation selects an operation without a body, and its request.
* `Invocation.plan_some_cases` : what a plan with a shell can be.
* `Invocation.exec_run_shell_cases` : what an invocation that names a shell can come to.
* `Invocation.run_shell_calls_iff` : **when an invocation that names a shell makes a call**.
-/

set_option autoImplicit false

namespace Restline

theorem Command.prepare_of_select {c : Command} {b : Bound} {r : Option ResourceId} {o : Operation}
    (h : c.select b r = .ok o) (body : Option Json) (version : Option String) :
    c.prepare b r body version =
      ((o.request b r body version).mapError RequestFault.report).map (fun q => (o, q)) := by
  rw [prepare, h]
  simp only [Except.mapError_ok, Except.ok_bind]
  cases o.request b r body version <;> rfl

namespace Invocation

/-! ### Records -/

/-- The command line for the record on a line. -/
def renderedRecord (i : Invocation) (sh : Shell) (line : String) : Except Fault String := do
  let (_, r, body) ← i.command.recordTask i.bound line
  i.rendered sh body (some r.text)

section

variable {m : Type → Type} [Monad m] [LawfulMonad m]

/-- **Records are rendered without effects.** -/
theorem runBulk_some (i : Invocation) (t : Option (Transport m))
    (preview : Option (ReadyRequest → ExceptT Fault m Unit)) (sh : Shell) (s : Sources) :
    i.runBulk t preview (some sh) s =
      told id (do
        let texts ← (recordLines (Text.lines s.input)).mapM (i.renderedRecord sh)
        return some ("\n".intercalate texts)) := by
  have h : i.command.onRecord i.bound (i.actOnRecord t preview (some sh)) =
      fun line => told id (i.renderedRecord sh line) := by
    funext line
    simp only [Command.onRecord, actOnRecord, renderedRecord, told_bind]
  simp only [runBulk, Command.bulk, Command.forRecords_eq_mapM, h, told_mapM, told_bind, told_pure,
    bind_assoc, pure_bind, Option.isNone_some, Bool.and_false, Bool.false_eq_true, if_false]

end

/-! ### One request -/

/-- The invocation selects an operation without a body, and its request can be made. -/
def AsksBare (i : Invocation) (s : Sources) (o : Operation) (q : ReadyRequest) : Prop :=
  ∃ r, i.identifier s = .ok r ∧ i.command.select i.bound r = .ok o ∧ o.carriesBody = false ∧
    o.request i.bound r none i.apiVersion = .ok q

/-- A plan with a shell, for an operation with a body, is a command line. -/
theorem plan_some_of_body {i : Invocation} {sh : Shell} {s : Sources} {o : Operation}
    {r : Option ResourceId} (hr : i.identifier s = .ok r) (hs : i.command.select i.bound r = .ok o)
    (hc : o.carriesBody = true) :
    i.plan (some sh) s = (do
      let body ← i.givenBody s
      let text ← i.rendered sh body (r.map (·.text))
      return .rendered text) := by
  simp only [plan, hr, hs, hc, Except.mapError_ok, Except.ok_bind, if_true]

/-- A plan with a shell, for an operation without a body, is its request. -/
theorem plan_some_of_noBody {i : Invocation} {sh : Shell} {s : Sources} {o : Operation}
    {r : Option ResourceId} (hr : i.identifier s = .ok r) (hs : i.command.select i.bound r = .ok o)
    (hc : o.carriesBody = false) :
    i.plan (some sh) s =
      ((o.request i.bound r none i.apiVersion).mapError RequestFault.report).map (.request o) := by
  simp only [plan, hr, hs, hc, Command.prepare_of_select hs, Except.mapError_ok, Except.ok_bind,
    Bool.false_eq_true, if_false]
  cases o.request i.bound r none i.apiVersion <;> rfl

/-- What a plan with a shell can be: a command line, or the request of an operation without a body. -/
theorem plan_some_cases {i : Invocation} {sh : Shell} {s : Sources} {p : Plan}
    (h : i.plan (some sh) s = .ok p) :
    (∃ text body id, p = .rendered text ∧ i.rendered sh body id = .ok text) ∨
      ∃ o q, p = .request o q ∧ i.AsksBare s o q := by
  obtain ⟨r, hr, h'⟩ := Except.bind_eq_ok_iff.1 h
  obtain ⟨o, hs, -⟩ := Except.bind_eq_ok_iff.1 h'
  rw [Except.mapError_eq_ok_iff] at hs
  cases hc : o.carriesBody with
  | true =>
      rw [plan_some_of_body hr hs hc] at h
      obtain ⟨body, -, h⟩ := Except.bind_eq_ok_iff.1 h
      obtain ⟨text, htext, h⟩ := Except.bind_eq_ok_iff.1 h
      exact .inl ⟨text, body, _, (Except.ok.inj h).symm, htext⟩
  | false =>
      rw [plan_some_of_noBody hr hs hc] at h
      cases hq : o.request i.bound r none i.apiVersion with
      | error e => simp [hq, Except.map] at h
      | ok q =>
          rw [hq] at h
          exact .inr ⟨o, q, (Except.ok.inj h).symm, r, hr, hs, hc, hq⟩

/-- With a shell, the plan for an operation without a body is its request. -/
theorem plan_of_asksBare {i : Invocation} {sh : Shell} {s : Sources} {o : Operation}
    {q : ReadyRequest} (h : i.AsksBare s o q) : i.plan (some sh) s = .ok (.request o q) := by
  obtain ⟨r, hr, hs, hc, hq⟩ := h
  rw [plan_some_of_noBody hr hs hc, hq]
  rfl

/-- The request of an operation without a body is previewed or sent whether or not a shell is
named. -/
theorem run_shell_of_asksBare {m : Type → Type} [Monad m] [LawfulMonad m] {i : Invocation}
    {sh : Shell} (hsh : i.shell = .ok (some sh)) (hb : i.stdin = false) {s : Sources} {o : Operation}
    {q : ReadyRequest} (h : i.AsksBare s o q) (t : Option (Transport m))
    (preview : Option (ReadyRequest → ExceptT Fault m Unit)) :
    i.run t preview s =
      match preview with
      | some preview => do
        preview q
        return none
      | none => return some (← send t o q) := by
  rw [run, hsh, told_ok, pure_bind, if_neg (by simp [hb]), runSingle, plan_of_asksBare h, told_ok]
  exact pure_bind _ _

/-! ### Recorded runs -/

section

open Recorded

/-- The text consists of command lines for the invocation, one on each line. -/
def Renders (i : Invocation) (text : String) : Prop :=
  ∃ sh texts, i.shell = .ok (some sh) ∧ text = "\n".intercalate texts ∧
    ∀ x ∈ texts, ∃ body id, i.rendered sh body id = .ok x

theorem renders_of_rendered {i : Invocation} {sh : Shell} (hsh : i.shell = .ok (some sh))
    {body : Option Json} {id : Option String} {text : String}
    (h : i.rendered sh body id = .ok text) : i.Renders text :=
  ⟨sh, [text], hsh, rfl, by simpa using ⟨body, id, h⟩⟩

/-- The command lines for records, put together. -/
theorem renders_of_records {i : Invocation} {sh : Shell} (hsh : i.shell = .ok (some sh))
    {lines texts : List String} (h : lines.mapM (i.renderedRecord sh) = .ok texts) :
    i.Renders ("\n".intercalate texts) := by
  refine ⟨sh, texts, hsh, rfl, fun x hx => ?_⟩
  obtain ⟨line, -, hline⟩ := Except.exists_of_mem_of_mapM h x hx
  obtain ⟨⟨o, r, body⟩, -, hrendered⟩ := Except.bind_eq_ok_iff.1 hline
  exact ⟨body, some r.text, hrendered⟩

/-- A run of the invocation that fails or renders, and leaves no trace. -/
def EndsUnsent (i : Invocation) (t : Trace) (ran : Except Fault (Option String) × Trace) : Prop :=
  (∃ e, ran = (.error e, t)) ∨ ∃ text, ran = (.ok (some text), t) ∧ i.Renders text

/-- For records, an invocation that names a shell leaves no trace. -/
theorem exec_run_shell_of_stdin {i : Invocation} {sh : Shell} (hsh : i.shell = .ok (some sh))
    (hb : i.stdin = true) (w : Option (Transport (StateM Trace)))
    (preview : Option (ReadyRequest → Recorded Unit)) (s : Sources) (t : Trace) :
    i.EndsUnsent t (exec (i.run w preview s) t) := by
  rw [run, hsh, told_ok, pure_bind, if_pos hb, runBulk_some, exec_told]
  cases h : (recordLines (Text.lines s.input)).mapM (i.renderedRecord sh) with
  | error e => exact .inl ⟨e, rfl⟩
  | ok texts => exact .inr ⟨_, rfl, renders_of_records hsh h⟩

/-- For one request, an invocation that names a shell leaves no trace, or else it asks for an
operation without a body. -/
theorem exec_run_shell_of_single {i : Invocation} {sh : Shell} (hsh : i.shell = .ok (some sh))
    (hb : i.stdin = false) (w : Option (Transport (StateM Trace)))
    (preview : Option (ReadyRequest → Recorded Unit)) (s : Sources) (t : Trace) :
    i.EndsUnsent t (exec (i.run w preview s) t) ∨ ∃ o q, i.AsksBare s o q := by
  rw [run, hsh, told_ok, pure_bind, if_neg (by simp [hb]), runSingle]
  cases h : i.plan (some sh) s with
  | error e => exact .inl (.inl ⟨e, rfl⟩)
  | ok p =>
      rcases plan_some_cases h with ⟨text, body, id, rfl, htext⟩ | ⟨o, q, -, hask⟩
      · exact .inl (.inr ⟨text, rfl, renders_of_rendered hsh htext⟩)
      · exact .inr ⟨o, q, hask⟩

/-- Sending the request of an operation without a body makes its call, although a shell is named. -/
theorem exec_run_shell_of_asksBare {i : Invocation} {sh : Shell} (hsh : i.shell = .ok (some sh))
    (hb : i.stdin = false) {s : Sources} {o : Operation} {q : ReadyRequest} (h : i.AsksBare s o q)
    (v : Service) (t : Trace) :
    (exec (i.run (some v.transport) none s) t).2 = { t with calls := t.calls ++ [q.call] } := by
  obtain ⟨r, -, -, -, hq⟩ := id h
  obtain ⟨http, hh⟩ := Operation.http_of_request hq
  rw [run_shell_of_asksBare hsh hb h]
  dsimp only
  rw [exec_bind_pure, exec_send hh]

/-- What an invocation that names a shell can come to: it fails or renders and leaves no trace, or it
asks for an operation without a body, which it previews or sends. -/
theorem exec_run_shell_cases {i : Invocation} {sh : Shell} (hsh : i.shell = .ok (some sh))
    (v : Option Service) (preview : Bool) (s : Sources) (t : Trace) :
    let previewer := if preview then some Trace.preview else none
    let ran := exec (i.run (v.map Service.transport) previewer s) t
    i.EndsUnsent t ran ∨
      i.stdin = false ∧ ∃ o q, i.AsksBare s o q ∧
        (preview = true ∧ ran = (.ok none, { t with previews := t.previews ++ [q] }) ∨
          preview = false ∧ v.isSome = true ∧
            ran.2 = { t with calls := t.calls ++ [q.call] }) := by
  intro previewer ran
  by_cases hb : i.stdin = true
  · exact .inl (exec_run_shell_of_stdin hsh hb _ _ s t)
  have hb : i.stdin = false := by simpa using hb
  rcases exec_run_shell_of_single hsh hb (v.map Service.transport) previewer s t with
    hsilent | ⟨o, q, hask⟩
  · exact .inl hsilent
  cases preview with
  | true =>
      refine .inr ⟨hb, o, q, hask, .inl ⟨rfl, ?_⟩⟩
      have hrun : ran = exec (i.run (v.map Service.transport) (some Trace.preview) s) t := rfl
      rw [hrun, run_shell_of_asksBare hsh hb hask]
      rfl
  | false =>
      cases v with
      | none =>
          -- without a transport there is nothing to send the request with
          refine .inl (.inl ⟨noTransport, ?_⟩)
          have hrun : ran = exec (i.run none none s) t := rfl
          rw [hrun, run_shell_of_asksBare hsh hb hask]
          exact exec_bind_error (exec_send_none o q t) _
      | some v =>
          exact .inr ⟨hb, o, q, hask, .inr ⟨rfl, rfl, exec_run_shell_of_asksBare hsh hb hask v t⟩⟩

theorem shell_of_name {i : Invocation} {name : String} (h : i.printCli = some name)
    (hname : name ≠ "") : i.shell = (Shell.ofName name).map some := by
  simp only [shell, h]

/-- **When an invocation that names a shell makes a call**: exactly when there is a shell of that name,
and the invocation is for one request, neither previewed nor without a transport, of an operation
without a body. It makes the call of this request, and no other. Without a call, the run fails, has
command lines for its text, or previews that request. -/
theorem run_shell_calls_iff {i : Invocation} {name : String} (h : i.printCli = some name)
    (hname : name ≠ "") (v : Option Service) (preview : Bool) (s : Sources) (t : Trace) :
    let previewer := if preview then some Trace.preview else none
    let ran := exec (i.run (v.map Service.transport) previewer s) t
    (ran.2.calls ≠ t.calls ↔
        (∃ sh, Shell.ofName name = .ok sh) ∧ i.stdin = false ∧ preview = false ∧ v.isSome = true ∧
          ∃ o q, i.AsksBare s o q) ∧
      (ran.2.calls ≠ t.calls →
        ∃ o q, i.AsksBare s o q ∧ ran.2 = { t with calls := t.calls ++ [q.call] }) ∧
      (ran.2.calls = t.calls →
        (∃ e, ran = (.error e, t)) ∨ (∃ text, ran = (.ok (some text), t) ∧ i.Renders text) ∨
          preview = true ∧ ∃ o q, i.AsksBare s o q ∧
            ran = (.ok none, { t with previews := t.previews ++ [q] })) := by
  intro previewer ran
  have hshell := shell_of_name h hname
  cases hn : Shell.ofName name with
  | error e =>
      -- no shell has the name, so the run fails before anything else
      have hran : ran = (.error e, t) := by
        have hrun : ran = exec (i.run (v.map Service.transport) previewer s) t := rfl
        rw [hrun, run, hshell, hn]
        rfl
      rw [hran]
      simp
  | ok sh =>
      rw [hn] at hshell
      have hcases := exec_run_shell_cases hshell v preview s t
      have hsent : ran.2.calls ≠ t.calls → i.stdin = false ∧ ∃ o q, i.AsksBare s o q ∧
          preview = false ∧ v.isSome = true ∧
            ran.2 = { t with calls := t.calls ++ [q.call] } := by
        intro hne
        rcases hcases with (⟨e, he⟩ | ⟨text, ht, -⟩) | ⟨hb, o, q, hask, ⟨-, hq⟩ | ⟨hp, hv, hq⟩⟩
        · exact absurd (congrArg (·.2.calls) he) hne
        · exact absurd (congrArg (·.2.calls) ht) hne
        · exact absurd (congrArg (·.2.calls) hq) hne
        · exact ⟨hb, o, q, hask, hp, hv, hq⟩
      refine ⟨⟨fun hne => ?_, ?_⟩, fun hne => ?_, fun heq => ?_⟩
      · obtain ⟨hb, o, q, hask, hp, hv, -⟩ := hsent hne
        exact ⟨⟨sh, rfl⟩, hb, hp, hv, o, q, hask⟩
      · rintro ⟨-, hb, rfl, hv, o, q, hask⟩
        obtain ⟨v, rfl⟩ := Option.isSome_iff_exists.1 hv
        have hq : ran.2 = { t with calls := t.calls ++ [q.call] } :=
          exec_run_shell_of_asksBare hshell hb hask v t
        rw [hq]
        simp
      · obtain ⟨-, o, q, hask, -, -, hq⟩ := hsent hne
        exact ⟨o, q, hask, hq⟩
      · rcases hcases with (he | ht) | ⟨-, o, q, hask, ⟨hp, hq⟩ | ⟨-, -, hq⟩⟩
        · exact .inl he
        · exact .inr (.inl ht)
        · exact .inr (.inr ⟨hp, o, q, hask, hq⟩)
        · -- the call that was made is in the trace
          rw [hq] at heq
          simp at heq

/-! ### A command with a body and without -/

/-- An invocation that names a shell, of a command that puts a value, or lists things without one. -/
def putOrList : Invocation where
  location := ⟨["thing"], "1", {}⟩
  command :=
    { conditions := some [⟨"$Put", .hasValue "$v"⟩, ⟨"$List", .not (.hasValue "$v")⟩]
      operations :=
        [{ operationId := some "Things_Put", tags := some ["$Put"],
           http := some { path := "/things", request := { method := "PUT", body := some {} } } },
         { operationId := some "Things_List", tags := some ["$List"],
           http := some { path := "/things", request := { method := "GET" } } }] }
  printCli := some "unix"

/-- Without a value, the list is asked for although the invocation names a shell. -/
theorem run_shell_calls_of_list :
    let s : Sources := { readFile := fun _ => .ok "" }
    let v : Service := fun _ _ => .ok ⟨200, ByteArray.empty⟩
    ∃ o q, putOrList.AsksBare s o q ∧
      (exec (putOrList.run (some v.transport) none s) {}).2 = { calls := [q.call] } := by
  intro s v
  have hask : putOrList.AsksBare s putOrList.command.operations[1] ⟨"GET", "/things", [], none⟩ :=
    ⟨none, rfl, rfl, rfl, rfl⟩
  obtain ⟨hiff, hcall, -⟩ :=
    run_shell_calls_iff (i := putOrList) rfl (by decide) (some v) false s {}
  exact hcall (hiff.2 ⟨⟨.unix, rfl⟩, rfl, rfl, rfl, _, _, hask⟩)

/-- An invocation that names a shell can make a call. -/
theorem exists_run_shell_calls :
    ∃ (i : Invocation) (v : Service) (s : Sources), i.printCli = some "unix" ∧
      (exec (i.run (some v.transport) none s) {}).2.calls ≠ [] := by
  refine ⟨putOrList, fun _ _ => .ok ⟨200, ByteArray.empty⟩, { readFile := fun _ => .ok "" }, rfl,
    fun h => ?_⟩
  have hpaths := congrArg (fun calls : List Call => calls.map Call.path) h
  exact absurd hpaths (by decide +kernel)

end

end Invocation

end Restline
