import Restline.CommandLine.Rendered
import Restline.Metadata.Store
import Restline.Operation.Request
import Restline.Operation.Response
import Restline.Operation.Selection
import Restline.Program.Name

/-!
Invocations: what a command line asked for, and how it is carried out. One invocation selects an
operation, builds its request and sends it; in bulk it does so for every record of the input, one after
the other, and stops at the first failure. Instead of being sent, a request can be previewed, or the
command line that reproduces it can be rendered.

Sending and previewing are given as functions, so that everything here holds for any transport.

* `Command.prepare`, `send`, `Command.invoke` : one request.
* `Command.bulk`, `Command.invokeBulk` : one request for each record.
* `Invocation`, `Invocation.run` : an invocation in all its modes.
-/

set_option autoImplicit false

namespace Restline

/-! ### One request -/

/-- How requests are sent. -/
abbrev Transport (m : Type → Type) := Call → ExceptT Fault m Reply

section

variable {m : Type → Type} [Monad m]

/-- A result without effects, with its failure as it is told. -/
def told {ε α : Type} (report : ε → Fault) (x : Except ε α) : ExceptT Fault m α :=
  ExceptT.mk (pure (x.mapError report))

/-- The operation that the input points at, and its request. -/
def Command.prepare (c : Command) (b : Bound) (r : Option ResourceId) (body : Option Json)
    (version : Option String) : Except Fault (Operation × ReadyRequest) := do
  let o ← (c.select b r).mapError SelectFault.report
  let q ← (o.request b r body version).mapError RequestFault.report
  return (o, q)

/-- There is nothing to send requests with. -/
def noTransport : Fault :=
  { kind := .config, message := "no transport configured for sending requests" }

/-- Sends a request of an operation and takes the text of the response. -/
def send (t : Option (Transport m)) (o : Operation) (q : ReadyRequest) : ExceptT Fault m String := do
  match t with
  | none => throw noTransport
  | some t =>
    match o.http with
    | none => throw (RequestFault.notCallable o.operationId).report
    | some h =>
      let reply ← t q.call
      told UndeclaredFault.report (reply.route h.responses)

/-- Selects, builds, sends and takes the text of the response. -/
def Command.invoke (t : Option (Transport m)) (c : Command) (b : Bound) (r : Option ResourceId)
    (body : Option Json) (version : Option String) : ExceptT Fault m String := do
  let (o, q) ← told id (c.prepare b r body version)
  send t o q

end

/-! ### Records -/

/-- Why a line of the input is no record. -/
inductive RecordFault
  | malformed (line : String) (what : Json.Expected) (left : Nat)
  | overlong
  | notRecord
  | noId
  | idNotText
deriving DecidableEq, Repr

/-- The failure as it is told. -/
def RecordFault.report : RecordFault → Fault
  | .malformed line what left =>
    { kind := .invalidUsage
      message := "input line is not valid JSON: " ++ (Json.ReadFault.malformed what left).message line }
  | .overlong => .ofCrash .badValue
  | .notRecord => { kind := .invalidUsage, message := "expect a JSON object per input line" }
  | .noId => { kind := .invalidUsage, message := "\"id\" field not found" }
  | .idNotText => { kind := .invalidUsage, message := "\"id\" field is not a str" }

/-- A record: an identifier and the other members. -/
structure BulkRecord where
  id : String
  rest : Keyed Json

/-- The record on a line. -/
def BulkRecord.ofLine (line : String) : Except RecordFault BulkRecord :=
  match Json.read line with
  | .error (.malformed what left) => .error (.malformed line what left)
  | .error (.overlong _) => .error .overlong
  | .ok (.obj ms) =>
    match Keyed.get? ms "id" with
    | none => .error .noId
    | some (.str s) => .ok ⟨s, Keyed.erase ms "id"⟩
    | some _ => .error .idNotText
  | .ok _ => .error .notRecord

/-- The body that a record gives for an operation: for PUT its other members, pruned to the schema of
the body if there is one. -/
def BulkRecord.bodyFor (rec : BulkRecord) (o : Operation) : Option Json :=
  if o.method = some "PUT" then
    match o.bodySchema with
    | some s => some (s.prune (.obj rec.rest))
    | none => some (.obj rec.rest)
  else none

/-- What a record asks for: the operation that its identifier selects, the identifier, the body. -/
def Command.recordTask (c : Command) (b : Bound) (line : String) :
    Except Fault (Operation × ResourceId × Option Json) := do
  let rec ← (BulkRecord.ofLine line).mapError RecordFault.report
  let r := ResourceId.ofText rec.id
  let o ← (c.select b (some r)).mapError SelectFault.report
  return (o, r, rec.bodyFor o)

/-! ### Many requests -/

section

variable {m : Type → Type} [Monad m]

/-- Does something for every record of the lines that are not blank, in order, up to the first
failure. -/
def Command.forRecords (c : Command) (b : Bound)
    (act : Operation → ResourceId → Option Json → ExceptT Fault m String) :
    List String → ExceptT Fault m (List String)
  | [] => pure []
  | line :: rest =>
    if Text.isBlankText line then c.forRecords b act rest
    else do
      let (o, r, body) ← told id (c.recordTask b line)
      let text ← act o r body
      let texts ← c.forRecords b act rest
      return text :: texts

/-- Does something for every record and joins the results. -/
def Command.bulk (c : Command) (b : Bound)
    (act : Operation → ResourceId → Option Json → ExceptT Fault m String) (lines : List String) :
    ExceptT Fault m String := do
  let texts ← c.forRecords b act lines
  return "\n".intercalate texts

/-- Sends the request of a record. -/
def sendRecord (t : Option (Transport m)) (b : Bound) (version : Option String) (o : Operation)
    (r : ResourceId) (body : Option Json) : ExceptT Fault m String := do
  let q ← told RequestFault.report (o.request b (some r) body version)
  send t o q

/-- Sends one request for each record. -/
def Command.invokeBulk (t : Option (Transport m)) (c : Command) (b : Bound) (version : Option String)
    (lines : List String) : ExceptT Fault m String :=
  c.bulk b (sendRecord t b version) lines

end

/-! ### Invocations -/

/-- What a command line asked for. -/
structure Invocation where
  location : Location
  command : Command
  bound : Bound := []
  /-- The options as they were given, with their values. -/
  supplied : List (String × Option String) := []
  /-- A full identifier; a dash stands for one in the input. -/
  resourceId : Option String := none
  /-- One request for each record of the input. -/
  stdin : Bool := false
  /-- The file that holds the body. -/
  file : Option String := none
  /-- The body is written in an editor. -/
  edit : Bool := false
  /-- The shell to render the command line for. -/
  printCli : Option String := none
  apiVersion : Option String := none

/-- Where an invocation takes its input from. -/
structure Sources where
  input : String := ""
  readFile : String → Except Fault String
  /-- What is saved in the editor, if anything. -/
  editor : Option String := none

/-- The payload that a text holds; null is no payload. -/
def payload (text : String) : Except Fault (Option Json) :=
  match Json.read text with
  | .ok j => .ok j.nonNull?
  | .error (.malformed what left) =>
    .error { kind := .invalidUsage
             message := "parsing the payload as JSON: "
               ++ (Json.ReadFault.malformed what left).message text }
  | .error (.overlong _) => .error (.ofCrash .badValue)

/-- What was written in the editor. -/
def Sources.composed (s : Sources) : Except Fault String :=
  match s.editor with
  | none => .error { kind := .invalidUsage, message := "Aborting due to empty body" }
  | some text =>
    if Text.isBlankText text then
      .error { kind := .invalidUsage, message := "Aborting due to empty body" }
    else .ok (Text.trim text)

namespace Invocation

/-- The command line that reproduces a request. -/
def rendered (i : Invocation) (sh : Shell) (body : Option Json) (resourceId : Option String) :
    Except Fault String := do
  let r : Rendering := ⟨sh, i.command.argGroups, i.supplied, body, resourceId⟩
  let os ← r.options.mapError RenderFault.report
  return " ".intercalate ([Program.name, "api"] ++ i.location.segments ++ os)

/-- The shell that the invocation names; an empty name is none. -/
def shell (i : Invocation) : Except Fault (Option Shell) :=
  match i.printCli with
  | none => .ok none
  | some "" => .ok none
  | some name => (Shell.ofName name).map some

/-- The full identifier, if there is one. -/
def identifier (i : Invocation) (s : Sources) : Except Fault (Option ResourceId) :=
  match i.resourceId with
  | none => .ok none
  | some "-" => ((ResourceId.ofRecord s.input).mapError IdRecordFault.report).map some
  | some id => .ok (some (ResourceId.ofText id))

/-- The ready-made body, if there is one: from the file, or else from the editor. -/
def givenBody (i : Invocation) (s : Sources) : Except Fault (Option Json) :=
  match i.file with
  | some path => (s.readFile path).bind payload
  | none => if i.edit then s.composed.bind payload else .ok none

section

variable {m : Type → Type} [Monad m]

/-- What is done with a record: its command line is rendered, its request previewed or sent. -/
def actOnRecord (i : Invocation) (t : Option (Transport m))
    (preview : Option (ReadyRequest → ExceptT Fault m Unit)) (sh : Option Shell)
    (o : Operation) (r : ResourceId) (body : Option Json) : ExceptT Fault m String :=
  match sh, preview with
  | some sh, _ => told id (i.rendered sh body (some r.text))
  | none, some preview => do
    let (_, q) ← told id
      (i.command.prepare i.bound (some (ResourceId.ofText r.text)) body i.apiVersion)
    preview q
    return ""
  | none, none => sendRecord t i.bound i.apiVersion o r body

/-- The invocation for every record of the input. -/
def runBulk (i : Invocation) (t : Option (Transport m))
    (preview : Option (ReadyRequest → ExceptT Fault m Unit)) (sh : Option Shell) (s : Sources) :
    ExceptT Fault m (Option String) := do
  let text ← i.command.bulk i.bound (i.actOnRecord t preview sh) (Text.lines s.input)
  return if preview.isSome && sh.isNone then none else some text

/-- What becomes of an invocation before anything is sent. -/
inductive Plan
  /-- The command line that reproduces the request. -/
  | rendered (text : String)
  | request (o : Operation) (q : ReadyRequest)

/-- The plan of an invocation for one request. -/
def plan (i : Invocation) (sh : Option Shell) (s : Sources) : Except Fault Plan := do
  let r ← i.identifier s
  let o ← (i.command.select i.bound r).mapError SelectFault.report
  let body ← if o.carriesBody then i.givenBody s else .ok none
  match o.carriesBody, sh with
  -- a shell is asked for in vain when the request has no body
  | true, some sh => return .rendered (← i.rendered sh body (r.map (·.text)))
  | _, _ =>
    let (o, q) ← i.command.prepare i.bound r body i.apiVersion
    return .request o q

/-- The invocation for one request. -/
def runSingle (i : Invocation) (t : Option (Transport m))
    (preview : Option (ReadyRequest → ExceptT Fault m Unit)) (sh : Option Shell) (s : Sources) :
    ExceptT Fault m (Option String) := do
  match ← told id (i.plan sh s) with
  | .rendered text => return some text
  | .request o q =>
    match preview with
    | some preview =>
      preview q
      return none
    | none => return some (← send t o q)

/-- Carries out an invocation. The result is the text to print; a preview has none. -/
def run (i : Invocation) (t : Option (Transport m))
    (preview : Option (ReadyRequest → ExceptT Fault m Unit)) (s : Sources) :
    ExceptT Fault m (Option String) := do
  let sh ← told id i.shell
  if i.stdin then i.runBulk t preview sh s
  else i.runSingle t preview sh s

end

end Invocation

end Restline
