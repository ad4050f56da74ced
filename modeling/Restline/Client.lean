import Restline.Auth
import Restline.Console
import Restline.Operation.Request

/-!
The client of a service. It sends requests below the address of a profile with what authorizes them. A
request that meets a failure of the network or of the service is sent again, up to the limit of the
profile, after pauses that double each time; what the last attempt meets counts. Instead of being sent, a
request can be shown, with the field that authorizes it hidden.

* `Client`, `Client.enter` : a client, and how it is made from a profile.
* `Client.fields`, `Client.params` : what a request carries.
* `Client.attempt` : one request after another until one counts.
* `Client.execute`, `Client.preview` : a request is sent or shown.
-/

set_option autoImplicit false

namespace Restline

/-- A client of a service. -/
structure Client where
  profile : Profile
  /-- The address of the service, with a slash at its end. -/
  base : Web.Address
  grant : Grant := {}

namespace Client

/-! ### Making a client -/

/-- The address of a service, with a slash at its end. -/
def baseOf (endpoint : String) : Except Fault Web.Address :=
  match (Web.Address.ofText? endpoint).bind Web.Address.asBase? with
  | some a => .ok a
  | none => .error (.ofCrash (.transport .invalidUrl))

/-- The client for a profile; without schemes its requests are not authorized. -/
def enter (schemes : Option Registry) (h : Host) (profile : Profile) : Except Fault Client := do
  let base ← baseOf profile.endpoint
  let grant ← match schemes with
    | some r => r.authorize h profile
    | none => .ok {}
  return ⟨profile, base, grant⟩

/-! ### What a request carries -/

/-- The fields of a request: those that authorize it, and the kind of response that is wanted. -/
def fields (c : Client) : Keyed String :=
  Keyed.union (Keyed.ofPairs c.grant.fields) [("Accept", "application/json")]

/-- The parameters of a request: those that authorize it, its own laid over them, and the version laid
over both. -/
def params (c : Client) (call : Call) : Keyed Json :=
  let granted := Keyed.ofPairs (c.grant.params.map (fun p => (p.1, Json.str p.2)))
  let own := granted.union call.query
  match call.version with
  | some v => own.put versionParam (.str v)
  | none => own

/-- The request for a call. -/
def request (c : Client) (call : Call) : Except Crash WebRequest :=
  WebRequest.make c.base call.method call.path (c.params call) c.fields call.body

/-- The address of a call as it is shown. -/
def shownAddress (c : Client) (call : Call) : String := c.profile.endpoint ++ call.path

/-! ### Sending -/

/-- The pause after an attempt, in seconds; attempts count from zero. -/
def delay (attempt : Nat) : Nat := Nat.pow 2 attempt

/-- How a further attempt is announced. -/
def announcement (cause : String) (maxRetries : Int) (attempt : Nat) : String :=
  cause ++ ", retrying in " ++ toString (delay attempt) ++ "s (attempt " ++ toString (attempt + 1)
    ++ "/" ++ toString maxRetries ++ ")"

/-- The failure to reach the service. -/
def unreachable (maxRetries : Int) (message : String) : Fault :=
  { kind := .connection
    message := "Connection failed after " ++ toString (maxRetries + 1) ++ " attempts: " ++ message }

/-- The failure of a limit that allows no attempt. -/
def noAttempt : Fault := { kind := .connection, message := "Request failed after all retries" }

/-- A failure that another attempt may not meet. -/
def isRetried (f : TransportFailure) : Bool := f.isNetwork || f.isTimeout

/-- Why an outcome calls for another attempt, if it does. -/
def retryCause? : WebOutcome → Option String
  | .failed f message => if isRetried f then some ("Connection error: " ++ message) else none
  | .reply r => if 500 ≤ r.status then some ("Server error " ++ toString r.status) else none

/-- What counts of the last outcome. -/
def settle (maxRetries : Int) : WebOutcome → Except Fault Reply
  | .reply r => .ok r
  | .failed f message =>
    .error (if isRetried f then unreachable maxRetries message else .ofCrash (.transport f))

/-- Attempts, of which `left` may still be made; `attempt` of them were. -/
def attempts (con : Console) (maxRetries : Int) (q : WebRequest) :
    (left attempt : Nat) → Act Reply
  | 0, _ => throw noAttempt
  | left + 1, attempt => do
    let outcome ← Act.transmit q
    match left, retryCause? outcome with
    -- the outcome of the last attempt counts, whatever it is
    | 0, _ | _, none => Act.of (settle maxRetries outcome)
    | _ + 1, some cause =>
      con.debug (announcement cause maxRetries attempt)
      Act.pause (delay attempt)
      attempts con maxRetries q left (attempt + 1)

/-- How many attempts a limit allows. -/
def allowed (maxRetries : Int) : Nat := (maxRetries + 1).toNat

/-- Sends the request of a call, again if need be. -/
def sendCall (c : Client) (con : Console) (call : Call) : Act Reply := do
  let maxRetries := c.profile.limits.maxRetries
  -- without attempts no request is made, so nothing in it can be wrong
  if allowed maxRetries = 0 then throw noAttempt
  let q ← Act.of ((c.request call).mapError Fault.ofCrash)
  attempts con maxRetries q (allowed maxRetries) 0

/-- Sends the request of a call and tells what happens. -/
def execute (c : Client) (con : Console) (call : Call) : Act Reply := do
  con.debug (call.method ++ " " ++ c.shownAddress call)
  let reply ← c.sendCall con call
  con.debug ("Response status: " ++ toString reply.status)
  return reply

/-! ### Showing -/

/-- A field as it is shown; the one that authorizes is hidden. -/
def shownField (f : String × String) : String :=
  let value := if Text.lowerAscii f.1 = "authorization" then "Bearer ***" else f.2
  "  Header: " ++ f.1 ++ ": " ++ value

/-- A parameter as it is shown. -/
def shownParam (p : String × Json) : String := "  Param: " ++ p.1 ++ "=" ++ p.2.display

/-- The lines that show a call. -/
def previewLines (c : Client) (call : Call) : List String :=
  ("[dry-run] " ++ call.method ++ " " ++ c.shownAddress call)
    :: (c.fields.map shownField ++ (c.params call).map shownParam
      ++ (call.body.map (fun j => "  Body (JSON): " ++ j.write Json.prettyAscii)).toList)

/-- Says each line. -/
def sayAll (con : Console) : List String → Act Unit
  | [] => pure ()
  | line :: rest => do
    con.info line
    sayAll con rest

/-- Shows the request of a call. -/
def preview (c : Client) (con : Console) (call : Call) : Act Unit := sayAll con (c.previewLines call)

end Client

end Restline
