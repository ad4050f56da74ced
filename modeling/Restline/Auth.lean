import Restline.Config.Resolution

/-!
Authorization. A scheme turns the section of a profile into fields and parameters for every request, or
says what is wrong with the section; schemes are registered under their names. One scheme is built in: it
sends a token that was issued already.

* `Grant` : the fields and parameters.
* `Scheme`, `Scheme.bearer` : a scheme, and the one that is built in.
* `Registry`, `Registry.authorize` : the schemes by their names, and what they grant a profile.
-/

set_option autoImplicit false

namespace Restline

/-- What authorizes a request: fields and query parameters. -/
structure Grant where
  fields : Keyed String := []
  params : Keyed String := []
deriving DecidableEq, Repr

/-- A failure to authorize. -/
def authFault (message : String) : Fault := { kind := .auth, message := message }

/-- A way to authorize requests. -/
structure Scheme where
  name : String
  /-- What is wrong with a section. -/
  problems : Credential → List String
  grant : Host → Credential → Except Fault Grant

namespace Scheme

/-- A token that was issued already, without blanks around it. -/
def bearerGrant (h : Host) (c : Credential) : Except Fault Grant := do
  let token := Text.trim (← secret h c.source)
  if token = "" then throw (authFault ("Empty access token" ++ sourceNote c.source))
  return { fields := [("Authorization", "Bearer " ++ token)] }

/-- The scheme for a token that was issued already. -/
def bearer : Scheme where
  name := "bearer"
  problems c := if c.source = "" then ["Bearer auth requires a 'source' for the token"] else []
  grant := bearerGrant

end Scheme

/-- The schemes by their names. -/
abbrev Registry := Keyed Scheme

namespace Registry

/-- The schemes with another one, in place of one of its name. -/
def register (r : Registry) (s : Scheme) : Registry := Keyed.put r s.name s

/-- The scheme that is built in. -/
def builtIn : Registry := register [] .bearer

/-- The names of the schemes, in order. -/
def names (r : Registry) : List String := Text.sorted (Keyed.keys r)

/-- The scheme of a name. -/
def find (r : Registry) (name : String) : Except Fault Scheme :=
  match Keyed.get? r name with
  | some s => .ok s
  | none =>
    let known := ", ".intercalate r.names
    .error (authFault ("No auth plugin registered for type '" ++ name ++ "'. Available types: "
      ++ (if known = "" then "(none)" else known)))

/-- A failure of the configuration is one to authorize. -/
def asAuthFault (f : Fault) : Fault := if f.kind = .config then authFault f.message else f

/-- What the schemes grant a section. -/
def grant (r : Registry) (h : Host) (c : Credential) : Except Fault Grant := do
  let s ← r.find c.type
  let problems := s.problems c
  if problems.isEmpty then (s.grant h c).mapError asAuthFault
  else throw (authFault ("; ".intercalate problems))

/-- What the schemes grant a profile; without a section it is nothing. -/
def authorize (r : Registry) (h : Host) (p : Profile) : Except Fault Grant :=
  match p.credential with
  | none => .ok {}
  | some c => r.grant h c

end Registry

end Restline
