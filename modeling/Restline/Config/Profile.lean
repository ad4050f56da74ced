import Restline.Validation

/-!
Profiles. A profile is one service: its address, where the token for it comes from, where the documents
of its commands are, and how requests are sent. Members that a profile does not know are kept as they
are, and so are those of its section on authorization.

* `Credential` : the section on authorization.
* `RequestLimits` : how requests are sent.
* `Profile` : the profiles, with `Profile.ofJson` and `Profile.toJson`.
-/

set_option autoImplicit false

namespace Restline

/-- A value that may be missing, as null where it is. -/
def Json.ofText? : Option String → Json
  | none => .null
  | some s => .str s

/-! ### Authorization -/

/-- The section of a profile on authorization: the kind, where the secret comes from, and members for
which the kind may have a use. -/
structure Credential where
  type : String := "bearer"
  source : String := "env:AZURE_ACCESS_TOKEN"
  others : Keyed Json := []

namespace Credential

/-- The fields of the section. -/
def fields : List Field := [.plain "type", .plain "source"]

/-- The section that an object gives. -/
def ofJson : Json → Checked Credential :=
  Checked.record fun ms =>
    (((fieldOr ms (.plain "type") "bearer" Checked.text).map Credential.mk).and
      (fieldOr ms (.plain "source") "env:AZURE_ACCESS_TOKEN" Checked.text)).map
      (fun c => c (unclaimed ms fields))

/-- The section as an object. -/
def toJson (c : Credential) : Json :=
  .obj ([("type", .str c.type), ("source", .str c.source)] ++ Json.membersWithout c.others)

end Credential

/-! ### Limits -/

/-- How requests are sent: how many seconds one may take, whether certificates are checked, and how
often a failed one is sent again. -/
structure RequestLimits where
  timeout : Int := 30
  verifySsl : Bool := true
  maxRetries : Int := 3
deriving DecidableEq, Repr

namespace RequestLimits

/-- The limits that an object gives. -/
def ofJson : Json → Checked RequestLimits :=
  Checked.record fun ms =>
    (((fieldOr ms (.plain "timeout") 30 Checked.int).map RequestLimits.mk).and
      (fieldOr ms (.plain "verify_ssl") true Checked.bool)).and
      (fieldOr ms (.plain "max_retries") 3 Checked.int)

/-- The limits as an object. -/
def toJson (l : RequestLimits) : Json :=
  .obj [("timeout", .int l.timeout), ("verify_ssl", .bool l.verifySsl),
    ("max_retries", .int l.maxRetries)]

end RequestLimits

/-! ### Profiles -/

/-- The address of the service where a profile gives none. -/
def defaultEndpoint : String := "https://management.azure.com"

/-- One service and how to talk to it. -/
structure Profile where
  name : String
  endpoint : String := defaultEndpoint
  metadataPath : Option String := none
  /-- Without this section requests carry no token. -/
  credential : Option Credential := some {}
  limits : RequestLimits := {}
  others : Keyed Json := []

namespace Profile

/-- The fields of a profile. -/
def fields : List Field :=
  ["name", "endpoint", "metadata_path", "auth", "request"].map Field.plain

/-- The section on authorization: absent it is the usual one, null it is none. -/
def credentialField (ms : Keyed Json) : Checked (Option Credential) :=
  match (Field.plain "auth").value? ms with
  | none => .valid (some {})
  | some _ => optionalField ms (.plain "auth") Credential.ofJson

/-- The profile that an object gives. -/
def ofJson : Json → Checked Profile :=
  Checked.record fun ms =>
    ((((((requiredField ms (.plain "name") Checked.text).map Profile.mk).and
      (fieldOr ms (.plain "endpoint") defaultEndpoint Checked.text)).and
      (optionalField ms (.plain "metadata_path") Checked.text)).and
      (credentialField ms)).and
      (fieldOr ms (.plain "request") {} RequestLimits.ofJson)).map
      (fun p => p (unclaimed ms fields))

/-- The profile as an object. -/
def toJson (p : Profile) : Json :=
  .obj ([("name", .str p.name), ("endpoint", .str p.endpoint),
      ("metadata_path", Json.ofText? p.metadataPath),
      ("auth", (p.credential.map Credential.toJson).getD .null),
      ("request", p.limits.toJson)]
    ++ Json.membersWithout p.others)

end Profile

end Restline
