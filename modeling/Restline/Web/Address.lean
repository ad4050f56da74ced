import Restline.Text.Integer
import Restline.Web.HostName

/-!
Addresses on the web. An address has a scheme, an authority, a path, a query and a fragment, any of which
may be missing. Each part is brought into one form: what has no place in it is percent-encoded, the port
that the scheme has anyway is left out, and dots among the names of an absolute path are resolved.

* `Address` : the parts, with `Address.ofText?` and `Address.toText`.
* `Address.asBase`, `Address.below?` : a path below the address of a service.
* `Address.withQuery?` : another query.
-/

set_option autoImplicit false

namespace Restline.Web

/-- An address, with each part in its one form. -/
structure Address where
  scheme : String := ""
  userInfo : String := ""
  host : String := ""
  port : Option Int := none
  path : String := ""
  query : Option String := none
  fragment : Option String := none
deriving DecidableEq, Repr

namespace Address

/-! ### Sets of characters -/

/-- A visible character or a blank, in ASCII. -/
def isAsciiText (c : Char) : Bool := ' ' ≤ c && c ≤ '~'

/-- A character of ASCII that is none of these. -/
def isAsciiBut (cs : List Char) (c : Char) : Bool := isAsciiText c && !cs.contains c

/-- Characters that stay as they are in a fragment. -/
def fragmentSafe : Char → Bool := isAsciiBut [' ', '"', '<', '>', '`']

/-- Characters that stay as they are in a query. -/
def querySafe : Char → Bool := isAsciiBut [' ', '"', '#', '<', '>']

/-- Characters that stay as they are in a path. -/
def pathSafe : Char → Bool :=
  isAsciiBut [' ', '"', '#', '<', '>', '?', '`', '\x7b', '\x7d']

/-- Characters that stay as they are in the name and the password before a host. -/
def userInfoSafe : Char → Bool :=
  isAsciiBut [' ', '"', '#', '<', '>', '?', '`', '\x7b', '\x7d', '/', ';', '=', '@', '[', '\\', ']', '^', '|']

/-! ### Making an address -/

/-- The longest address, and the longest part of one. -/
def maxLength : Nat := 65536

/-- The text may be part of an address: it is not too long, and no control character is in it. -/
def isAdmissible (s : String) : Bool :=
  s.length ≤ maxLength && s.toList.all (fun c => ' ' ≤ c && c ≠ '\x7f')

/-- The port that a scheme has anyway. -/
def usualPort? (scheme : String) : Option Int :=
  if scheme = "http" ∨ scheme = "ws" then some 80
  else if scheme = "https" ∨ scheme = "wss" then some 443
  else if scheme = "ftp" then some 21
  else none

/-- The port that a text gives; the usual one is none. -/
def port? (scheme : String) (s : String) : Option (Option Int) :=
  if s = "" then some none
  else (Text.ofNumeral? s).map (fun n => if usualPort? scheme = some n then none else some n)

/-- What an authority is made of: the name and the password, the host, and the port. -/
def splitAuthority (authority : String) : String × String × String :=
  let cs := authority.toList
  let afterAt := (cs.reverse.takeWhile (· != '@')).reverse
  let (userInfo, hostAndPort) :=
    if cs.contains '@' then (cs.take (cs.length - afterAt.length - 1), afterAt) else ([], cs)
  let (host, port) :=
    if hostAndPort.head? = some '[' && hostAndPort.contains ']' then
      let port := (hostAndPort.reverse.takeWhile (· != ']')).reverse
      (hostAndPort.take (hostAndPort.length - port.length), port)
    else hostAndPort.span (· != ':')
  let port := if port.head? = some ':' then port.drop 1 else port
  (String.ofList userInfo, String.ofList host, String.ofList port)

/-- The names of a path after those of its part that was read, with the dots among them resolved. -/
def resolve (done : List String) : List String → List String
  | [] => done
  | name :: rest =>
    if name = "." then resolve done rest
    else if name = ".." then
      resolve (if done = [] ∨ done = [""] then done else done.dropLast) rest
    else resolve (done ++ [name]) rest

/-- The path with the dots among its names resolved. -/
def resolvePath (path : String) : String :=
  let names := Text.segments '/' path
  if names.contains "." || names.contains ".." then "/".intercalate (resolve [] names) else path

/-- An address of parts as they may come; nothing when one has no place in an address. -/
def make? (scheme authority path : String) (query fragment : Option String) : Option Address := do
  let parts := [scheme, authority, path] ++ query.toList ++ fragment.toList
  if !parts.all isAdmissible then none
  let (userInfo, host, port) := splitAuthority authority
  let host ← HostName.normal? host
  let port ← port? scheme port
  let userInfo := Percent.encode userInfoSafe userInfo
  let hasAuthority := userInfo != "" || host != "" || port.isSome
  if hasAuthority && path != "" && !path.startsWith "/" then none
  if scheme == "" && !hasAuthority && (path.startsWith "//" || path.startsWith ":") then none
  let path := if scheme != "" || hasAuthority then resolvePath path else path
  return {
    scheme := String.ofList (scheme.toList.map Char.toLower)
    userInfo := userInfo
    host := host
    port := port
    path := Percent.encode pathSafe path
    query := query.map (Percent.encode querySafe)
    fragment := fragment.map (Percent.encode fragmentSafe) }

/-! ### Reading and writing -/

/-- The scheme in front of a colon, and what follows; it may be empty. -/
def splitScheme (s : String) : String × String :=
  let isSchemeChar (c : Char) : Bool := c.isAlphanum || c == '+' || c == '.' || c == '-'
  let (scheme, rest) := s.toList.span isSchemeChar
  match rest with
  | ':' :: rest =>
    if scheme.isEmpty || (scheme.head?.any Char.isAlpha) then
      (String.ofList scheme, String.ofList rest)
    else ("", s)
  | _ => ("", s)

/-- The authority behind two slashes, and what follows. -/
def splitHost (s : String) : String × String :=
  match s.toList with
  | '/' :: '/' :: r =>
    let (authority, rest) := r.span (fun c => c != '/' && c != '?' && c != '#')
    (String.ofList authority, String.ofList rest)
  | _ => ("", s)

/-- The address that a text stands for. -/
def ofText? (s : String) : Option Address := do
  if !isAdmissible s then none
  let (scheme, rest) := splitScheme s
  let (authority, rest) := splitHost rest
  let (rest, fragment) := Text.headAndTail '#' rest
  let (path, query) := Text.headAndTail '?' rest
  make? scheme authority path query fragment

/-- The authority as it is written. -/
def authority (a : Address) : String :=
  (if a.userInfo = "" then "" else a.userInfo ++ "@")
    ++ (if a.host.toList.contains ':' then "[" ++ a.host ++ "]" else a.host)
    ++ (match a.port with
      | some n => ":" ++ toString n
      | none => "")

/-- The address as it is written. -/
def toText (a : Address) : String :=
  (if a.scheme = "" then "" else a.scheme ++ ":")
    ++ (if a.authority = "" then "" else "//" ++ a.authority)
    ++ a.path
    ++ (match a.query with
      | some q => "?" ++ q
      | none => "")
    ++ (match a.fragment with
      | some f => "#" ++ f
      | none => "")

/-! ### Addresses of services -/

/-- The path and the query. -/
def target (a : Address) : String :=
  (if a.path = "" then "/" else a.path)
    ++ (match a.query with
      | some q => "?" ++ q
      | none => "")

/-- The address with another path and query. -/
def withTarget? (a : Address) (target : String) : Option Address :=
  let (path, query) := Text.headAndTail '?' target
  make? a.scheme a.authority path query a.fragment

/-- The address with another query, or without one. -/
def withQuery? (a : Address) (query : Option String) : Option Address :=
  make? a.scheme a.authority a.path query a.fragment

/-- The address of a service, with a slash at its end. -/
def asBase? (a : Address) : Option Address :=
  if a.target.endsWith "/" then some a else a.withTarget? (a.target ++ "/")

/-- The slashes at the front of a text are left out. -/
def withoutLeadingSlashes (s : String) : String := String.ofList (s.toList.dropWhile (· == '/'))

/-- What a path leads to below the address of a service; a full address stands for itself. -/
def below? (base : Address) (path : String) : Option Address := do
  let a ← ofText? path
  if a.scheme != "" && a.host != "" then return a
  else base.withTarget? (base.target ++ withoutLeadingSlashes a.target)

/-- The name and the password before the host, as bytes. -/
def credentials? (a : Address) : Option (List UInt8 × List UInt8) :=
  let (name, password) := Text.headAndTail ':' a.userInfo
  let password := password.getD ""
  if name = "" ∧ password = "" then none else some (Percent.decode name, Percent.decode password)

end Address

end Restline.Web
