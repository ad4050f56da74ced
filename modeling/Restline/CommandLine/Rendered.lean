import Restline.Metadata.Command
import Restline.Shell
import Restline.Text.Digit
import Restline.Text.Integer
import Restline.Text.Segments

/-!
Command lines that reproduce a request. The options that were given come first, then the identifier,
then an option for every argument of a named group whose key leads to a value in the body. The key of
such an argument begins with a variable for parameters, and the rest of it is the way into the body:
names of members, and positions in lists.

* `Json.follow` : the value at the end of a way.
* `Arg.bodyWay?` : the way that the key of an argument names.
* `Rendering.options` : the options.
-/

set_option autoImplicit false

namespace Restline

/-- A position that reads as a digit but is no decimal number. -/
inductive RenderFault
  | badPosition
deriving DecidableEq, Repr

/-- The failure as it is told. -/
def RenderFault.report : RenderFault → Fault
  | .badPosition => .ofCrash .badValue

/-! ### Ways into values -/

/-- The position that a text names: digits only, which must form a decimal number. -/
def Json.position? (s : String) : Except RenderFault (Option Nat) :=
  if !s.isEmpty && s.toList.all Text.isDigit then
    match Text.ofUnsigned? s.toList with
    | some n => .ok (some n)
    | none => .error .badPosition
  else .ok none

/-- The value at the end of a way through objects and lists, if there is one. -/
def Json.follow : Json → List String → Except RenderFault (Option Json)
  | j, [] => .ok (some j)
  | .obj ms, s :: rest =>
    match Keyed.get? ms s with
    | some j => j.follow rest
    | none => .ok none
  | .arr items, s :: rest => do
    match ← Json.position? s with
    | none => return none
    | some n =>
      match items[n]? with
      | some j => j.follow rest
      | none => return none
  | _, _ :: _ => .ok none

/-- The way into the body that the key of the argument names, if it names one. -/
def Arg.bodyWay? (a : Arg) : Option (List String) :=
  match Text.segments '.' a.var with
  | root :: way =>
    if root.startsWith "$" && Text.contains (Text.lowerAscii root) "parameters" then some way
    else none
  | [] => none

/-! ### Options -/

/-- What a command line is made from. -/
structure Rendering where
  shell : Shell
  argGroups : List ArgGroup
  /-- The options that were given, with their values. -/
  supplied : List (String × Option String) := []
  body : Option Json := none
  resourceId : Option String := none

namespace Rendering

/-- The options that say where a body comes from; they have no place in the result. -/
def skipped : List String := ["print-cli", "stdin", "edit", "e", "file", "f"]

/-- The options that were given. -/
def suppliedOptions (r : Rendering) : List String :=
  (r.supplied.filter (fun o => !skipped.contains o.1)).map
    (fun o => renderOption o.1 (o.2.map r.shell.escapeText))

/-- The option of the identifier. -/
def idOption (r : Rendering) : List String :=
  (r.resourceId.map (fun id => renderOption "id" (some (r.shell.escapeText id)))).toList

/-- The option of an argument whose key leads to a value in the body. -/
def argOption (sh : Shell) (body : Json) (a : Arg) : Except RenderFault (Option String) :=
  match a.bodyWay?, a.options with
  | some way, name :: _ => do
    let j ← body.follow way
    return j.map (fun j => renderOption name (some (sh.escape j)))
  | _, _ => .ok none

/-- The options of arguments, in order. -/
def argOptions (sh : Shell) (body : Json) : List Arg → Except RenderFault (List String)
  | [] => .ok []
  | a :: r => do
    let o ← argOption sh body a
    let os ← argOptions sh body r
    return o.toList ++ os

/-- The arguments of named groups. -/
def bodyArgs (r : Rendering) : List Arg :=
  (r.argGroups.filter (fun g => g.name != "")).flatMap (·.args)

/-- All options. -/
def options (r : Rendering) : Except RenderFault (List String) := do
  let fromBody ← match r.body with
    | none => .ok []
    | some body => argOptions r.shell body r.bodyArgs
  return r.suppliedOptions ++ r.idOption ++ fromBody

end Rendering

end Restline
