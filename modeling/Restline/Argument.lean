import Restline.Keyed
import Restline.Text.Quoted

/-!
Bound arguments. The values that a command line or a record gives are bound under the keys of the
arguments; requests are built from nothing else.

* `Value` : text, a whole number, a truth value, or JSON text.
* `Bound` : the bound values in order, with `Bound.ofOptional` and `Bound.merged`.
-/

set_option autoImplicit false

namespace Restline

/-- The value of an argument. -/
inductive Value
  | text (s : String)
  | int (n : Int)
  | bool (b : Bool)
  /-- JSON text, to be read where the value is used. -/
  | raw (s : String)
deriving DecidableEq, Repr

namespace Value

/-- The value as it stands in paths and queries. -/
def toText : Value → String
  | .text s => s
  | .int n => toString n
  | .bool b => if b then "true" else "false"
  | .raw s => s

/-- The value as a message shows it. -/
def shown : Value → String
  | .text s => Text.quoted s
  | .int n => toString n
  | .bool b => if b then "True" else "False"
  | .raw s => Text.quoted s

end Value

/-- Bound values under the keys of their arguments. -/
abbrev Bound := Keyed Value

namespace Bound

/-- The values that are there. -/
def ofOptional (l : Keyed (Option Value)) : Bound :=
  l.filterMap (fun e => e.2.map (e.1, ·))

/-- The values with others laid over them; a value that is absent there is taken away. -/
def merged (b : Bound) (extra : Keyed (Option Value)) : Bound :=
  ofOptional (Keyed.union (b.map (fun e => (e.1, some e.2))) extra)

end Bound

end Restline
