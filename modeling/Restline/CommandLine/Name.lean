import Restline.Text.Case
import Restline.Text.Segments

/-!
Names of parameters. Every parameter has a name of lower-case letters, digits and underscores that is no
reserved word, made from the name of an option or from the key of an argument; names that are taken get
a number.

* `sanitize` : the name made from a text.
* `distinct` : names without repetition.
-/

set_option autoImplicit false

namespace Restline.ParamName

/-! ### Characters -/

/-- A capital letter. -/
def isCapital (c : Char) : Bool := 'A' ≤ c && c ≤ 'Z'

/-- A small letter. -/
def isSmall (c : Char) : Bool := 'a' ≤ c && c ≤ 'z'

/-- A decimal digit. -/
def isNumeral (c : Char) : Bool := '0' ≤ c && c ≤ '9'

/-- The characters of names; any other becomes an underscore. -/
def nameChar (c : Char) : Char :=
  if isCapital c || isSmall c || isNumeral c || c = '_' then c else '_'

/-! ### Words -/

/-- An underscore between a small letter or a digit and a capital. -/
def splitBeforeCapitals : List Char → List Char
  | a :: b :: r =>
    if (isSmall a || isNumeral a) && isCapital b then a :: '_' :: splitBeforeCapitals (b :: r)
    else a :: splitBeforeCapitals (b :: r)
  | cs => cs

/-- An underscore inside a run of capitals, before the last of them, when a small letter follows. -/
def splitCapitalRuns : List Char → List Char
  | a :: b :: c :: r =>
    if isCapital a && isCapital b && isSmall c then a :: '_' :: splitCapitalRuns (b :: c :: r)
    else a :: splitCapitalRuns (b :: c :: r)
  | cs => cs

/-- One underscore for every run of them. -/
def collapse : List Char → List Char
  | '_' :: '_' :: r => collapse ('_' :: r)
  | c :: r => c :: collapse r
  | [] => []

/-- The characters without the underscores at both ends. -/
def stripUnderscores (cs : List Char) : List Char :=
  Text.dropTrailing '_' (cs.dropWhile (· == '_'))

/-- Words that cannot be names. -/
def reserved : List String := [
  "False", "None", "True", "and", "as", "assert", "async", "await", "break", "class", "continue", "def",
  "del", "elif", "else", "except", "finally", "for", "from", "global", "if", "import", "in", "is",
  "lambda", "nonlocal", "not", "or", "pass", "raise", "return", "try", "while", "with", "yield"]

/-- The name with an underscore at the end if it is a reserved word. -/
def unreserve (s : String) : String := if reserved.contains s then s ++ "_" else s

/-- The characters of a name without regard to its beginning and to reserved words. -/
def bareChars (cs : List Char) : List Char :=
  stripUnderscores (collapse (((splitCapitalRuns (splitBeforeCapitals cs)).flatMap
    Text.lowerAsciiChar).map nameChar))

/-- A name that is not empty and does not begin with a digit. -/
def complete : List Char → List Char
  | [] => "param".toList
  | c :: r => if isNumeral c then '_' :: c :: r else c :: r

/-- The name made from a text. -/
def sanitize (s : String) : String := unreserve (String.ofList (complete (bareChars s.toList)))

/-! ### Repetition -/

/-- The names that every command uses itself. -/
def builtin : List String := ["ctx", "api_version", "id_", "stdin", "file", "edit", "print_cli"]

/-- The name with a number. -/
def numbered (name : String) (n : Nat) : String := name ++ "_" ++ toString n

/-- The first of the numbered names that is not used; the first argument bounds the search. -/
def firstFree (used : List String) (name : String) : Nat → Nat → String
  | 0, n => numbered name n
  | fuel + 1, n =>
    if used.contains (numbered name n) then firstFree used name fuel (n + 1) else numbered name n

/-- The name, or the first of its numbered forms from two on, that is not used. -/
def fresh (used : List String) (name : String) : String :=
  if used.contains name then firstFree used name used.length 2 else name

/-- The names in order, each fresh among those used before it. -/
def distinctFrom (used : List String) : List String → List String
  | [] => []
  | name :: r => fresh used name :: distinctFrom (fresh used name :: used) r

/-- The names without repetition and without those that every command uses itself. -/
def distinct (names : List String) : List String := distinctFrom builtin names

end Restline.ParamName
