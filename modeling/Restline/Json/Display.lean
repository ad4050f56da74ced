import Restline.Json.Basic
import Restline.Text.Quoted

/-!
The plain display of a value, used where a value becomes part of a message or of an address: the words
`None`, `True` and `False`, a text as it stands, and inside lists and objects a text in quotes.

* `Json.display` : the display of a value.
-/

set_option autoImplicit false

namespace Restline.Json

open Number (Binary64)

/-- The words for the numbers that are not finite. -/
def displaySpelling : Binary64.Spelling := ⟨"nan", "inf"⟩

mutual

/-- The display of a value inside another. -/
def displayInner : Json → String
  | .null => "None"
  | .bool true => "True"
  | .bool false => "False"
  | .int n => toString n
  | .float x => x.toText displaySpelling
  | .str s => Text.quoted s
  | .arr items => "[" ++ ", ".intercalate (displayItems items) ++ "]"
  | .obj members => "\x7b" ++ ", ".intercalate (displayMembers members) ++ "\x7d"

/-- The displays of items. -/
def displayItems : List Json → List String
  | [] => []
  | j :: r => displayInner j :: displayItems r

/-- The displays of members. -/
def displayMembers : List (String × Json) → List String
  | [] => []
  | (k, j) :: r => (Text.quoted k ++ ": " ++ displayInner j) :: displayMembers r

end

/-- The display of a value: a text as it stands, anything else as inside another value. -/
def display : Json → String
  | .str s => s
  | j => displayInner j

end Restline.Json
