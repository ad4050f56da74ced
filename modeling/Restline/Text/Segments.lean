/-!
Parts of texts: the segments between separators, the lines of a text, and replacement of a part
wherever it stands.

* `segments` : what stands between separators; a text has one segment more than separators.
* `withoutTrailing` : a text without the copies of a character at its end.
* `lines` : the lines of a text, each with its line feed.
* `replaceAll` : replacement from the left, without looking into what was put in.
* `headAndTail` : what stands before and after the first copy of a character.
-/

set_option autoImplicit false

namespace Restline.Text

/-! ### Segments -/

/-- What stands between the separators. -/
def segments (separator : Char) (s : String) : List String :=
  (s.toList.splitOn separator).map String.ofList

/-- The characters without those equal to one at the end. -/
def dropTrailing (c : Char) (cs : List Char) : List Char :=
  (cs.reverse.dropWhile (· == c)).reverse

/-- The text without the copies of a character at its end. -/
def withoutTrailing (c : Char) (s : String) : String := String.ofList (dropTrailing c s.toList)

/-- The last segment. -/
def lastSegment (separator : Char) (s : String) : String :=
  ((segments separator s).getLast?).getD ""

/-- What stands before the first copy of a character and what after it, if there is one. -/
def headAndTail (c : Char) (s : String) : String × Option String :=
  match s.toList.span (· != c) with
  | (head, _ :: tail) => (String.ofList head, some (String.ofList tail))
  | (_, []) => (s, none)

/-! ### Lines -/

/-- The lines of characters, each with its line feed. -/
def charLines : List Char → List (List Char)
  | [] => []
  | '\n' :: r => ['\n'] :: charLines r
  | c :: r =>
    match charLines r with
    | [] => [[c]]
    | l :: ls => (c :: l) :: ls

/-- The lines of a text, each with its line feed. -/
def lines (s : String) : List String := (charLines s.toList).map String.ofList

/-! ### Replacement -/

/-- The characters with `new` for every copy of `part`, found from the left; `skip` characters of a
copy are still to be passed over. -/
def replaceFrom (part new : List Char) : Nat → List Char → List Char
  | _, [] => []
  | skip + 1, _ :: r => replaceFrom part new skip r
  | 0, c :: r =>
    if part.isPrefixOf (c :: r) then new ++ replaceFrom part new (part.length - 1) r
    else c :: replaceFrom part new 0 r

/-- The text with `new` for every copy of a part that is not empty. -/
def replaceAll (part new : String) (s : String) : String :=
  String.ofList (replaceFrom part.toList new.toList 0 s.toList)

/-- The part stands somewhere in the characters. -/
def occursIn (part : List Char) : List Char → Bool
  | [] => part.isEmpty
  | c :: r => part.isPrefixOf (c :: r) || occursIn part r

/-- The part stands somewhere in the text. -/
def contains (s part : String) : Bool := occursIn part.toList s.toList

end Restline.Text
