import Restline.Text.Blank

/-!
Help texts without their indent. The first line loses the blanks at its front, the others lose the blanks
that they have in common, and empty lines at both ends go.

* `expandTabs` : blanks in place of tabs, up to the next column that is a multiple of eight.
* `withoutIndent` : the text without its indent.
-/

set_option autoImplicit false

namespace Restline.Text

/-- Blanks in place of tabs, from a column on. -/
def expandTabsFrom : Nat → List Char → List Char
  | _, [] => []
  | column, '\t' :: r =>
    let n := 8 - column % 8
    List.replicate n ' ' ++ expandTabsFrom (column + n) r
  | column, c :: r => c :: expandTabsFrom (if c = '\n' ∨ c = '\r' then 0 else column + 1) r

/-- Blanks in place of tabs. -/
def expandTabs (cs : List Char) : List Char := expandTabsFrom 0 cs

/-- The number of blanks at the front of a line, or nothing for a line of blanks. -/
def indent? (line : List Char) : Option Nat :=
  if line.all isBlank then none else some (line.takeWhile isBlank).length

/-- The indent that the lines have in common, none if all are blank. -/
def commonIndent (ls : List (List Char)) : Nat :=
  match ls.filterMap indent? with
  | [] => 0
  | n :: ns => ns.foldl min n

/-- The lines without empty ones at both ends. -/
def trimLines (ls : List (List Char)) : List (List Char) :=
  ((ls.dropWhile List.isEmpty).reverse.dropWhile List.isEmpty).reverse

/-- The text without its indent. -/
def withoutIndent (s : String) : String :=
  match (expandTabs s.toList).splitOn '\n' with
  | [] => ""
  | first :: rest =>
    let rest := rest.map (·.drop (commonIndent rest))
    String.ofList (['\n'].intercalate (trimLines (first.dropWhile isBlank :: rest)))

end Restline.Text
