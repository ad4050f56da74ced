/-!
Blank characters. Two sets are in use: the white space of the standard, which may surround a numeral,
and the larger set that trimming removes, which adds the four information separators.

* `isSpace`, `isBlank` : the two sets.
* `trim`, `trimLeft`, `trimRight` : a text without the blanks at both ends or at one.
* `isBlankText` : the text holds blanks only.
-/

set_option autoImplicit false

namespace Restline.Text

/-- White space of the standard. -/
def isSpace (c : Char) : Bool :=
  let n := c.toNat
  (9 ≤ n && n ≤ 13) || n == 0x20 || n == 0x85 || n == 0xA0 || n == 0x1680
    || (0x2000 ≤ n && n ≤ 0x200A) || n == 0x2028 || n == 0x2029 || n == 0x202F
    || n == 0x205F || n == 0x3000

/-- A character that trimming removes: white space or an information separator. -/
def isBlank (c : Char) : Bool :=
  isSpace c || (0x1C ≤ c.toNat && c.toNat ≤ 0x1F)

/-- The characters without those of the class at either end. -/
def trimBoth (p : Char → Bool) (cs : List Char) : List Char :=
  ((cs.dropWhile p).reverse.dropWhile p).reverse

/-- The text without the blanks at its ends. -/
def trim (s : String) : String :=
  String.ofList (trimBoth isBlank s.toList)

/-- The text without the blanks at its front. -/
def trimLeft (s : String) : String := String.ofList (s.toList.dropWhile isBlank)

/-- The text without the blanks at its end. -/
def trimRight (s : String) : String := String.ofList ((s.toList.reverse.dropWhile isBlank).reverse)

/-- The text holds blanks only. -/
def isBlankText (s : String) : Bool :=
  s.toList.all isBlank

end Restline.Text
