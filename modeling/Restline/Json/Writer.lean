import Restline.Json.Basic
import Restline.Text.Integer
import Restline.Text.Quoted

/-!
Writing JSON. One record fixes the separators, the indent and whether characters outside ASCII are
escaped; the layouts in use are values of it.

* `Json.Layout` : the record, with `compact`, `spaced`, `pretty` and `prettyAscii`.
* `Json.write` : the text of a value.
* `Json.isWritable` : every whole number in a value is short enough for a numeral.
-/

set_option autoImplicit false

namespace Restline.Json

open Number (Binary64)

/-- How values are laid out. -/
structure Layout where
  /-- What stands between two items, before a line break. -/
  itemSeparator : String
  /-- What stands between a name and its value. -/
  nameSeparator : String
  /-- The indent of each level, or nothing when all stands on one line. -/
  indent : Option Nat
  /-- Characters outside printable ASCII are escaped. -/
  ascii : Bool

/-- One line without blanks. -/
def compact : Layout := ⟨",", ":", none, false⟩

/-- One line with a blank after each separator, in ASCII. -/
def spaced : Layout := ⟨", ", ": ", none, true⟩

/-- An item a line, indented by two. -/
def pretty : Layout := ⟨",", ": ", some 2, false⟩

/-- An item a line, indented by two, in ASCII. -/
def prettyAscii : Layout := ⟨",", ": ", some 2, true⟩

/-- A code unit as an escape of four digits. -/
def unitEscape (n : Nat) : List Char := '\\' :: 'u' :: Text.hexDigits 4 n

/-- A character beyond the first plane as the escapes of its two halves, any other as one. -/
def charEscape (c : Char) : List Char :=
  if c.toNat < 0x10000 then unitEscape c.toNat
  else
    let n := c.toNat - 0x10000
    unitEscape (0xD800 + n / 0x400) ++ unitEscape (0xDC00 + n % 0x400)

/-- How a character stands in a text. -/
def textChar (ascii : Bool) (c : Char) : List Char :=
  match c with
  | '"' => ['\\', '"']
  | '\\' => ['\\', '\\']
  | '\n' => ['\\', 'n']
  | '\r' => ['\\', 'r']
  | '\t' => ['\\', 't']
  | '\x08' => ['\\', 'b']
  | '\x0c' => ['\\', 'f']
  | c =>
    if c.toNat < 0x20 then unitEscape c.toNat
    else if ascii && 0x7E < c.toNat then charEscape c
    else [c]

/-- A text between double quotes. -/
def textOf (ascii : Bool) (s : String) : String :=
  String.ofList ('"' :: (s.toList.flatMap (textChar ascii) ++ ['"']))

/-- The words for the numbers that are not finite. -/
def spelling : Binary64.Spelling := ⟨"NaN", "Infinity"⟩

/-- The line break and the indent of a level, or nothing on one line. -/
def Layout.lineBreak (l : Layout) (depth : Nat) : String :=
  match l.indent with
  | none => ""
  | some n => "\n" ++ String.ofList (List.replicate (n * depth) ' ')

mutual

/-- The text of a value at a level. -/
def writeAt (l : Layout) (depth : Nat) : Json → String
  | .null => "null"
  | .bool true => "true"
  | .bool false => "false"
  | .int n => toString n
  | .float x => x.toText spelling
  | .str s => textOf l.ascii s
  | .arr [] => "[]"
  | .arr (j :: r) =>
    "[" ++ l.lineBreak (depth + 1) ++ writeAt l (depth + 1) j ++ writeItems l (depth + 1) r
      ++ l.lineBreak depth ++ "]"
  | .obj [] => "\x7b\x7d"
  | .obj ((k, j) :: r) =>
    "\x7b" ++ l.lineBreak (depth + 1) ++ textOf l.ascii k ++ l.nameSeparator
      ++ writeAt l (depth + 1) j ++ writeMembers l (depth + 1) r ++ l.lineBreak depth ++ "\x7d"

/-- The items after the first. -/
def writeItems (l : Layout) (depth : Nat) : List Json → String
  | [] => ""
  | j :: r => l.itemSeparator ++ l.lineBreak depth ++ writeAt l depth j ++ writeItems l depth r

/-- The members after the first. -/
def writeMembers (l : Layout) (depth : Nat) : List (String × Json) → String
  | [] => ""
  | (k, j) :: r =>
    l.itemSeparator ++ l.lineBreak depth ++ textOf l.ascii k ++ l.nameSeparator ++ writeAt l depth j
      ++ writeMembers l depth r

end

/-- The text of a value. -/
def write (l : Layout) (j : Json) : String := writeAt l 0 j

/-! ### Values that can be written -/

mutual

/-- No whole number in the value has more digits than a numeral may have. -/
def isWritable : Json → Bool
  | .int n => (Nat.toDigits 10 n.natAbs).length ≤ Text.maxDigits
  | .arr items => allWritable items
  | .obj members => membersWritable members
  | _ => true

/-- No whole number in the items is too long. -/
def allWritable : List Json → Bool
  | [] => true
  | j :: r => j.isWritable && allWritable r

/-- No whole number in the members is too long. -/
def membersWritable : List (String × Json) → Bool
  | [] => true
  | (_, j) :: r => j.isWritable && membersWritable r

end

end Restline.Json
