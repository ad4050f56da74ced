import Restline.Json.Basic
import Restline.Text.Integer

/-!
Reading JSON. Beside the values of the standard the reader takes the words `NaN`, `Infinity` and
`-Infinity`; a repeated name keeps its first place and takes its last value; a whole number of more
than `Text.maxDigits` digits is refused, and an overflowing one with a fraction or an exponent is
infinite.

A fault is located by how many characters were left, so that no position is carried along.

* `Json.Expected` : what was malformed.
* `Json.ReadFault` : a malformed place or an overlong numeral.
* `Json.read` : the value of a text.
-/

set_option autoImplicit false

namespace Restline

open Number (Binary64)

namespace Json

/-! ### Faults -/

/-- What was expected or malformed at a place. -/
inductive Expected
  | value
  | name
  | colon
  | comma
  | endOfText
  | closingQuote
  | printable
  | escape
  | unicodeEscape
  | noByteOrderMark
deriving DecidableEq, Repr

/-- Why a text is no JSON value. -/
inductive ReadFault
  /-- Something malformed, with how many characters were left there. -/
  | malformed (what : Expected) (left : Nat)
  /-- A whole number with too many digits. -/
  | overlong (digits : Nat)
deriving DecidableEq, Repr

/-- What was expected, in words. -/
def Expected.message : Expected → String
  | .value => "Expecting value"
  | .name => "Expecting property name enclosed in double quotes"
  | .colon => "Expecting ':' delimiter"
  | .comma => "Expecting ',' delimiter"
  | .endOfText => "Extra data"
  | .closingQuote => "Unterminated string starting at"
  | .printable => "Invalid control character at"
  | .escape => "Invalid \\escape"
  | .unicodeEscape => "Invalid \\uXXXX escape"
  | .noByteOrderMark => "Unexpected UTF-8 BOM (decode using utf-8-sig)"

/-- The line and the column of a position, both from one. -/
def lineAndColumn (cs : List Char) (position : Nat) : Nat × Nat :=
  let before := cs.take position
  (before.count '\n' + 1, (before.reverse.takeWhile (· != '\n')).length + 1)

/-- The fault in words, for the text in which it was found. -/
def ReadFault.message (text : String) : ReadFault → String
  | .malformed what left =>
    let cs := text.toList
    let position := cs.length - left
    let (line, column) := lineAndColumn cs position
    what.message ++ ": line " ++ toString line ++ " column " ++ toString column
      ++ " (char " ++ toString position ++ ")"
  | .overlong digits =>
    "Exceeds the limit (4300 digits) for integer string conversion: value has "
      ++ toString digits ++ " digits; use sys.set_int_max_str_digits() to increase the limit"

/-- A fault where the given characters are left. -/
def fault {α : Type} (what : Expected) (rest : List Char) : Except ReadFault α :=
  .error (.malformed what rest.length)

/-! ### Blanks and words -/

/-- A blank between the parts of a value. -/
def isGap (c : Char) : Bool := c == ' ' || c == '\t' || c == '\n' || c == '\r'

/-- The characters after the blanks. -/
def skipGaps (cs : List Char) : List Char := cs.dropWhile isGap

/-- The characters after a word, if they begin with it. -/
def afterWord? : List Char → List Char → Option (List Char)
  | [], cs => some cs
  | w :: ws, c :: cs => if w = c then afterWord? ws cs else none
  | _ :: _, [] => none

/-- The words that stand for a value. -/
def words : List (String × Json) :=
  [("null", .null), ("true", .bool true), ("false", .bool false), ("NaN", .float .nan),
    ("Infinity", .float (.infinity false)), ("-Infinity", .float (.infinity true))]

/-- The value of the word at the front. -/
def word? (cs : List Char) : Option (Json × List Char) :=
  words.findSome? (fun w => (afterWord? w.1.toList cs).map (w.2, ·))

/-! ### Numbers -/

/-- A digit of a numeral. -/
def isDecimal (c : Char) : Bool := '0' ≤ c && c ≤ '9'

/-- The value of a numeral. -/
def numeral (ds : List Char) : Nat := ds.foldl (fun n c => n * 10 + (c.toNat - 48)) 0

/-- The digits before a point and the rest: a single zero, or digits that begin with none. -/
def wholePart? : List Char → Option (List Char × List Char)
  | '0' :: r => some (['0'], r)
  | c :: r => if isDecimal c then some ((c :: r).span isDecimal) else none
  | [] => none

/-- The digits of a fraction, or none when the point has no digit after it. -/
def fraction : List Char → List Char × List Char
  | '.' :: r => match r.span isDecimal with
    | ([], _) => ([], '.' :: r)
    | (ds, rest) => (ds, rest)
  | r => ([], r)

/-- The exponent, or none when the mark has no digit after it. -/
def exponent (cs : List Char) : Option Int × List Char :=
  let digits (negative : Bool) (r : List Char) : Option Int × List Char :=
    match r.span isDecimal with
    | ([], _) => (none, cs)
    | (ds, rest) => (some (if negative then - Int.ofNat (numeral ds) else Int.ofNat (numeral ds)), rest)
  match cs with
  | c :: r =>
    if c = 'e' ∨ c = 'E' then
      match r with
      | '+' :: r => digits false r
      | '-' :: r => digits true r
      | r => digits false r
    else (none, cs)
  | [] => (none, cs)

/-- The number at the front of unsigned characters; `start` is where it begins, sign included. -/
def readUnsigned (start : List Char) (negative : Bool) (cs : List Char) :
    Except ReadFault (Json × List Char) :=
  match wholePart? cs with
  | none => fault .value start
  | some (whole, r) =>
    let (frac, r) := fraction r
    let (exp, r) := exponent r
    if frac.isEmpty && exp.isNone then
      if Text.maxDigits < whole.length then .error (.overlong whole.length)
      else
        let n := Int.ofNat (numeral whole)
        .ok (.int (if negative then -n else n), r)
    else
      .ok (.float (Binary64.ofDecimal negative (numeral (whole ++ frac))
        (exp.getD 0 - Int.ofNat frac.length)), r)

/-- The number at the front of the characters. -/
def readNumber (cs : List Char) : Except ReadFault (Json × List Char) :=
  match cs with
  | '-' :: r => readUnsigned cs true r
  | _ => readUnsigned cs false cs

/-! ### Texts -/

/-- A character of a text, or one half of a character beyond the first plane. -/
inductive Piece
  | char (c : Char)
  | half (n : Nat)
deriving DecidableEq, Repr

/-- The value of a digit of base sixteen. -/
def hexValue? (c : Char) : Option Nat :=
  if '0' ≤ c ∧ c ≤ '9' then some (c.toNat - 48)
  else if 'a' ≤ c ∧ c ≤ 'f' then some (c.toNat - 87)
  else if 'A' ≤ c ∧ c ≤ 'F' then some (c.toNat - 55)
  else none

/-- The value of four digits of base sixteen. -/
def hexValue4? (a b c d : Char) : Option Nat := do
  let a ← hexValue? a
  let b ← hexValue? b
  let c ← hexValue? c
  let d ← hexValue? d
  return ((a * 16 + b) * 16 + c) * 16 + d

/-- What an escaped code unit stands for. -/
def Piece.ofUnit (n : Nat) : Piece :=
  if 0xD800 ≤ n ∧ n < 0xE000 then .half n else .char (Char.ofNat n)

/-- The characters that pieces stand for: two matching halves make one character, a lone half
is replaced. -/
def Piece.join : List Piece → List Char
  | .char c :: r => c :: join r
  | .half h :: .half l :: r =>
    if h < 0xDC00 ∧ 0xDC00 ≤ l then
      Char.ofNat (0x10000 + (h - 0xD800) * 0x400 + (l - 0xDC00)) :: join r
    else Char.ofNat 0xFFFD :: join (.half l :: r)
  | .half _ :: r => Char.ofNat 0xFFFD :: join r
  | [] => []

/-- The character that a one-letter escape stands for. -/
def simpleEscape? : Char → Option Char
  | '"' => some '"'
  | '\\' => some '\\'
  | '/' => some '/'
  | 'b' => some '\x08'
  | 'f' => some '\x0c'
  | 'n' => some '\n'
  | 'r' => some '\r'
  | 't' => some '\t'
  | _ => none

/-- The pieces up to the closing quote; `opening` is how many characters were left at the opening
quote. A four-digit escape must have a character after it. -/
def readPieces (opening : Nat) : List Char → Except ReadFault (List Piece × List Char)
  | [] => .error (.malformed .closingQuote opening)
  | '"' :: r => .ok ([], r)
  | '\\' :: 'u' :: a :: b :: c :: d :: e :: r =>
    match hexValue4? a b c d with
    | none => fault .unicodeEscape ('u' :: a :: b :: c :: d :: e :: r)
    | some n => (readPieces opening (e :: r)).map (fun p => (Piece.ofUnit n :: p.1, p.2))
  | '\\' :: 'u' :: r => fault .unicodeEscape ('u' :: r)
  | '\\' :: c :: r =>
    match simpleEscape? c with
    | none => fault .escape ('\\' :: c :: r)
    | some c => (readPieces opening r).map (fun p => (.char c :: p.1, p.2))
  | '\\' :: [] => .error (.malformed .closingQuote opening)
  | c :: r =>
    if c.toNat < 0x20 then fault .printable (c :: r)
    else (readPieces opening r).map (fun p => (.char c :: p.1, p.2))

/-- The text after an opening quote. -/
def readText (cs : List Char) : Except ReadFault (String × List Char) :=
  (readPieces (cs.length + 1) cs).map (fun p => (String.ofList (Piece.join p.1), p.2))

/-! ### Values -/

mutual

/-- The value at the front of the characters. The first argument bounds the depth of the calls. -/
def readValue : Nat → List Char → Except ReadFault (Json × List Char)
  | 0, cs => fault .value cs
  | fuel + 1, cs =>
    match cs with
    | '"' :: r => (readText r).map (fun p => (.str p.1, p.2))
    | '{' :: r =>
      match skipGaps r with
      | '}' :: r => .ok (.obj [], r)
      | r => readMembers fuel [] r
    | '[' :: r =>
      match skipGaps r with
      | ']' :: r => .ok (.arr [], r)
      | r => readItems fuel [] r
    | _ =>
      match word? cs with
      | some p => .ok p
      | none => readNumber cs

/-- The members of an object from a name on, after those read. -/
def readMembers : Nat → List (String × Json) → List Char → Except ReadFault (Json × List Char)
  | 0, _, cs => fault .name cs
  | fuel + 1, members, cs =>
    match cs with
    | '"' :: r => do
      let (name, r) ← readText r
      match skipGaps r with
      | ':' :: r =>
        let (v, r) ← readValue fuel (skipGaps r)
        let members := Keyed.put members name v
        match skipGaps r with
        | '}' :: r => .ok (.obj members, r)
        | ',' :: r => readMembers fuel members (skipGaps r)
        | r => fault .comma r
      | r => fault .colon r
    | _ => fault .name cs

/-- The items of a list from a value on, after those read, which stand in reverse. -/
def readItems : Nat → List Json → List Char → Except ReadFault (Json × List Char)
  | 0, _, cs => fault .value cs
  | fuel + 1, items, cs => do
    let (v, r) ← readValue fuel cs
    match skipGaps r with
    | ']' :: r => .ok (.arr (v :: items).reverse, r)
    | ',' :: r => readItems fuel (v :: items) (skipGaps r)
    | r => fault .comma r

end

/-- The value that the characters hold, with blanks around it. -/
def readChars (cs : List Char) : Except ReadFault Json :=
  match cs with
  | '\uFEFF' :: _ => fault .noByteOrderMark cs
  | _ => do
    -- two calls at most are made for each character
    let (v, r) ← readValue (2 * cs.length + 2) (skipGaps cs)
    match skipGaps r with
    | [] => .ok v
    | r => fault .endOfText r

/-- The value of a text. -/
def read (text : String) : Except ReadFault Json := readChars text.toList

end Json

end Restline
