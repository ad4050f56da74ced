import Restline.Text.Quoted

/-!
Percent encoding. A character that has no place in a part of an address is written as its bytes, each
with a percent sign and two digits; what is encoded already stays as it is. In the query, which is a
form, a blank is written as a plus sign and everything but letters, digits and four marks is encoded.

* `Percent.encode` : a part of an address, for a set of characters that may stand in it.
* `Percent.decode` : the text that a part stands for.
* `Form.encode` : pairs of names and values as a query.
-/

set_option autoImplicit false

namespace Restline.Web

namespace Percent

/-- Characters that never need encoding: letters, digits and four marks. -/
def isUnreserved (c : Char) : Bool :=
  c.isAlphanum || c == '-' || c == '.' || c == '_' || c == '~'

/-- A hexadecimal digit. -/
def isHexDigit (c : Char) : Bool :=
  c.isDigit || ('a' ≤ c && c ≤ 'f') || ('A' ≤ c && c ≤ 'F')

/-- The value of a hexadecimal digit. -/
def hexValue (c : Char) : Nat :=
  if c.isDigit then c.toNat - 48 else (c.toLower.toNat - 97) + 10

/-- A byte as a percent sign and two digits. -/
def encodeByte (b : UInt8) : List Char := '%' :: (Text.hexDigits 2 b.toNat).map Char.toUpper

/-- A character as its bytes. -/
def encodeChar (c : Char) : List Char := (String.ofList [c]).toUTF8.toList.flatMap encodeByte

/-- The characters of a part, encoded where they are neither unreserved nor safe. -/
def encodeChars (safe : Char → Bool) : List Char → List Char
  | [] => []
  | '%' :: a :: b :: r =>
    if isHexDigit a && isHexDigit b then '%' :: a :: b :: encodeChars safe r
    else (if safe '%' then ['%'] else encodeChar '%') ++ encodeChars safe (a :: b :: r)
  | c :: r => (if isUnreserved c || safe c then [c] else encodeChar c) ++ encodeChars safe r

/-- A part of an address. -/
def encode (safe : Char → Bool) (s : String) : String := String.ofList (encodeChars safe s.toList)

/-- The bytes that the characters stand for. -/
def decodeBytes : List Char → List UInt8
  | [] => []
  | '%' :: a :: b :: r =>
    if isHexDigit a && isHexDigit b then (hexValue a * 16 + hexValue b).toUInt8 :: decodeBytes r
    else '%'.toNat.toUInt8 :: decodeBytes (a :: b :: r)
  | c :: r => (String.ofList [c]).toUTF8.toList ++ decodeBytes r

/-- The bytes that a part stands for. -/
def decode (s : String) : List UInt8 := decodeBytes s.toList

end Percent

namespace Form

/-- A character of a name or a value. -/
def encodeChar (c : Char) : List Char :=
  if Percent.isUnreserved c then [c] else if c = ' ' then ['+'] else Percent.encodeChar c

/-- A name or a value. -/
def encodeText (s : String) : String := String.ofList (s.toList.flatMap encodeChar)

/-- Pairs of names and values. -/
def encode (pairs : List (String × String)) : String :=
  "&".intercalate (pairs.map (fun p => encodeText p.1 ++ "=" ++ encodeText p.2))

end Form

end Restline.Web
