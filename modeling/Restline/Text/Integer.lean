import Restline.Text.Blank
import Restline.Text.Digit

/-!
Reading whole numbers. A numeral may have white space around it, one sign, and single underscores
between its digits, which may be decimal digits of any script. A numeral of more than `maxDigits`
digits is refused, however many of them are leading zeros.

* `ofNumeral?` : the value of a numeral.
-/

set_option autoImplicit false

namespace Restline.Text

/-- The longest numeral that is read, in digits. -/
def maxDigits : Nat := 4300

/-- The digits of a numeral with single underscores between them. -/
def digitsOf? : List Char → Option (List Nat)
  | [] => none
  | [c] => (decimalValue? c).map ([·])
  | c :: '_' :: r => do
    let d ← decimalValue? c
    return d :: (← digitsOf? r)
  | c :: r => do
    let d ← decimalValue? c
    return d :: (← digitsOf? r)

/-- The number that decimal digits stand for, the first the highest. -/
def ofDigits (ds : List Nat) : Nat :=
  ds.foldl (fun n d => n * 10 + d) 0

/-- The value of an unsigned numeral. -/
def ofUnsigned? (cs : List Char) : Option Nat := do
  let ds ← digitsOf? cs
  if ds.length ≤ maxDigits then some (ofDigits ds) else none

/-- The value of a numeral with an optional sign and white space around it. -/
def ofNumeral? (s : String) : Option Int :=
  match trimBoth isSpace s.toList with
  | '+' :: r => (ofUnsigned? r).map Int.ofNat
  | '-' :: r => (ofUnsigned? r).map (fun n => - Int.ofNat n)
  | r => (ofUnsigned? r).map Int.ofNat

end Restline.Text
