import Restline.Number.Binary64

/-!
The text of a binary number: the fewest decimal digits that read back as the same number, and of those
the nearest to it. Numbers from 1e-4 up to 1e16 are written in positional notation with at least one
digit after the point, others with an exponent of at least two digits.

* `Binary64.shortest` : digits and the place of the decimal point.
* `Binary64.toText` : the text.
-/

set_option autoImplicit false

namespace Restline.Number.Binary64

/-! ### The shortest digits -/

/-- A positive number and the ends of the interval that rounds to it, over one denominator. -/
structure Window where
  low : Nat
  value : Nat
  high : Nat
  denominator : Nat
  closed : Bool

/-- The window of `m * 2 ^ e`. Below a power of two the neighbour is twice as near, unless the
exponent is the least one. -/
def window (m : Nat) (e : Int) : Window :=
  -- in quarters of the last place, so that both ends are whole
  let (n, d) := scaled (4 * m) 4 (-e)
  let unit := n / (4 * m)
  let below := if m = Nat.pow 2 52 ∧ minExponent < e then unit else 2 * unit
  ⟨n - below, n, n + 2 * unit, d, m % 2 == 0⟩

/-- The value lies in the window: `c / 10 ^ k` for a negative place, `c * 10 ^ place` otherwise. -/
def Window.covers (w : Window) (c : Nat) (place : Int) : Bool :=
  let x := if 0 ≤ place then c * Nat.pow 10 place.toNat * w.denominator else c * w.denominator
  let s := if 0 ≤ place then 1 else Nat.pow 10 (-place).toNat
  if w.closed then w.low * s ≤ x && x ≤ w.high * s else w.low * s < x && x < w.high * s

/-- The whole part of the value in units of a decimal place. -/
def Window.floorAt (w : Window) (place : Int) : Nat :=
  if 0 ≤ place then w.value / (w.denominator * Nat.pow 10 place.toNat)
  else w.value * Nat.pow 10 (-place).toNat / w.denominator

/-- The upper of the two neighbours of the value at a decimal place is the nearer one; a tie goes to
the even neighbour. -/
def Window.upperNearer (w : Window) (c : Nat) (place : Int) : Bool :=
  let x := if 0 ≤ place then (2 * c + 1) * Nat.pow 10 place.toNat * w.denominator
    else (2 * c + 1) * w.denominator
  let v := if 0 ≤ place then 2 * w.value else 2 * w.value * Nat.pow 10 (-place).toNat
  if x = v then c % 2 == 1 else x < v

/-- The digits before the decimal point, or minus the zeros after it. -/
def Window.pointPlace (w : Window) : Int :=
  let whole := w.value / w.denominator
  if 0 < whole then digitCount whole
  else
    match (List.range 400).find? (fun k => w.denominator ≤ w.value * Nat.pow 10 (k + 1)) with
    | some zeros => Int.negOfNat zeros
    | none => -400

/-- The first number of digits, from one to seventeen, at which a neighbour of the value lies in the
window, with that neighbour. -/
def Window.search (w : Window) (point : Int) : Nat → Nat → Nat × Int
  | _, 0 => (w.floorAt (point - 17), point - 17)
  | n, fuel + 1 =>
    let place := point - (n : Int)
    let c := w.floorAt place
    match w.covers c place, w.covers (c + 1) place with
    | true, true => (if w.upperNearer c place then c + 1 else c, place)
    | true, false => (c, place)
    | false, true => (c + 1, place)
    | false, false => w.search point (n + 1) fuel

/-- The digits of a number without the zeros at their end. -/
def dropZeros (cs : List Char) : List Char :=
  match (cs.reverse.dropWhile (· == '0')).reverse with
  | [] => ['0']
  | r => r

/-- The fewest digits that read back, and how many of them stand before the decimal point. -/
def shortest (m : Nat) (e : Int) : List Char × Int :=
  let w := window m e
  let (c, place) := w.search w.pointPlace 1 17
  let digits := Nat.toDigits 10 c
  (dropZeros digits, (digits.length : Int) + place)

/-! ### Notation -/

/-- The least decimal exponent that is written in positional notation. -/
def positionalFrom : Int := -3

/-- The greatest number of digits before the point in positional notation. -/
def positionalTo : Int := 16

/-- The exponent part, with a sign and at least two digits. -/
def exponentText (x : Int) : List Char :=
  let ds := Nat.toDigits 10 x.natAbs
  'e' :: (if x < 0 then '-' else '+') :: (if ds.length < 2 then '0' :: ds else ds)

/-- Digits and the place of the point in the notation that their size calls for. -/
def notated (digits : List Char) (point : Int) : List Char :=
  if positionalFrom ≤ point ∧ point ≤ positionalTo then
    if point ≤ 0 then '0' :: '.' :: (List.replicate (-point).toNat '0' ++ digits)
    else
      let p := point.toNat
      if digits.length ≤ p then digits ++ List.replicate (p - digits.length) '0' ++ ['.', '0']
      else digits.take p ++ '.' :: digits.drop p
  else
    match digits with
    | [] => []
    | [d] => d :: exponentText (point - 1)
    | d :: ds => d :: '.' :: (ds ++ exponentText (point - 1))

/-- The text of a finite number without its sign. -/
def magnitudeText (m : Nat) (e : Int) : List Char :=
  if m = 0 then ['0', '.', '0']
  else
    let (ds, p) := shortest m e
    notated ds p

/-- The spelling of the numbers that are not finite. -/
structure Spelling where
  nan : String
  infinity : String

/-- The text of a number. -/
def toText (spelling : Spelling) : Binary64 → String
  | .nan => spelling.nan
  | .infinity negative => (if negative then "-" else "") ++ spelling.infinity
  | .finite negative m e =>
    (if negative then "-" else "") ++ String.ofList (magnitudeText m e)

end Restline.Number.Binary64
