/-!
Numbers of the 64-bit binary format, as exact values: a finite number is a sign, a significand and a
power of two, so that reading a decimal and printing one are arithmetic on natural numbers.

* `Binary64` : the numbers, with the two infinities and the one that is no number.
* `Binary64.ofRatio` : the number nearest to a ratio, ties to an even significand.
* `Binary64.ofDecimal` : the number nearest to a decimal.
* `Binary64.toInt?` : the whole number that a number is, if it is one.
-/

set_option autoImplicit false

namespace Restline.Number

/-- A number of the 64-bit binary format. A finite one is `significand * 2 ^ exponent` with its sign;
zero has exponent zero. -/
inductive Binary64
  | nan
  | infinity (negative : Bool)
  | finite (negative : Bool) (significand : Nat) (exponent : Int)
deriving DecidableEq, Repr, Inhabited

namespace Binary64

/-- The least exponent of a finite number. -/
def minExponent : Int := -1074

/-- The greatest exponent of a finite number. -/
def maxExponent : Int := 971

/-- One more than the greatest significand. -/
def significandBound : Nat := Nat.pow 2 53

/-- Zero with a sign. -/
def zero (negative : Bool) : Binary64 := .finite negative 0 0

/-- The number is neither infinite nor no number. -/
def isFinite : Binary64 → Bool
  | .finite _ _ _ => true
  | _ => false

/-! ### Rounding -/

/-- The ratio scaled by a power of two, as numerator and denominator. -/
def scaled (num den : Nat) (e : Int) : Nat × Nat :=
  if 0 ≤ e then (num, den * Nat.pow 2 e.toNat) else (num * Nat.pow 2 (-e).toNat, den)

/-- The whole number nearest to a ratio, ties to the even one. -/
def roundHalfEven (num den : Nat) : Nat :=
  let q := num / den
  let r := num % den
  if 2 * r < den then q
  else if den < 2 * r then q + 1
  else if q % 2 = 0 then q else q + 1

/-- The exponent with which the significand of a ratio lies just below its bound, but no less than
the least one. -/
def exponentFor (num den : Nat) : Int :=
  -- the lengths of the two parts tell the exponent up to one
  let guess : Int := (Nat.log2 num : Int) - (Nat.log2 den : Int) - 52
  let (n, d) := scaled num den guess
  let e := if n < d * Nat.pow 2 52 then guess - 1 else guess
  if e < minExponent then minExponent else e

/-- The number nearest to a positive ratio, ties to an even significand. -/
def ofRatio (negative : Bool) (num den : Nat) : Binary64 :=
  if num = 0 then zero negative
  else
    let e := exponentFor num den
    let (n, d) := scaled num den e
    let m := roundHalfEven n d
    -- rounding up may carry the significand to its bound
    let (m, e) := if m = significandBound then (m / 2, e + 1) else (m, e)
    if m = 0 then zero negative
    else if maxExponent < e then .infinity negative
    else .finite negative m e

/-- The number of decimal digits of a natural number, one for zero. -/
def digitCount (n : Nat) : Nat := (Nat.toDigits 10 n).length

/-- The number nearest to `digits * 10 ^ exponent`. Beyond the range of the format the result is an
infinity or zero, whatever the exponent. -/
def ofDecimal (negative : Bool) (digits : Nat) (exponent : Int) : Binary64 :=
  if digits = 0 then zero negative
  else
    let top : Int := digitCount digits + exponent
    if 310 < top then .infinity negative
    else if top < -330 then zero negative
    else if 0 ≤ exponent then ofRatio negative (digits * Nat.pow 10 exponent.toNat) 1
    else ofRatio negative digits (Nat.pow 10 (-exponent).toNat)

/-! ### Whole numbers -/

/-- The whole number that a finite number is, if it has no fraction. -/
def toInt? : Binary64 → Option Int
  | .finite negative m e =>
    let whole : Option Nat :=
      if 0 ≤ e then some (m * Nat.pow 2 e.toNat)
      else if m % Nat.pow 2 (-e).toNat = 0 then some (m / Nat.pow 2 (-e).toNat) else none
    whole.map (fun n => if negative then - Int.ofNat n else Int.ofNat n)
  | _ => none

end Binary64

end Restline.Number
