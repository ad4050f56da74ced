/-!
Bytes in base sixty-four: three bytes as four characters, with equals signs for what is missing of the
last three.

* `Base64.encode` : the text of bytes.
-/

set_option autoImplicit false

namespace Restline.Web.Base64

/-- A digit of base sixty-four. -/
def digit (n : Nat) : Char :=
  if n < 26 then Char.ofNat (65 + n)
  else if n < 52 then Char.ofNat (71 + n)
  else if n < 62 then Char.ofNat (n - 4)
  else if n = 62 then '+' else '/'

/-- The characters of bytes, three at a time. -/
def chars : List UInt8 → List Char
  | [] => []
  | [a] =>
    let n := a.toNat * 16
    [digit (n / 64), digit (n % 64), '=', '=']
  | [a, b] =>
    let n := (a.toNat * 256 + b.toNat) * 4
    [digit (n / 4096), digit (n / 64 % 64), digit (n % 64), '=']
  | a :: b :: c :: r =>
    let n := (a.toNat * 256 + b.toNat) * 256 + c.toNat
    digit (n / 262144) :: digit (n / 4096 % 64) :: digit (n / 64 % 64) :: digit (n % 64) :: chars r

/-- The text of bytes. -/
def encode (bytes : List UInt8) : String := String.ofList (chars bytes)

end Restline.Web.Base64
