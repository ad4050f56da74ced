import Restline.Text.Quoted

/-!
Texts as bytes. A file holds bytes, and a text is read from them strictly, with the place and the
reason of the first fault, or leniently, where each malformed part becomes one replacement character.

* `Utf8.Fault` : a malformed part and why it is one.
* `Utf8.decode` : strict reading.
* `Utf8.decodeLossy` : lenient reading.
* `Utf8.readText` : strict reading of a text file, where every line end becomes a line feed.
-/

set_option autoImplicit false

namespace Restline.Text.Utf8

/-! ### Well-formed sequences -/

/-- Why a part of the bytes is no text. -/
inductive Reason
  | badStart
  | badContinuation
  | endsEarly
deriving DecidableEq, Repr

/-- A malformed part: its first byte, where it begins, how many bytes it has, and why. -/
structure Fault where
  byte : UInt8
  start : Nat
  length : Nat
  reason : Reason
deriving DecidableEq, Repr

/-- The bounds of the bytes that may follow a first byte, or nothing for a byte that begins no
character. -/
def continuations? (b : UInt8) : Option (List (UInt8 × UInt8)) :=
  if b < 0x80 then some []
  else if b < 0xC2 then none
  else if b < 0xE0 then some [(0x80, 0xBF)]
  else if b = 0xE0 then some [(0xA0, 0xBF), (0x80, 0xBF)]
  else if b = 0xED then some [(0x80, 0x9F), (0x80, 0xBF)]
  else if b < 0xF0 then some [(0x80, 0xBF), (0x80, 0xBF)]
  else if b = 0xF0 then some [(0x90, 0xBF), (0x80, 0xBF), (0x80, 0xBF)]
  else if b < 0xF4 then some [(0x80, 0xBF), (0x80, 0xBF), (0x80, 0xBF)]
  else if b = 0xF4 then some [(0x80, 0x8F), (0x80, 0xBF), (0x80, 0xBF)]
  else none

/-- How many of the expected bytes are there, and why the next one is not. -/
def matching : List (UInt8 × UInt8) → List UInt8 → Nat × Option Reason
  | [], _ => (0, none)
  | _ :: _, [] => (0, some .endsEarly)
  | (lo, hi) :: bs, c :: cs =>
    if lo ≤ c ∧ c ≤ hi then
      let (n, r) := matching bs cs
      (n + 1, r)
    else (0, some .badContinuation)

/-- The length of the part at the front of the bytes, and why it is no character. -/
def part (b : UInt8) (rest : List UInt8) : Nat × Option Reason :=
  match continuations? b with
  | none => (1, some .badStart)
  | some bs =>
    let (n, r) := matching bs rest
    (n + 1, r)

/-- The code point that the bytes of one character stand for. -/
def codePoint : List UInt8 → Nat
  | [] => 0
  | b :: cs =>
    let lead := if b < 0x80 then b.toNat else if b < 0xE0 then b.toNat % 32
      else if b < 0xF0 then b.toNat % 16 else b.toNat % 8
    cs.foldl (fun n c => n * 64 + c.toNat % 64) lead

/-! ### Reading -/

/-- The bytes as characters, with one replacement character for each malformed part. The first
argument bounds the number of parts. -/
def lossyChars : Nat → List UInt8 → List Char
  | 0, _ => []
  | _ + 1, [] => []
  | fuel + 1, b :: rest =>
    let (n, r) := part b rest
    let c := match r with
      | none => Char.ofNat (codePoint ((b :: rest).take n))
      | some _ => Char.ofNat 0xFFFD
    c :: lossyChars fuel ((b :: rest).drop n)

/-- The first malformed part at or after a position. The first argument bounds the number of parts. -/
def firstFault : Nat → Nat → List UInt8 → Option Fault
  | 0, _, _ => none
  | _ + 1, _, [] => none
  | fuel + 1, pos, b :: rest =>
    match part b rest with
    | (n, none) => firstFault fuel (pos + n) ((b :: rest).drop n)
    | (n, some r) => some ⟨b, pos, n, r⟩

/-- The text of well-formed bytes, or the first fault. -/
def decode (bytes : ByteArray) : Except Fault String :=
  match String.fromUTF8? bytes with
  | some s => .ok s
  | none =>
    .error ((firstFault (bytes.size + 1) 0 bytes.toList).getD ⟨0, 0, 0, .badStart⟩)

/-- The text of any bytes. -/
def decodeLossy (bytes : ByteArray) : String :=
  match String.fromUTF8? bytes with
  | some s => s
  | none => String.ofList (lossyChars (bytes.size + 1) bytes.toList)

/-- Every line end becomes a line feed. -/
def lineFeeds : List Char → List Char
  | '\r' :: '\n' :: r => '\n' :: lineFeeds r
  | '\r' :: r => '\n' :: lineFeeds r
  | c :: r => c :: lineFeeds r
  | [] => []

/-- The text of a text file. -/
def readText (bytes : ByteArray) : Except Fault String :=
  (decode bytes).map (fun s => String.ofList (lineFeeds s.toList))

/-! ### Messages -/

/-- The reason in words. -/
def Reason.message : Reason → String
  | .badStart => "invalid start byte"
  | .badContinuation => "invalid continuation byte"
  | .endsEarly => "unexpected end of data"

/-- The fault in words: the byte or the bytes at fault, counted from zero. -/
def Fault.message (f : Fault) : String :=
  let place :=
    if f.length ≤ 1 then
      "byte 0x" ++ String.ofList (hexDigits 2 f.byte.toNat) ++ " in position " ++ toString f.start
    else
      "bytes in position " ++ toString f.start ++ "-" ++ toString (f.start + f.length - 1)
  "'utf-8' codec can't decode " ++ place ++ ": " ++ f.reason.message

end Restline.Text.Utf8
