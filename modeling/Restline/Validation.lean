import Restline.Json.Basic
import Restline.Text.Blank
import Restline.Text.Integer

/-!
Reading documents. A document is read field by field, and every field that does not fit is reported
with its place; a field has one name in documents and may be given under a second one.

Reading is lenient about scalars: a whole number may come as a boolean, as a binary number without a
fraction or as a numeral, and a truth value as a number or as one of a dozen words.

* `Flaw`, `Issue` : what does not fit, and where.
* `Checked` : a value, or all issues in order.
* `Checked.text`, `Checked.bool`, `Checked.int` : scalars.
* `Checked.listOf`, `Checked.mapOf`, `Checked.record` : containers.
* `Field`, `requiredField`, `optionalField`, `fieldOr` : the fields of a record.
-/

set_option autoImplicit false

namespace Restline

/-! ### Issues -/

/-- What does not fit. -/
inductive Flaw
  | missing
  | notText
  | notList
  | notMap
  | notRecord
  | notTagged
  | notBool
  | unreadableBool
  | notInt
  | unreadableInt
  | intTooLong
  | fraction
  | notFinite
  | tooFewItems
  | notOneOf
  | unknownTag
  | noTag
  | nestedTooDeep
  /-- A rule of the document itself is broken. -/
  | rule (message : String)
deriving DecidableEq, Repr

/-- A step from a document to a part of it. -/
inductive Place
  | name (s : String)
  | index (n : Nat)
deriving DecidableEq, Repr

/-- A flaw and the way to it. -/
structure Issue where
  place : List Place
  flaw : Flaw
deriving DecidableEq, Repr

/-- A value that was read, or the issues that were met. -/
inductive Checked (α : Type)
  | valid (a : α)
  | flawed (issues : List Issue)
deriving Repr

namespace Checked

variable {α β : Type}

/-- A single flaw at the place itself. -/
def flaw (f : Flaw) : Checked α := .flawed [⟨[], f⟩]

/-- The value as a result. -/
def toExcept : Checked α → Except (List Issue) α
  | .valid a => .ok a
  | .flawed is => .error is

/-- The value, if there is one. -/
def toOption : Checked α → Option α
  | .valid a => some a
  | .flawed _ => none

/-- The value under a function. -/
def map (f : α → β) : Checked α → Checked β
  | .valid a => .valid (f a)
  | .flawed is => .flawed is

/-- A function and its argument, each with the issues met; all issues are kept. -/
def and (f : Checked (α → β)) (x : Checked α) : Checked β :=
  match f, x with
  | .valid f, .valid a => .valid (f a)
  | .valid _, .flawed is => .flawed is
  | .flawed is, .valid _ => .flawed is
  | .flawed is, .flawed js => .flawed (is ++ js)

/-- A further check on a value that was read. -/
def andThen (x : Checked α) (f : α → Checked β) : Checked β :=
  match x with
  | .valid a => f a
  | .flawed is => .flawed is

/-- The issues seen from one step further out. -/
def under (p : Place) : Checked α → Checked α
  | .valid a => .valid a
  | .flawed is => .flawed (is.map (fun i => { i with place := p :: i.place }))

/-! ### Scalars -/

/-- Text. -/
def text : Json → Checked String
  | .str s => .valid s
  | _ => flaw .notText

/-- The words for false. -/
def falseWords : List String := ["0", "off", "f", "false", "n", "no"]

/-- The words for true. -/
def trueWords : List String := ["1", "on", "t", "true", "y", "yes"]

/-- The text in lower case, ASCII letters only. -/
def asciiLower (s : String) : String := String.ofList (s.toList.map Char.toLower)

/-- Two to the power of 63: a whole number of 64 bits with a sign lies below it and no lower than its
negative. -/
def wordBound : Int := 9223372036854775808

/-- A truth value. -/
def bool : Json → Checked Bool
  | .bool b => .valid b
  | .str s =>
    if falseWords.contains (asciiLower s) then .valid false
    else if trueWords.contains (asciiLower s) then .valid true
    else flaw .unreadableBool
  | .int n => ofInt n
  | .float x =>
    match x.toInt? with
    | some n => ofInt n
    | none => flaw .notBool
  | _ => flaw .notBool
where
  /-- One and zero are truth values; a number beyond 64 bits is not even a number here. -/
  ofInt (n : Int) : Checked Bool :=
    if n = 0 then .valid false
    else if n = 1 then .valid true
    else if -wordBound ≤ n ∧ n < wordBound then flaw .unreadableBool
    else flaw .notBool

/-- A digit other than zero. -/
def isNonzeroDigit (c : Char) : Bool := '1' ≤ c && c ≤ '9'

/-- The digits of an unsigned numeral after its leading zeros, which may have underscores among
them. -/
def afterLeadingZeros : List Char → Option (List Char)
  | [] => none
  | c :: r =>
    if c = '0' then go c r
    else if isNonzeroDigit c then some (c :: r) else none
where
  /-- What follows leading zeros; the last of them stays where no other digit is left. -/
  go (last : Char) : List Char → Option (List Char)
  | [] => some [last]
  | c :: r =>
    if c = '0' ∨ c = '_' then go c r
    else if c = '.' then some (last :: c :: r)
    else if isNonzeroDigit c then some (c :: r)
    else none

/-- The numeral without a point and the zeros after it. -/
def withoutZeroFraction (cs : List Char) : List Char :=
  let (whole, r) := cs.span (· != '.')
  match r with
  | '.' :: zeros => if zeros.all (· == '0') then whole else cs
  | _ => cs

/-- The value of digits with single underscores between them, ASCII only. -/
def ofDigitRun (negative : Bool) (cs : List Char) : Checked Int :=
  if cs.all (fun c => c == '_' || (decide ('0' ≤ c) && decide (c ≤ '9'))) then
    match Text.digitsOf? cs with
    | none => flaw .unreadableInt
    | some ds =>
      if Text.maxDigits < ds.length then flaw .intTooLong
      else
        let n := Int.ofNat (Text.ofDigits ds)
        .valid (if negative then -n else n)
  else flaw .unreadableInt

/-- A numeral with a sign, white space around it, and a fraction of zeros at most. -/
def ofNumeral (s : String) : Checked Int :=
  let unsigned (negative : Bool) (cs : List Char) : Checked Int :=
    match afterLeadingZeros cs with
    | none => flaw .unreadableInt
    | some cs => ofDigitRun negative (withoutZeroFraction cs)
  match Text.trimBoth Text.isSpace s.toList with
  | '+' :: r => unsigned false r
  | '-' :: r => unsigned true r
  | r => unsigned false r

/-- A whole number. -/
def int : Json → Checked Int
  | .int n => .valid n
  | .bool b => .valid (if b then 1 else 0)
  | .str s => ofNumeral s
  | .float x =>
    if !x.isFinite then flaw .notFinite
    else
      match x.toInt? with
      | none => flaw .fraction
      | some n => if -wordBound < n ∧ n < wordBound then .valid n else flaw .intTooLong
  | _ => flaw .notInt

/-- Any value. -/
def any (j : Json) : Checked Json := .valid j

/-! ### Containers -/

/-- The items of a list, each with its index. -/
def items (read : Json → Checked α) : Nat → List Json → Checked (List α)
  | _, [] => .valid []
  | n, j :: r => (((read j).under (.index n)).map List.cons).and (items read (n + 1) r)

/-- A list. -/
def listOf (read : Json → Checked α) : Json → Checked (List α)
  | .arr js => items read 0 js
  | _ => flaw .notList

/-- The values of a map, each with its key. -/
def entries (read : Json → Checked α) : List (String × Json) → Checked (Keyed α)
  | [] => .valid []
  | (k, j) :: r =>
    (((read j).under (.name k)).map (fun a l => (k, a) :: l)).and (entries read r)

/-- A map. -/
def mapOf (read : Json → Checked α) : Json → Checked (Keyed α)
  | .obj ms => entries read ms
  | _ => flaw .notMap

/-- A record, read from its members. -/
def record (read : Keyed Json → Checked α) : Json → Checked α
  | .obj ms => read ms
  | _ => flaw .notRecord

end Checked

/-! ### Fields -/

/-- The names of a field: the one in documents, and the one that counts where that is absent. -/
structure Field where
  name : String
  other : String

/-- A field of one name. -/
def Field.plain (name : String) : Field := ⟨name, name⟩

/-- The name under which a record gives the field. -/
def Field.given? (f : Field) (ms : Keyed Json) : Option String :=
  if ms.has f.name then some f.name else if ms.has f.other then some f.other else none

/-- The value that a record gives for the field. -/
def Field.value? (f : Field) (ms : Keyed Json) : Option Json :=
  (f.given? ms).bind ms.get?

variable {α : Type}

/-- A field that must be there. -/
def requiredField (ms : Keyed Json) (f : Field) (read : Json → Checked α) : Checked α :=
  match f.value? ms with
  | none => (Checked.flaw .missing).under (.name f.name)
  | some j => (read j).under (.name f.name)

/-- A field that may be absent or null. -/
def optionalField (ms : Keyed Json) (f : Field) (read : Json → Checked α) : Checked (Option α) :=
  match f.value? ms with
  | none | some .null => .valid none
  | some j => ((read j).map some).under (.name f.name)

/-- A field that may be absent; null does not count as absent. -/
def fieldOr (ms : Keyed Json) (f : Field) (value : α) (read : Json → Checked α) : Checked α :=
  match f.value? ms with
  | none => .valid value
  | some j => (read j).under (.name f.name)

/-- The members that give none of the fields. -/
def unclaimed (ms : Keyed Json) (fields : List Field) : Keyed Json :=
  ms.filter (fun m => !(fields.filterMap (fun f => f.given? ms)).contains m.1)

end Restline
