import Restline.Text.Case
import Restline.Text.Segments
import Restline.Web.Percent

/-!
Names of hosts. A host is given by four numbers, by an address in brackets, or by a name; a name with
letters outside ASCII is written in its ASCII form, label by label, the basic characters first and then
the places of the others as a run of generalised numerals.

* `HostName.isFourNumbers`, `HostName.isLongAddress` : the two numeric forms.
* `HostName.punycode` : the ASCII form of a label.
* `HostName.normal?` : a host as it stands in an address, if it may.
-/

set_option autoImplicit false

namespace Restline.Web.HostName

/-! ### Numeric hosts -/

/-- One of four numbers: at most 255, without leading zeros. -/
def isOctet (cs : List Char) : Bool :=
  !cs.isEmpty && cs.length ≤ 3 && cs.all Char.isDigit && (cs.length = 1 || cs.head? != some '0')
    && cs.foldl (fun n c => n * 10 + (c.toNat - 48)) 0 ≤ 255

/-- Four numbers between dots. -/
def isFourNumbers (s : String) : Bool :=
  let parts := s.toList.splitOn '.'
  parts.length = 4 && parts.all isOctet

/-- The characters are `count` more runs of digits, each but the first after one character of any kind;
`inRun` says that a run has begun. -/
def looksNumericFrom (count : Nat) (inRun : Bool) : List Char → Bool
  | [] => inRun && count = 0
  | c :: r =>
    (c.isDigit && looksNumericFrom count true r)
      || (inRun && match count with
        | 0 => false
        | n + 1 => looksNumericFrom n false r)

/-- The host looks like four numbers, whatever stands between them. -/
def looksNumeric (s : String) : Bool := looksNumericFrom 3 false s.toList

/-- A group of a long address. -/
def isGroup (cs : List Char) : Bool := 0 < cs.length && cs.length ≤ 4 && cs.all Percent.isHexDigit

/-- The groups of a long address, with two groups for four numbers at the end. -/
def groups? (s : String) : Option (List (List Char)) :=
  let parts := s.toList.splitOn ':'
  if parts.length < 3 then none
  else
    let last := parts.getLast?.getD []
    if last.contains '.' then
      if isFourNumbers (String.ofList last) then some (parts.dropLast ++ [['0'], ['0']]) else none
    else some parts

/-- Eight groups, or fewer with one gap. -/
def areGroups (parts : List (List Char)) : Bool :=
  let inner := (parts.drop 1).dropLast
  let gaps := inner.countP (·.isEmpty)
  if 9 < parts.length || 1 < gaps then false
  else if gaps = 1 then
    let high := inner.takeWhile (!·.isEmpty)
    let low := (inner.dropWhile (!·.isEmpty)).drop 1
    let high := parts.take 1 ++ high
    let low := low ++ parts.drop (parts.length - 1)
    let high? := if high = [[]] then some [] else if high.all isGroup then some high else none
    let low? := if low = [[]] then some [] else if low.all isGroup then some low else none
    match high?, low? with
    | some h, some l => h.length + l.length ≤ 7
    | _, _ => false
  else parts.length = 8 && parts.all isGroup

/-- An address of eight groups, perhaps with a zone after a percent sign. -/
def isLongAddress (s : String) : Bool :=
  let (address, zone) := Text.headAndTail '%' s
  (match zone with
    | none => true
    | some z => z ≠ "" && !z.toList.contains '%')
    && !address.toList.contains '/'
    && match groups? address with
      | none => false
      | some parts => areGroups parts

/-! ### Names outside ASCII -/

/-- A digit of a generalised numeral. -/
def numeralDigit (n : Nat) : Char := if n < 26 then Char.ofNat (97 + n) else Char.ofNat (22 + n)

/-- The threshold of the place `k` under a bias. -/
def threshold (k bias : Nat) : Nat :=
  if k ≤ bias + 1 then 1 else if bias + 26 ≤ k then 26 else k - bias

/-- The digits of a generalised numeral from the place `k` on. The first argument bounds their
number. -/
def numeral (bias : Nat) : Nat → Nat → Nat → List Char
  | 0, _, _ => []
  | fuel + 1, k, q =>
    let t := threshold k bias
    if q < t then [numeralDigit q]
    else numeralDigit (t + (q - t) % (36 - t)) :: numeral bias fuel (k + 36) ((q - t) / (36 - t))

/-- How often a delta is divided before it is small, and what is left of it. -/
def settle : Nat → Nat → Nat → Nat × Nat
  | 0, k, delta => (k, delta)
  | fuel + 1, k, delta => if 455 < delta then settle fuel (k + 36) (delta / 35) else (k, delta)

/-- The bias after a delta. -/
def adapt (delta points : Nat) (first : Bool) : Nat :=
  let delta := if first then delta / 700 else delta / 2
  let (k, delta) := settle (delta + 1) 0 (delta + delta / points)
  k + 36 * delta / (delta + 38)

/-- Where the writing of a label stands: the delta so far, the bias, how many characters are written,
and the text. -/
structure Writing where
  delta : Nat
  bias : Nat
  written : Nat
  text : List Char

/-- One pass over a label for a code point: every copy of it is written, every lower one counts. -/
def pass (label : List Nat) (basic n : Nat) (w : Writing) : Writing :=
  label.foldl (fun w c =>
    if c < n then { w with delta := w.delta + 1 }
    else if c = n then
      { delta := 0
        bias := adapt w.delta (w.written + 1) (w.written = basic)
        written := w.written + 1
        text := w.text ++ numeral w.bias (w.delta + 1) 36 w.delta }
    else w) w

/-- The passes for the code points in ascending order, after the one before them. -/
def passes (label : List Nat) (basic : Nat) : Nat → List Nat → Writing → Writing
  | _, [], w => w
  | previous, n :: rest, w =>
    let w := { w with delta := w.delta + (n - previous) * (w.written + 1) }
    let w := pass label basic n w
    passes label basic (n + 1) rest { w with delta := w.delta + 1 }

/-- The ASCII form of a label. -/
def punycode (label : List Char) : List Char :=
  let basic := label.filter (·.toNat < 128)
  let others := ((label.map Char.toNat).filter (128 ≤ ·)).mergeSort (· ≤ ·) |>.eraseDups
  let start := if basic.isEmpty then [] else basic ++ ['-']
  (passes (label.map Char.toNat) basic.length 128 others ⟨0, 72, basic.length, start⟩).text

/-- Blocks that hold no letters, digits or marks: signs, punctuation, symbols and variant forms. -/
def symbolBlocks : List (Nat × Nat) := [
  (0x80, 0xB6), (0xB8, 0xDE), (0xF7, 0xF7), (0x2000, 0x2BFF), (0x3000, 0x3004), (0x3008, 0x3029),
  (0xD800, 0xFA0D), (0xFE10, 0xFE1F), (0xFE30, 0xFE6F), (0xFF00, 0xFFFF), (0x1D100, 0x1DFFF),
  (0x1F000, 0x1FFFF)]

/-- The character may stand in a label. -/
def isLabelChar (c : Char) : Bool :=
  if c.toNat < 128 then ('a' ≤ c && c ≤ 'z') || c.isDigit || c == '-'
  else symbolBlocks.all (fun b => c.toNat < b.1 || b.2 < c.toNat)

/-- A label in ASCII; it is neither empty nor too long, and has no hyphen at its ends. -/
def label? (cs : List Char) : Option (List Char) :=
  let fits (l : List Char) : Option (List Char) := if l.length ≤ 63 then some l else none
  if cs.isEmpty || cs.head? = some '-' || cs.getLast? = some '-' || !cs.all isLabelChar then none
  else if cs.all (·.toNat < 128) then fits cs
  else if (cs.drop 2).take 2 = ['-', '-'] then none
  else fits ("xn--".toList ++ punycode cs)

/-- A name with letters outside ASCII, label by label. -/
def ascii? (s : String) : Option String := do
  let dots := s.toList.map (fun c => if ['。', '．', '｡'].contains c then '.' else c)
  let labels := dots.splitOn '.'
  let (labels, ending) :=
    if labels.getLast? = some [] then (labels.dropLast, ['.']) else (labels, [])
  let labels ← labels.mapM label?
  return String.ofList (['.'].intercalate labels ++ ending)

/-! ### Hosts -/

/-- Characters that stay as they are in a name. -/
def isSafe (c : Char) : Bool := "!$&'()*+,;=\"`\x7b\x7d%|\\".toList.contains c

/-- A host as it stands in an address, without brackets. -/
def normal? (s : String) : Option String :=
  let cs := s.toList
  if cs.isEmpty then some ""
  else if looksNumeric s then (if isFourNumbers s then some s else none)
  else if cs.head? = some '[' && 1 < cs.length && cs.getLast? = some ']' then
    let inner := String.ofList (cs.drop 1).dropLast
    if isLongAddress inner then some inner else none
  else if cs.all (·.toNat < 128) then
    some (Percent.encode isSafe (String.ofList (cs.map Char.toLower)))
  else ascii? (Text.lowerAscii s)

end Restline.Web.HostName
