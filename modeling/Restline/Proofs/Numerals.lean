import Mathlib
import Restline.Proofs.LongNumerals
import Restline.Proofs.Overflow

/-!
Numerals of the standard: a minus sign perhaps, digits that begin with no zero unless they are a single one,
then perhaps a point with digits and an exponent. What is read at the front of characters is the longest
numeral there, and it is read as the number that it stands for, unless it is whole and too long.

* `Json.Exponent`, `Json.Magnitude`, `Json.Numeral` : numerals by their parts.
* `Json.Magnitude.read`, `Json.readUnsigned_chars` : **what a numeral is read as**.
* `Json.exists_of_readNumber` : **whatever is read as a number is a numeral**.
* `Json.Numeral.read_cases` : numerals that are read as finite numbers.
-/

set_option autoImplicit false

namespace Restline

open Number (Binary64)

namespace Json

/-! ### The parts of a numeral -/

/-- The mark, the sign and the digits of an exponent. -/
structure Exponent where
  mark : Char
  sign : List Char
  digits : List Char
  mark_eq : mark = 'e' ∨ mark = 'E'
  sign_eq : sign = [] ∨ sign = ['+'] ∨ sign = ['-']
  digits_ne : digits ≠ []
  areDigits : AreDigits digits

/-- The digits before a point, those behind it, if there are any, and an exponent. -/
structure Magnitude where
  whole : List Char
  fraction : List Char
  exponent : Option Exponent
  isWhole : IsWhole whole
  areDigits : AreDigits fraction

/-- A magnitude with its sign. -/
structure Numeral where
  negative : Bool
  magnitude : Magnitude

namespace Exponent

/-- The characters of an exponent. -/
def chars (x : Exponent) : List Char := x.mark :: (x.sign ++ x.digits)

/-- The power of ten that it stands for. -/
def value (x : Exponent) : ℤ := if x.sign = ['-'] then -(Json.numeral x.digits : ℤ) else Json.numeral x.digits

end Exponent

namespace Magnitude

/-- The characters of the fraction, with the point. -/
def fractionChars (m : Magnitude) : List Char := if m.fraction = [] then [] else '.' :: m.fraction

/-- The characters of the exponent, if there is one. -/
def exponentChars (m : Magnitude) : List Char := (m.exponent.map Exponent.chars).getD []

/-- The characters of a magnitude. -/
def chars (m : Magnitude) : List Char := m.whole ++ (m.fractionChars ++ m.exponentChars)

/-- All digits, without the point. -/
def digits (m : Magnitude) : ℕ := Json.numeral (m.whole ++ m.fraction)

/-- The place of the last of them. -/
def place (m : Magnitude) : ℤ := (m.exponent.map Exponent.value).getD 0 - m.fraction.length

/-- Neither a fraction nor an exponent is written. -/
def IsInteger (m : Magnitude) : Prop := m.fraction = [] ∧ m.exponent = none

instance (m : Magnitude) : Decidable m.IsInteger :=
  decidable_of_iff (m.fraction = [] ∧ m.exponent.isNone) (by simp [IsInteger])

/-- The number that it is read as, with a sign. -/
def read (m : Magnitude) (negative : Bool) : Except ReadFault Json :=
  if m.IsInteger then
    if Text.maxDigits < m.whole.length then .error (.overlong m.whole.length)
    else .ok (.int (if negative then -(Json.numeral m.whole : ℤ) else Json.numeral m.whole))
  else .ok (.float (Binary64.ofDecimal negative m.digits m.place))

/-- It is too great for a binary number, as which it is read if it is no integer. -/
def Overflows (m : Magnitude) : Prop :=
  ¬ m.IsInteger ∧ Binary64.overflowBound ≤ (m.digits * 10 ^ m.place : ℚ)

end Magnitude

namespace Numeral

/-- The characters of a numeral. -/
def chars (n : Numeral) : List Char := (if n.negative then ['-'] else []) ++ n.magnitude.chars

/-- The number that it is read as. -/
def read (n : Numeral) : Except ReadFault Json := n.magnitude.read n.negative

/-- It is too great for a binary number. -/
def Overflows (n : Numeral) : Prop := n.magnitude.Overflows

end Numeral

/-! ### Numerals are read -/

variable {start rest cs : List Char} {negative : Bool} {v : Json}

theorem fraction_chars (m : Magnitude) (hrest : EndsDigits rest) (hpoint : ∀ c ∈ rest.head?, c ≠ '.') :
    fraction (m.fractionChars ++ rest) = (m.fraction, rest) := by
  rw [Magnitude.fractionChars]
  split
  · rename_i hempty
    rw [hempty]
    exact fraction_of_ne hpoint
  · rename_i hne
    exact fraction_append hne m.areDigits hrest

/-- An exponent with its digits is read whole. -/
theorem exponent_chars (x : Exponent) (hrest : EndsDigits rest) :
    exponent (x.chars ++ rest) = (some x.value, rest) := by
  have hspan := span_digits x.areDigits hrest
  obtain ⟨d, r, hdigits⟩ := List.exists_cons_of_ne_nil x.digits_ne
  have hd : isDecimal d = true := x.areDigits d (hdigits ▸ List.mem_cons_self)
  rw [Exponent.chars, Exponent.value, List.cons_append, List.append_assoc, exponent.eq_def]
  dsimp only
  rw [if_pos x.mark_eq]
  rcases x.sign_eq with h | h | h
  · -- the first digit is no sign
    rw [h, List.nil_append, hdigits, List.cons_append]
    rw [hdigits, List.cons_append] at hspan
    split
    · rename_i heq
      rw [(List.cons_eq_cons.1 heq).1] at hd
      exact absurd hd (by decide)
    · rename_i heq
      rw [(List.cons_eq_cons.1 heq).1] at hd
      exact absurd hd (by decide)
    · rw [hspan]
      rfl
  · rw [h, hdigits]
    rw [hdigits] at hspan
    simp only [List.singleton_append, hspan]
    rfl
  · rw [h, hdigits]
    rw [hdigits] at hspan
    simp only [List.singleton_append, hspan]
    rfl

theorem exponent_exponentChars (m : Magnitude) (hrest : EndsNumber rest) :
    exponent (m.exponentChars ++ rest) = (m.exponent.map Exponent.value, rest) := by
  rw [Magnitude.exponentChars]
  cases m.exponent with
  | none => exact exponent_of_ne fun c hc => (hrest c hc).2.2
  | some x => exact exponent_chars x hrest.endsDigits

/-- What follows the digits before the point is no digit. -/
theorem endsDigits_exponentChars (m : Magnitude) (hrest : EndsNumber rest) :
    EndsDigits (m.exponentChars ++ rest) ∧ ∀ c ∈ (m.exponentChars ++ rest).head?, c ≠ '.' := by
  rw [Magnitude.exponentChars]
  cases m.exponent with
  | none => exact ⟨hrest.endsDigits, fun c hc => (hrest c hc).2.1⟩
  | some x =>
      have hmark : isDecimal x.mark = false ∧ x.mark ≠ '.' := by
        rcases x.mark_eq with h | h <;> rw [h] <;> decide
      constructor
      · rintro c ⟨⟩
        exact hmark.1
      · rintro c ⟨⟩
        exact hmark.2

theorem endsDigits_fractionChars (m : Magnitude) (hrest : EndsDigits rest) :
    EndsDigits (m.fractionChars ++ rest) := by
  rw [Magnitude.fractionChars]
  split
  · exact hrest
  · exact endsDigits_point _

/-- **What a magnitude is read as**, whatever follows it. -/
theorem readUnsigned_chars (m : Magnitude) (hrest : EndsNumber rest) :
    readUnsigned start negative (m.chars ++ rest) = (m.read negative).map (·, rest) := by
  obtain ⟨hexponent, hpoint⟩ := endsDigits_exponentChars m hrest
  rw [Magnitude.chars, List.append_assoc, List.append_assoc, readUnsigned,
    wholePart?_append m.isWhole (endsDigits_fractionChars m hexponent)]
  dsimp only
  rw [fraction_chars m hexponent hpoint]
  dsimp only
  rw [exponent_exponentChars m hrest, Magnitude.read]
  dsimp only
  have hplain : (m.fraction.isEmpty && (m.exponent.map Exponent.value).isNone) = true ↔ m.IsInteger := by
    simp [Magnitude.IsInteger]
  by_cases hinteger : m.IsInteger
  · rw [if_pos (hplain.2 hinteger), if_pos hinteger]
    split <;> rfl
  · rw [if_neg (fun h => hinteger (hplain.1 h)), if_neg hinteger]
    rfl

/-- A magnitude begins with a digit. -/
theorem Magnitude.exists_chars (m : Magnitude) : ∃ c r, m.chars = c :: r ∧ isDecimal c = true := by
  obtain ⟨hdigits, hwhole⟩ := m.isWhole
  obtain ⟨c, r, hcs⟩ : ∃ c r, m.whole = c :: r := by
    rcases hwhole with h | ⟨d, r, h, -⟩
    · exact ⟨_, _, h⟩
    · exact ⟨_, _, h⟩
  exact ⟨c, r ++ (m.fractionChars ++ m.exponentChars), by rw [Magnitude.chars, hcs]; rfl,
    hdigits c (hcs ▸ List.mem_cons_self)⟩

/-- What a numeral is read as, whatever follows it. -/
theorem readNumber_chars (n : Numeral) (hrest : EndsNumber rest) :
    readNumber (n.chars ++ rest) = n.read.map (·, rest) := by
  rw [Numeral.chars, Numeral.read]
  cases n.negative with
  | true => exact readUnsigned_chars n.magnitude hrest
  | false =>
      obtain ⟨c, r, hchars, hc⟩ := n.magnitude.exists_chars
      have hunsigned : readUnsigned (n.magnitude.chars ++ rest) false (n.magnitude.chars ++ rest) =
          (n.magnitude.read false).map (·, rest) := readUnsigned_chars n.magnitude hrest
      rw [if_neg (by decide), List.nil_append]
      rw [hchars, List.cons_append] at hunsigned ⊢
      rw [readNumber_of_decimal hc, hunsigned]

/-! ### What is read is a numeral -/

theorem isWhole_of_wholePart? {ds : List Char} (h : wholePart? cs = some (ds, rest)) : IsWhole ds := by
  refine ⟨(areDigits_of_wholePart? h).2, ?_⟩
  rw [wholePart?.eq_def] at h
  split at h
  · cases h
    exact .inl rfl
  · rename_i c r hzero
    split at h
    · rename_i hc
      rw [List.span_eq_takeWhile_dropWhile, List.takeWhile_cons_of_pos hc] at h
      cases h
      exact .inr ⟨c, _, rfl, hzero⟩
    · cases h
  · cases h

/-- Digits at the front are digits, and all that stand there. -/
theorem append_of_span {ds : List Char} (h : cs.span isDecimal = (ds, rest)) : AreDigits ds ∧ ds ++ rest = cs := by
  rw [List.span_eq_takeWhile_dropWhile] at h
  obtain ⟨rfl, rfl⟩ := Prod.mk.inj h
  exact ⟨fun c hc => List.mem_takeWhile_imp hc, List.takeWhile_append_dropWhile⟩

/-- The digits of a fraction stand behind its point. -/
theorem append_of_fraction (cs : List Char) :
    AreDigits (fraction cs).1 ∧
      (if (fraction cs).1 = [] then [] else '.' :: (fraction cs).1) ++ (fraction cs).2 = cs := by
  have hnone : AreDigits [] := fun _ hc => by cases hc
  rw [fraction.eq_def]
  split
  · rename_i r
    cases hspan : r.span isDecimal with
    | mk ds rest =>
        obtain ⟨hds, happend⟩ := append_of_span hspan
        cases ds with
        | nil => exact ⟨hnone, rfl⟩
        | cons d ds =>
            refine ⟨hds, ?_⟩
            rw [if_neg (List.cons_ne_nil d ds), List.cons_append, happend]
  · exact ⟨hnone, rfl⟩

/-- The exponent that is read stands where it is read, if one is. -/
theorem exists_of_exponent (cs : List Char) :
    ∃ x : Option Exponent, (x.map Exponent.chars).getD [] ++ (exponent cs).2 = cs := by
  have hdigits : ∀ {mark : Char} {sign r ds rest : List Char}, mark = 'e' ∨ mark = 'E' →
      (sign = [] ∨ sign = ['+'] ∨ sign = ['-']) → r.span isDecimal = (ds, rest) → ds ≠ [] →
      ∃ x : Option Exponent, (x.map Exponent.chars).getD [] ++ rest = mark :: (sign ++ r) := by
    intro mark sign r ds rest hmark hsign hspan hne
    obtain ⟨hds, happend⟩ := append_of_span hspan
    refine ⟨some ⟨mark, sign, ds, hmark, hsign, hne, hds⟩, ?_⟩
    rw [Option.map_some, Option.getD_some, Exponent.chars, List.cons_append, List.append_assoc, happend]
  rw [exponent.eq_def]
  cases cs with
  | nil => exact ⟨none, rfl⟩
  | cons c r =>
      dsimp only
      split
      · rename_i hmark
        split <;> split <;> rename_i hspan
        · exact ⟨none, rfl⟩
        · exact hdigits hmark (.inr (.inl rfl)) hspan ‹_›
        · exact ⟨none, rfl⟩
        · exact hdigits hmark (.inr (.inr rfl)) hspan ‹_›
        · exact ⟨none, rfl⟩
        · exact hdigits hmark (.inl rfl) hspan ‹_›
      · exact ⟨none, rfl⟩

/-- Whatever is read as a number without a sign is a magnitude. -/
theorem exists_of_readUnsigned_ok (h : readUnsigned start negative cs = .ok (v, rest)) :
    ∃ m : Magnitude, m.chars ++ rest = cs := by
  rw [readUnsigned] at h
  cases hwhole : wholePart? cs with
  | none =>
      rw [hwhole] at h
      cases h
  | some w =>
      obtain ⟨whole, r⟩ := w
      have hcs := append_of_wholePart? hwhole
      obtain ⟨hdigits, hfraction⟩ := append_of_fraction r
      obtain ⟨x, hexponent⟩ := exists_of_exponent (fraction r).2
      have hrest : (exponent (fraction r).2).2 = rest := by
        rw [hwhole] at h
        dsimp only at h
        split at h
        · split at h
          · cases h
          · cases h
            rfl
        · cases h
          rfl
      refine ⟨⟨whole, (fraction r).1, x, isWhole_of_wholePart? hwhole, hdigits⟩, ?_⟩
      rw [hrest] at hexponent
      rw [Magnitude.chars, Magnitude.fractionChars, Magnitude.exponentChars, List.append_assoc, List.append_assoc,
        hexponent, hfraction, hcs]

/-- **Whatever is read as a number is a numeral.** -/
theorem exists_of_readNumber (h : readNumber cs = .ok (v, rest)) : ∃ n : Numeral, n.chars ++ rest = cs := by
  rw [readNumber.eq_def] at h
  split at h
  · obtain ⟨m, hm⟩ := exists_of_readUnsigned_ok h
    exact ⟨⟨true, m⟩, congrArg ('-' :: ·) hm⟩
  · obtain ⟨m, hm⟩ := exists_of_readUnsigned_ok h
    exact ⟨⟨false, m⟩, hm⟩

/-! ### Numerals that overflow -/

/-- A magnitude is read as a number, or is whole and too long. -/
theorem Magnitude.read_cases (m : Magnitude) (negative : Bool) :
    (∃ v, m.read negative = .ok v ∧ (v.isFinite = true ↔ ¬ m.Overflows)) ∨
      ∃ n, m.read negative = .error (.overlong n) := by
  rw [Magnitude.read, Magnitude.Overflows]
  split
  · rename_i hinteger
    split
    · exact .inr ⟨_, rfl⟩
    · exact .inl ⟨_, rfl, iff_of_true rfl fun h => h.1 hinteger⟩
  · rename_i hinteger
    refine .inl ⟨_, rfl, ?_⟩
    rw [Json.isFinite, Binary64.isFinite_ofDecimal_iff, not_and, not_le]
    exact ⟨fun h _ => h, fun h => h hinteger⟩

/-- **A numeral is read as a number, or is whole and too long**; the number is finite exactly if the numeral is
not too great. -/
theorem Numeral.read_cases (n : Numeral) :
    (∃ v, n.read = .ok v ∧ (v.isFinite = true ↔ ¬ n.Overflows)) ∨ ∃ k, n.read = .error (.overlong k) :=
  n.magnitude.read_cases n.negative

end Json

end Restline
