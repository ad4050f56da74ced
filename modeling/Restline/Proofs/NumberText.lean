import Mathlib
import Restline.Json.Reader
import Restline.Json.Writer
import Restline.Proofs.ShortestDigits

/-!
Numbers are read back from their text. A whole number is written as its digits, any other with a point or
an exponent; so the two are told apart, and the digits that are written stand for a ratio that rounds to
the number.

* `Json.EndsNumber` : what may follow a number.
* `Json.readNumber_int` : a whole number is read back.
* `Json.readNumber_float` : **a finite number is read back**, whatever notation it is written in.
-/

set_option autoImplicit false

namespace Restline

open Number (Binary64)

namespace Json

/-! ### Digits -/

/-- Digits only. -/
def AreDigits (ds : List Char) : Prop := ∀ c ∈ ds, isDecimal c = true

/-- The characters do not begin with a digit. -/
def EndsDigits (rest : List Char) : Prop := ∀ c ∈ rest.head?, isDecimal c = false

theorem isDecimal_iff (c : Char) : isDecimal c = true ↔ 48 ≤ c.toNat ∧ c.toNat ≤ 57 := by
  simp [isDecimal, Char.le_def, UInt32.le_iff_toNat_le]

theorem isDecimal_eq (c : Char) : isDecimal c = c.isDigit := by
  rw [Bool.eq_iff_iff, isDecimal_iff, Char.isDigit_iff_toNat]
  rfl

theorem areDigits_toDigits (n : ℕ) : AreDigits (Nat.toDigits 10 n) := by
  intro c hc
  rw [isDecimal_eq]
  exact Nat.isDigit_of_mem_toDigits (by decide) (by decide) hc

theorem AreDigits.append {a b : List Char} (ha : AreDigits a) (hb : AreDigits b) : AreDigits (a ++ b) := by
  intro c hc
  rcases List.mem_append.1 hc with h | h
  · exact ha c h
  · exact hb c h

theorem AreDigits.of_subset {a b : List Char} (hb : AreDigits b) (h : a ⊆ b) : AreDigits a :=
  fun c hc => hb c (h hc)

theorem areDigits_zeros (n : ℕ) : AreDigits (List.replicate n '0') := by
  intro c hc
  rw [List.eq_of_mem_replicate hc]
  decide

/-- The digits at the front, when something else follows them. -/
theorem span_digits {ds rest : List Char} (hds : AreDigits ds) (hrest : EndsDigits rest) :
    (ds ++ rest).span isDecimal = (ds, rest) := by
  rw [List.span_eq_takeWhile_dropWhile, List.takeWhile_append_of_pos hds, List.dropWhile_append_of_pos hds]
  cases rest with
  | nil => simp
  | cons c r =>
      have hc : isDecimal c = false := hrest c rfl
      simp [hc]

/-! ### The value of a numeral -/

theorem numeral_eq (ds : List Char) : numeral ds = Nat.ofDigitChars 10 ds 0 := by
  rw [numeral, Nat.ofDigitChars_eq_foldl]
  congr 1
  funext n c
  rw [Nat.mul_comm]
  rfl

@[simp] theorem numeral_toDigits (n : ℕ) : numeral (Nat.toDigits 10 n) = n := by
  rw [numeral_eq, Nat.ofDigitChars_ten_toDigits]

theorem numeral_append (a b : List Char) : numeral (a ++ b) = 10 ^ b.length * numeral a + numeral b := by
  rw [numeral_eq, Nat.ofDigitChars_append, Nat.ofDigitChars_eq_ofDigitChars_zero, ← numeral_eq, ← numeral_eq]

@[simp] theorem numeral_zeros (n : ℕ) : numeral (List.replicate n '0') = 0 := by
  rw [numeral_eq, Nat.ofDigitChars_replicate_zero, Nat.mul_zero]

/-- Zeros in front do not count. -/
theorem numeral_zeros_append (n : ℕ) (ds : List Char) :
    numeral (List.replicate n '0' ++ ds) = numeral ds := by
  rw [numeral_append, numeral_zeros, Nat.mul_zero, Nat.zero_add]

theorem numeral_append_zeros (ds : List Char) (n : ℕ) :
    numeral (ds ++ List.replicate n '0') = 10 ^ n * numeral ds := by
  rw [numeral_append, numeral_zeros, List.length_replicate, Nat.add_zero]

/-! ### The parts of a number -/

/-- What follows a number does not go on with it. -/
def EndsNumber (rest : List Char) : Prop :=
  ∀ c ∈ rest.head?, isDecimal c = false ∧ c ≠ '.' ∧ c ≠ 'e' ∧ c ≠ 'E'

theorem EndsNumber.endsDigits {rest : List Char} (h : EndsNumber rest) : EndsDigits rest :=
  fun c hc => (h c hc).1

/-- Digits as they may stand before a point: a single zero, or digits that begin with none. -/
def IsWhole (ds : List Char) : Prop := AreDigits ds ∧ (ds = ['0'] ∨ ∃ d r, ds = d :: r ∧ d ≠ '0')

theorem isWhole_zero : IsWhole ['0'] := ⟨areDigits_zeros 1, .inl rfl⟩

/-- More digits may follow digits that begin with no zero. -/
theorem IsWhole.append {d : Char} {r ds : List Char} (hdr : AreDigits (d :: r)) (hd : d ≠ '0')
    (hds : AreDigits ds) : IsWhole (d :: r ++ ds) :=
  ⟨hdr.append hds, .inr ⟨d, r ++ ds, rfl, hd⟩⟩

theorem isWhole_toDigits (n : ℕ) : IsWhole (Nat.toDigits 10 n) := by
  refine ⟨areDigits_toDigits n, ?_⟩
  induction n using Nat.base_induction 10 (by decide) with
  | single n hn =>
      rw [Nat.toDigits_of_lt_base hn]
      by_cases hz : n = 0
      · exact .inl (by rw [hz]; rfl)
      · exact .inr ⟨_, _, rfl, by rwa [Ne, Nat.digitChar_eq_zero]⟩
  | digit n d hd hn ih =>
      rw [← Nat.toDigits_append_toDigits (by decide) hn hd]
      rcases ih with h | ⟨c, r, h, hc⟩
      · have hvalue := numeral_toDigits n
        rw [h] at hvalue
        exact absurd hvalue hn.ne
      · exact .inr ⟨c, r ++ Nat.toDigits 10 d, by rw [h]; rfl, hc⟩

theorem wholePart?_append {ds rest : List Char} (h : IsWhole ds) (hrest : EndsDigits rest) :
    wholePart? (ds ++ rest) = some (ds, rest) := by
  obtain ⟨hds, rfl | ⟨d, r, rfl, hd⟩⟩ := h
  · rfl
  · rw [List.cons_append, wholePart?, if_pos (hds d List.mem_cons_self), ← List.cons_append,
      span_digits hds hrest]
    exact hd

theorem fraction_append {ds rest : List Char} (hne : ds ≠ []) (hds : AreDigits ds) (hrest : EndsDigits rest) :
    fraction ('.' :: (ds ++ rest)) = (ds, rest) := by
  rw [fraction, span_digits hds hrest]
  cases ds with
  | nil => exact absurd rfl hne
  | cons d r => rfl

theorem fraction_of_ne {rest : List Char} (h : ∀ c ∈ rest.head?, c ≠ '.') : fraction rest = ([], rest) := by
  rw [fraction.eq_def]
  split
  · exact absurd rfl (h '.' rfl)
  · rfl

theorem exponent_of_ne {rest : List Char} (h : ∀ c ∈ rest.head?, c ≠ 'e' ∧ c ≠ 'E') :
    exponent rest = (none, rest) := by
  cases rest with
  | nil => rfl
  | cons c r =>
      obtain ⟨he, hE⟩ := h c rfl
      simp [exponent, he, hE]

/-- The digits of an exponent. -/
theorem exists_exponentText (x : ℤ) :
    ∃ ds, ds ≠ [] ∧ AreDigits ds ∧ numeral ds = x.natAbs ∧
      Binary64.exponentText x = 'e' :: (if x < 0 then '-' else '+') :: ds := by
  by_cases hlength : (Nat.toDigits 10 x.natAbs).length < 2
  · refine ⟨'0' :: Nat.toDigits 10 x.natAbs, List.cons_ne_nil _ _,
      (areDigits_zeros 1).append (areDigits_toDigits _), ?_, ?_⟩
    · exact (numeral_zeros_append 1 _).trans (numeral_toDigits _)
    · simp only [Binary64.exponentText, if_pos hlength]
  · refine ⟨Nat.toDigits 10 x.natAbs, Nat.toDigits_ne_nil, areDigits_toDigits _, numeral_toDigits _, ?_⟩
    simp only [Binary64.exponentText, if_neg hlength]

theorem exponent_exponentText (x : ℤ) {rest : List Char} (hrest : EndsDigits rest) :
    exponent (Binary64.exponentText x ++ rest) = (some x, rest) := by
  obtain ⟨ds, hne, hds, hvalue, htext⟩ := exists_exponentText x
  have hspan := span_digits hds hrest
  rw [htext]
  cases ds with
  | nil => exact absurd rfl hne
  | cons d r =>
      by_cases hx : x < 0
      · have hneg : - Int.ofNat x.natAbs = x := by
          rw [Int.ofNat_eq_natCast]
          omega
        simp only [if_pos hx, List.cons_append, exponent, true_or, if_true] at hspan ⊢
        simp only [hspan, hvalue, hneg]
      · have hpos : Int.ofNat x.natAbs = x := by
          rw [Int.ofNat_eq_natCast]
          omega
        simp only [if_neg hx, List.cons_append, exponent, true_or, if_true] at hspan ⊢
        simp only [hspan, hvalue, hpos, Bool.false_eq_true, if_false]

/-! ### Unsigned numbers -/

variable {start whole frac rest : List Char} {negative : Bool}

/-- Digits alone are a whole number. -/
theorem readUnsigned_whole (h : IsWhole whole) (hlength : whole.length ≤ Text.maxDigits)
    (hrest : EndsNumber rest) :
    readUnsigned start negative (whole ++ rest) =
      .ok (.int (if negative then - Int.ofNat (numeral whole) else Int.ofNat (numeral whole)), rest) := by
  rw [readUnsigned, wholePart?_append h hrest.endsDigits]
  simp only [fraction_of_ne fun c hc => (hrest c hc).2.1, exponent_of_ne fun c hc => (hrest c hc).2.2,
    List.isEmpty_nil, Option.isNone_none, Bool.and_self, if_true, if_neg (not_lt.2 hlength)]

theorem endsDigits_point (r : List Char) : EndsDigits ('.' :: r) := by
  intro c hc
  obtain rfl := Option.some_inj.1 hc
  decide

theorem exists_exponentText_append (x : ℤ) (rest : List Char) :
    ∃ r, Binary64.exponentText x ++ rest = 'e' :: r := by
  obtain ⟨ds, -, -, -, htext⟩ := exists_exponentText x
  exact ⟨_, by rw [htext]; rfl⟩

theorem endsDigits_exponentText (x : ℤ) (rest : List Char) :
    EndsDigits (Binary64.exponentText x ++ rest) := by
  obtain ⟨r, htext⟩ := exists_exponentText_append x rest
  intro c hc
  rw [htext] at hc
  obtain rfl := Option.some_inj.1 hc
  decide

/-- Digits with a fraction. -/
theorem readUnsigned_fraction (h : IsWhole whole) (hne : frac ≠ []) (hfrac : AreDigits frac)
    (hrest : EndsNumber rest) :
    readUnsigned start negative (whole ++ '.' :: (frac ++ rest)) =
      .ok (.float (Binary64.ofDecimal negative (numeral (whole ++ frac)) (-frac.length)), rest) := by
  have hempty : frac.isEmpty = false := by rwa [List.isEmpty_eq_false_iff]
  rw [readUnsigned, wholePart?_append h (endsDigits_point _)]
  simp only [fraction_append hne hfrac hrest.endsDigits, exponent_of_ne fun c hc => (hrest c hc).2.2, hempty,
    Bool.false_and, Bool.false_eq_true, if_false, Option.getD_none, Int.ofNat_eq_natCast, zero_sub]

/-- Digits with an exponent. -/
theorem readUnsigned_exponent (h : IsWhole whole) (x : ℤ) (hrest : EndsNumber rest) :
    readUnsigned start negative (whole ++ (Binary64.exponentText x ++ rest)) =
      .ok (.float (Binary64.ofDecimal negative (numeral whole) x), rest) := by
  have hpoint : fraction (Binary64.exponentText x ++ rest) = ([], Binary64.exponentText x ++ rest) := by
    obtain ⟨r, htext⟩ := exists_exponentText_append x rest
    rw [htext]
    rfl
  rw [readUnsigned, wholePart?_append h (endsDigits_exponentText x rest)]
  simp only [hpoint, exponent_exponentText x hrest.endsDigits, Option.isNone_some, Bool.and_false,
    Bool.false_eq_true, if_false, Option.getD_some, List.append_nil, List.length_nil,
    Int.ofNat_eq_natCast, Nat.cast_zero, sub_zero]

/-- Digits with a fraction and an exponent. -/
theorem readUnsigned_fraction_exponent (h : IsWhole whole) (hne : frac ≠ []) (hfrac : AreDigits frac) (x : ℤ)
    (hrest : EndsNumber rest) :
    readUnsigned start negative (whole ++ '.' :: (frac ++ (Binary64.exponentText x ++ rest))) =
      .ok (.float (Binary64.ofDecimal negative (numeral (whole ++ frac)) (x - frac.length)), rest) := by
  have hempty : frac.isEmpty = false := by rwa [List.isEmpty_eq_false_iff]
  rw [readUnsigned, wholePart?_append h (endsDigits_point _)]
  simp only [fraction_append hne hfrac (endsDigits_exponentText x rest),
    exponent_exponentText x hrest.endsDigits, hempty, Bool.false_and, Bool.false_eq_true, if_false,
    Option.getD_some, Int.ofNat_eq_natCast]

/-! ### Notation -/

/-- The text is read as a decimal of the value, whatever its sign and whatever follows it. -/
def ReadsAs (text : List Char) (x : ℚ) : Prop :=
  ∃ (n : ℕ) (k : ℤ), (n * 10 ^ k : ℚ) = x ∧ ∀ start negative rest, EndsNumber rest →
    readUnsigned start negative (text ++ rest) = .ok (.float (Binary64.ofDecimal negative n k), rest)

theorem readsAs_fraction (h : IsWhole whole) (hne : frac ≠ []) (hfrac : AreDigits frac) :
    ReadsAs (whole ++ '.' :: frac) (numeral (whole ++ frac) * 10 ^ (-frac.length : ℤ)) := by
  refine ⟨_, _, rfl, fun start negative rest hrest => ?_⟩
  rw [List.append_assoc, List.cons_append]
  exact readUnsigned_fraction h hne hfrac hrest

variable {d : Char} {r : List Char}

/-- Zeros between the point and the digits. -/
theorem readsAs_zeros_digits (hdr : AreDigits (d :: r)) (k : ℕ) :
    ReadsAs ('0' :: '.' :: (List.replicate k '0' ++ d :: r))
      (numeral (d :: r) * 10 ^ (-k - (d :: r).length : ℤ)) := by
  have hread := readsAs_fraction isWhole_zero
    (List.append_ne_nil_of_right_ne_nil (List.replicate k '0') (List.cons_ne_nil d r))
    ((areDigits_zeros k).append hdr)
  have hvalue : numeral (['0'] ++ (List.replicate k '0' ++ d :: r)) = numeral (d :: r) :=
    (numeral_zeros_append 1 _).trans (numeral_zeros_append _ _)
  have hlength : -((List.replicate k '0' ++ d :: r).length : ℤ) = -k - (d :: r).length := by
    rw [List.length_append, List.length_replicate]
    push_cast
    ring
  rwa [hvalue, hlength] at hread

/-- Zeros between the digits and the point. -/
theorem readsAs_digits_zeros (hdr : AreDigits (d :: r)) (hd : d ≠ '0') (k : ℕ) :
    ReadsAs (d :: r ++ List.replicate k '0' ++ ['.', '0']) (numeral (d :: r) * 10 ^ (k : ℤ)) := by
  have hread := readsAs_fraction (IsWhole.append hdr hd (areDigits_zeros k)) (List.cons_ne_nil '0' [])
    (areDigits_zeros 1)
  have hvalue : numeral (d :: r ++ List.replicate k '0' ++ ['0']) = 10 ^ 1 * (10 ^ k * numeral (d :: r)) := by
    rw [← numeral_append_zeros, ← numeral_append_zeros]
    rfl
  have hscale : ((10 ^ 1 * (10 ^ k * numeral (d :: r)) : ℕ) * 10 ^ (-(['0'].length : ℤ)) : ℚ) =
      numeral (d :: r) * 10 ^ (k : ℤ) := by
    rw [List.length_singleton, Nat.cast_one, zpow_neg_one, zpow_natCast]
    push_cast
    ring
  rwa [hvalue, hscale] at hread

/-- The point among the digits. -/
theorem readsAs_digits_point (hdr : AreDigits (d :: r)) (hd : d ≠ '0') {k : ℕ} (hk : k < r.length) :
    ReadsAs ((d :: r).take (k + 1) ++ '.' :: (d :: r).drop (k + 1))
      (numeral (d :: r) * 10 ^ ((k : ℤ) - r.length)) := by
  have hdrop : r.drop k ≠ [] := by
    rw [Ne, List.drop_eq_nil_iff]
    omega
  have hread := readsAs_fraction
    (IsWhole.append (r := []) (hdr.of_subset (by simp)) hd (hdr.of_subset fun c hc =>
      List.mem_cons_of_mem _ (List.mem_of_mem_take (i := k) hc)))
    hdrop (hdr.of_subset fun c hc => List.mem_cons_of_mem _ (List.mem_of_mem_drop hc))
  have hlength : -((r.drop k).length : ℤ) = k - r.length := by
    rw [List.length_drop]
    omega
  have hdigits : [d] ++ r.take k ++ r.drop k = d :: r := by
    rw [List.append_assoc, List.take_append_drop, List.singleton_append]
  rw [hdigits, hlength] at hread
  exact hread

/-- A digit and an exponent. -/
theorem readsAs_digit_exponent (hdecimal : AreDigits [d]) (hd : d ≠ '0') (x : ℤ) :
    ReadsAs (d :: Binary64.exponentText x) (numeral [d] * 10 ^ x) :=
  ⟨_, x, rfl, fun _ _ _ hrest => readUnsigned_exponent ⟨hdecimal, .inr ⟨d, [], rfl, hd⟩⟩ x hrest⟩

/-- A digit, the point, the other digits and an exponent. -/
theorem readsAs_point_exponent (hdr : AreDigits (d :: r)) (hd : d ≠ '0') (hr : r ≠ []) (x : ℤ) :
    ReadsAs (d :: '.' :: (r ++ Binary64.exponentText x)) (numeral (d :: r) * 10 ^ (x - r.length)) := by
  have hfirst : IsWhole [d] := ⟨hdr.of_subset (by simp), .inr ⟨d, [], rfl, hd⟩⟩
  refine ⟨_, _, rfl, fun start negative rest hrest => ?_⟩
  rw [List.cons_append, List.cons_append, List.append_assoc]
  exact readUnsigned_fraction_exponent hfirst hr (hdr.of_subset (List.subset_cons_self d r)) x hrest

/-- Digits with the place of their point are read as a decimal of the same value, in either notation. -/
theorem readsAs_notated (hdr : AreDigits (d :: r)) (hd : d ≠ '0') (p : ℤ) :
    ReadsAs (Binary64.notated (d :: r) p) (numeral (d :: r) * 10 ^ (p - (d :: r).length)) := by
  unfold Binary64.notated
  split
  · split
    · have hp : p = -((-p).toNat : ℤ) := by omega
      rw [hp, neg_neg, Int.toNat_natCast]
      exact readsAs_zeros_digits hdr _
    · simp only []
      split
      · rename_i hle
        have hp : p - (d :: r).length = ((p.toNat - (d :: r).length : ℕ) : ℤ) := by omega
        rw [hp]
        exact readsAs_digits_zeros hdr hd _
      · rename_i hlt
        rw [List.length_cons] at hlt
        obtain ⟨k, hk⟩ : ∃ k, p.toNat = k + 1 := ⟨p.toNat - 1, by omega⟩
        have hp : p - (d :: r).length = k - r.length := by
          rw [List.length_cons]
          omega
        rw [hk, hp]
        exact readsAs_digits_point hdr hd (by omega)
  · have hp : p - (d :: r).length = p - 1 - r.length := by
      rw [List.length_cons]
      omega
    rw [hp]
    cases r with
    | nil =>
        rw [List.length_nil, Nat.cast_zero, sub_zero]
        exact readsAs_digit_exponent hdr hd (p - 1)
    | cons c r => exact readsAs_point_exponent hdr hd (List.cons_ne_nil c r) (p - 1)

/-! ### The digits of a number -/

/-- Digits without the zeros at their end. -/
theorem exists_dropZeros {d : Char} (hd : d ≠ '0') (r : List Char) :
    ∃ r' k, Binary64.dropZeros (d :: r) = d :: r' ∧ d :: r = d :: r' ++ List.replicate k '0' := by
  have hsplit := List.takeWhile_append_dropWhile (p := (· == '0')) (l := (d :: r).reverse)
  obtain ⟨k, hk⟩ : ∃ k, (d :: r).reverse.takeWhile (· == '0') = List.replicate k '0' := by
    refine ⟨_, List.eq_replicate_of_mem fun c hc => ?_⟩
    exact eq_of_beq (List.mem_takeWhile_imp (p := (· == '0')) hc)
  rw [Binary64.dropZeros]
  generalize (d :: r).reverse.dropWhile (· == '0') = left at *
  rw [hk] at hsplit
  have hall := congrArg List.reverse hsplit
  rw [List.reverse_append, List.reverse_replicate, List.reverse_reverse] at hall
  cases hleft : left.reverse with
  | nil =>
      rw [hleft, List.nil_append] at hall
      have hmem : d ∈ List.replicate k '0' := hall ▸ List.mem_cons_self
      exact absurd (List.eq_of_mem_replicate hmem) hd
  | cons c r' =>
      rw [hleft, List.cons_append] at hall
      obtain ⟨rfl, hr⟩ := List.cons_eq_cons.1 hall
      exact ⟨r', k, rfl, by rw [List.cons_append, hr]⟩

variable {m : ℕ} {e : ℤ}

/-- The digits of a number begin with no zero and stand for a ratio in its interval. -/
theorem exists_shortest (h : Binary64.InFormat m e) :
    ∃ d r p, Binary64.shortest m e = (d :: r, p) ∧ AreDigits (d :: r) ∧ d ≠ '0' ∧
      Binary64.Near m e (numeral (d :: r) * 10 ^ (p - (d :: r).length)) := by
  have hnear := Binary64.near_search h
  rw [Binary64.shortest]
  simp only []
  generalize (Binary64.window m e).search (Binary64.window m e).pointPlace 1 17 = found at *
  obtain ⟨c, place⟩ := found
  obtain ⟨hdigits, hzero | ⟨d, r, hdr, hd⟩⟩ := isWhole_toDigits c
  · have hvalue := numeral_toDigits c
    rw [hzero] at hvalue
    have hpos := hnear.pos h
    rw [← hvalue] at hpos
    norm_num [numeral] at hpos
  · obtain ⟨r', k, hdrop, hall⟩ := exists_dropZeros hd r
    rw [hdr] at hdigits ⊢
    have hvalue := numeral_toDigits c
    rw [hdr, hall, numeral_append_zeros] at hvalue
    refine ⟨d, r', _, Prod.ext hdrop rfl, hdigits.of_subset ?_, hd, ?_⟩
    · rw [hall]
      exact List.subset_append_left _ _
    · have hplace : ((d :: r).length : ℤ) + place - (d :: r').length = (k : ℤ) + place := by
        rw [hall, List.length_append, List.length_replicate]
        push_cast
        ring
      rw [hplace, zpow_add₀ (by norm_num), zpow_natCast, ← mul_assoc]
      rw [← hvalue] at hnear
      push_cast at hnear
      rwa [mul_comm (numeral (d :: r') : ℚ)]

/-- A number without its sign is read back. -/
theorem readUnsigned_magnitudeText (h : (Binary64.finite negative m e).IsCanonical) (hrest : EndsNumber rest) :
    readUnsigned start negative (Binary64.magnitudeText m e ++ rest) =
      .ok (.float (.finite negative m e), rest) := by
  rw [Binary64.magnitudeText]
  rcases h with ⟨rfl, rfl⟩ | h
  · exact readUnsigned_fraction isWhole_zero (List.cons_ne_nil '0' []) (areDigits_zeros 1) hrest
  · obtain ⟨d, r, p, hshortest, hdr, hd, hnear⟩ := exists_shortest h
    obtain ⟨n, k, hvalue, hread⟩ := readsAs_notated hdr hd p
    rw [if_neg h.pos.ne', hshortest]
    rw [← hvalue] at hnear
    rw [hread _ _ _ hrest, Binary64.ofDecimal_of_near h hnear]

/-! ### Signed numbers -/

/-- The characters begin with a digit, perhaps behind a minus sign. -/
def BeginsNumber (cs : List Char) : Prop :=
  ∃ c r, isDecimal c = true ∧ (cs = c :: r ∨ cs = '-' :: c :: r)

theorem exists_of_readUnsigned {cs : List Char} {p : Json × List Char}
    (h : readUnsigned start negative cs = .ok p) : ∃ c r, cs = c :: r ∧ isDecimal c = true := by
  rw [readUnsigned] at h
  cases cs with
  | nil => cases h
  | cons c r =>
      refine ⟨c, r, rfl, ?_⟩
      by_contra hc
      have hne : c ≠ '0' := by
        rintro rfl
        exact hc rfl
      have hnone : wholePart? (c :: r) = none := by
        rw [wholePart?, if_neg hc]
        exact hne
      rw [hnone] at h
      cases h

theorem readNumber_of_decimal {c : Char} (hc : isDecimal c = true) (r : List Char) :
    readNumber (c :: r) = readUnsigned (c :: r) false (c :: r) := by
  rw [readNumber.eq_def]
  split
  · rename_i heq
    rw [(List.cons_eq_cons.1 heq).1] at hc
    exact absurd hc (by decide)
  · rfl

/-- The sign of a number is read apart from it. -/
theorem readNumber_signed {text : List Char} {v : Json} (negative : Bool)
    (h : ∀ start, readUnsigned start negative (text ++ rest) = .ok (v, rest)) :
    readNumber ((if negative then ['-'] else []) ++ text ++ rest) = .ok (v, rest) := by
  cases negative with
  | true => exact h _
  | false =>
      obtain ⟨c, r, hcs, hc⟩ := exists_of_readUnsigned (h [])
      rw [if_neg (by decide), List.nil_append, hcs, readNumber_of_decimal hc, ← hcs]
      exact h _

theorem toList_toString_int (n : ℤ) :
    (toString n).toList = (if decide (n < 0) then ['-'] else []) ++ Nat.toDigits 10 n.natAbs := by
  rw [Int.toString_eq_repr, Int.repr_eq_if]
  by_cases h : n < 0
  · have habs : (-n).toNat = n.natAbs := by omega
    rw [if_neg (by omega), decide_eq_true h, if_pos rfl, String.toList_append, Nat.toList_repr, habs]
    rfl
  · have habs : n.toNat = n.natAbs := by omega
    rw [if_pos (by omega), decide_eq_false h, if_neg (by decide), Nat.toList_repr, habs]
    rfl

/-- A whole number is read back, unless it is too long. -/
theorem readNumber_int {n : ℤ} (hn : (Nat.toDigits 10 n.natAbs).length ≤ Text.maxDigits)
    (hrest : EndsNumber rest) : readNumber ((toString n).toList ++ rest) = .ok (.int n, rest) := by
  have hsign : (if decide (n < 0) then - Int.ofNat n.natAbs else Int.ofNat n.natAbs) = n := by
    rw [Int.ofNat_eq_natCast]
    split
    · rename_i h
      rw [decide_eq_true_eq] at h
      omega
    · rename_i h
      rw [decide_eq_true_eq] at h
      omega
  rw [toList_toString_int]
  refine readNumber_signed _ fun start => ?_
  rw [readUnsigned_whole (isWhole_toDigits _) hn hrest, numeral_toDigits, hsign]

/-- **A finite number is read back**, whatever notation it is written in. -/
theorem readNumber_float {x : Binary64} (hx : x.IsCanonical) (hfinite : x.isFinite = true)
    (hrest : EndsNumber rest) :
    readNumber ((x.toText spelling).toList ++ rest) = .ok (.float x, rest) := by
  cases x with
  | nan => cases hfinite
  | infinity negative => cases hfinite
  | finite negative m e =>
      have htext : ((Binary64.finite negative m e).toText spelling).toList =
          (if negative then ['-'] else []) ++ Binary64.magnitudeText m e := by
        cases negative <;> simp [Binary64.toText]
      rw [htext]
      exact readNumber_signed _ fun start => readUnsigned_magnitudeText hx hrest

theorem beginsNumber_of_readNumber {cs : List Char} {p : Json × List Char} (h : readNumber cs = .ok p) :
    BeginsNumber cs := by
  rw [readNumber.eq_def] at h
  split at h
  · obtain ⟨c, r, rfl, hc⟩ := exists_of_readUnsigned h
    exact ⟨c, r, hc, .inr rfl⟩
  · obtain ⟨c, r, rfl, hc⟩ := exists_of_readUnsigned h
    exact ⟨c, r, hc, .inl rfl⟩

end Json

/-! ### Numerals that are given -/

namespace Text

open Json

theorem trimBoth_of_none {p : Char → Bool} {cs : List Char} (h : ∀ c ∈ cs, p c = false) :
    trimBoth p cs = cs := by
  have hdrop : ∀ l : List Char, (∀ c ∈ l, p c = false) → l.dropWhile p = l := by
    intro l hl
    cases l with
    | nil => rfl
    | cons c r => exact List.dropWhile_cons_of_neg (by simp [hl c List.mem_cons_self])
  rw [trimBoth, hdrop cs h, hdrop cs.reverse fun c hc => h c (List.mem_reverse.1 hc), List.reverse_reverse]

theorem decimalValue?_of_isDecimal {c : Char} (h : isDecimal c = true) :
    decimalValue? c = some (c.toNat - 48) := by
  obtain ⟨hlow, hhigh⟩ := (isDecimal_iff c).1 h
  simp only [decimalValue?]
  rw [if_pos (by omega), if_pos ⟨hlow, hhigh⟩]

/-- Where there are no underscores, the digits of a numeral are the values of its characters. -/
theorem digitsOf?_eq_some_iff {cs : List Char} {ds : List ℕ} (hne : cs ≠ []) (hunder : '_' ∉ cs) :
    digitsOf? cs = some ds ↔
      (∀ c ∈ cs, (decimalValue? c).isSome = true) ∧ cs.filterMap decimalValue? = ds := by
  induction cs generalizing ds with
  | nil => exact absurd rfl hne
  | cons c r ih =>
      rw [List.forall_mem_cons, List.filterMap_cons]
      cases r with
      | nil => cases hc : decimalValue? c <;> simp [digitsOf?, hc]
      | cons d r =>
          obtain ⟨-, hr⟩ := not_or.1 (mt List.mem_cons.2 hunder)
          have hd : d ≠ '_' := fun h => hr (h ▸ List.mem_cons_self)
          rw [digitsOf?]
          · cases hc : decimalValue? c with
            | none => simp
            | some v =>
                simp only [Option.bind_eq_bind, Option.bind_some, Option.bind_eq_some_iff,
                  ih (List.cons_ne_nil d r) hr, Option.pure_def, Option.some_inj, Option.isSome_some, true_and]
                constructor
                · rintro ⟨vs, ⟨hall, rfl⟩, rfl⟩
                  exact ⟨hall, rfl⟩
                · rintro ⟨hall, rfl⟩
                  exact ⟨_, ⟨hall, rfl⟩, rfl⟩
          · exact List.cons_ne_nil d r
          · intro r' h
            exact hd (List.cons_eq_cons.1 h).1

theorem digitsOf?_digits {ds : List Char} (hne : ds ≠ []) (h : AreDigits ds) :
    digitsOf? ds = some (ds.map fun c => c.toNat - 48) := by
  have hvalue : ∀ c ∈ ds, decimalValue? c = some (c.toNat - 48) := fun c hc =>
    decimalValue?_of_isDecimal (h c hc)
  rw [digitsOf?_eq_some_iff hne fun hunder => absurd (h '_' hunder) (by decide), ← List.filterMap_eq_map]
  exact ⟨fun c hc => by rw [hvalue c hc, Option.isSome_some], List.filterMap_congr hvalue⟩

theorem ofUnsigned?_digits {ds : List Char} (hne : ds ≠ []) (h : AreDigits ds)
    (hlength : ds.length ≤ maxDigits) : ofUnsigned? ds = some (numeral ds) := by
  have hvalue : ofDigits (ds.map fun c => c.toNat - 48) = numeral ds := by
    rw [ofDigits, numeral, List.foldl_map]
  simp only [ofUnsigned?, digitsOf?_digits hne h, Option.bind_eq_bind, Option.bind_some, List.length_map,
    if_pos hlength, hvalue]

theorem isSpace_of_isDecimal {c : Char} (h : isDecimal c = true) : isSpace c = false := by
  obtain ⟨hlow, hhigh⟩ := (isDecimal_iff c).1 h
  simp [isSpace]
  omega

/-- A whole number is read from its digits, unless there are too many. -/
theorem ofNumeral?_toString {n : ℤ} (hn : (Nat.toDigits 10 n.natAbs).length ≤ maxDigits) :
    ofNumeral? (toString n) = some n := by
  have hall := areDigits_toDigits n.natAbs
  have hread := ofUnsigned?_digits Nat.toDigits_ne_nil hall hn
  rw [numeral_toDigits] at hread
  have hspace : ∀ c ∈ (toString n).toList, isSpace c = false := by
    intro c hc
    rw [toList_toString_int, List.mem_append] at hc
    rcases hc with hc | hc
    · split at hc
      · obtain rfl := List.mem_singleton.1 hc
        decide
      · cases hc
    · exact isSpace_of_isDecimal (hall c hc)
  rw [ofNumeral?, trimBoth_of_none hspace, toList_toString_int]
  by_cases hneg : n < 0
  · rw [decide_eq_true hneg, if_pos rfl, List.singleton_append]
    simp only [hread, Option.map_some, Int.ofNat_eq_natCast, Option.some_inj]
    omega
  · rw [decide_eq_false hneg, if_neg (by decide), List.nil_append]
    split
    · rename_i heq
      exact absurd (hall '+' (heq ▸ List.mem_cons_self)) (by decide)
    · rename_i heq
      exact absurd (hall '-' (heq ▸ List.mem_cons_self)) (by decide)
    · simp only [hread, Option.map_some, Int.ofNat_eq_natCast, Option.some_inj]
      omega

end Text

end Restline
