import Mathlib
import Restline.Number.Shortest

/-!
Rounding to binary numbers. A finite number other than zero is the one that a whole interval of ratios
rounds to: half of the distance to the next number on either side belongs to it, the ends of the interval
only if its significand is even.

* `Binary64.IsCanonical` : numbers in the only form in which they come out of rounding.
* `Binary64.exponentFor_spec` : the exponent with which the significand of a ratio has its full length.
* `Binary64.roundHalfEven_eq` : the whole number nearest to a ratio.
* `Binary64.ofRatio_of_near` : **ratios in the interval of a number round to it**.
* `Binary64.isCanonical_ofRatio`, `Binary64.isCanonical_ofDecimal` : what rounding gives.
-/

set_option autoImplicit false

namespace Restline.Number.Binary64

/-! ### Numbers as they come out of rounding -/

/-- The significand and the exponent of a positive number, the significand in its full length unless the
exponent is the least one. -/
structure InFormat (m : ℕ) (e : ℤ) : Prop where
  pos : 0 < m
  bounded : m < 2 ^ 53
  least : minExponent ≤ e
  greatest : e ≤ maxExponent
  full : 2 ^ 52 ≤ m ∨ e = minExponent

/-- The number is in the only form in which it comes out of rounding. -/
def IsCanonical : Binary64 → Prop
  | .finite _ m e => m = 0 ∧ e = 0 ∨ InFormat m e
  | _ => True

/-! ### Powers of two -/

theorem zpow_two_pos (e : ℤ) : (0 : ℚ) < 2 ^ e := zpow_pos (by norm_num) e

/-- A whole power is a quotient of natural powers. -/
theorem zpow_toNat (b : ℚ) (e : ℤ) : b ^ e = b ^ e.toNat / b ^ (-e).toNat := by
  rcases Int.le_total 0 e with h | h
  · obtain ⟨n, rfl⟩ := Int.eq_ofNat_of_zero_le h
    simp
  · obtain ⟨n, hn⟩ := Int.eq_ofNat_of_zero_le (Int.neg_nonneg.2 h)
    obtain rfl : e = -n := by omega
    simp

theorem scaled_pos (num : ℕ) {den : ℕ} (hden : 0 < den) (e : ℤ) : 0 < (scaled num den e).2 := by
  rw [scaled]
  split
  · exact Nat.mul_pos hden (Nat.pow_pos (by decide))
  · exact hden

/-- Scaling divides by a power of two. -/
theorem scaled_div (num den : ℕ) (e : ℤ) :
    ((scaled num den e).1 : ℚ) / (scaled num den e).2 = num / den / 2 ^ e := by
  rw [scaled, zpow_toNat]
  split
  · rename_i h
    have hneg : (-e).toNat = 0 := by omega
    simp only [hneg, Nat.pow_eq]
    push_cast
    rw [pow_zero, div_one, div_div]
  · rename_i h
    have hpos : e.toNat = 0 := by omega
    simp only [hpos, Nat.pow_eq]
    push_cast
    rw [pow_zero, one_div, div_inv_eq_mul, div_mul_eq_mul_div]

/-! ### The nearest whole number -/

/-- The nearest whole number: half a unit off at most, and less than that unless it is even. -/
theorem roundHalfEven_eq {num den m : ℕ} (hden : 0 < den) (hlow : 2 * m * den ≤ 2 * num + den)
    (hhigh : 2 * num ≤ 2 * m * den + den)
    (hodd : m % 2 = 1 → 2 * m * den < 2 * num + den ∧ 2 * num < 2 * m * den + den) :
    roundHalfEven num den = m := by
  have hsplit := Nat.div_add_mod num den
  have hmod := Nat.mod_lt num hden
  rw [roundHalfEven]
  generalize num / den = q at hsplit ⊢
  generalize num % den = r at hsplit hmod ⊢
  -- the whole part of the ratio is the nearest number, or one less
  have hcases : m = q ∨ m = q + 1 := by
    have hle : m ≤ q + 1 := by
      by_contra hlt
      have hq : (q + 2) * den ≤ m * den := Nat.mul_le_mul_right den (by omega)
      nlinarith
    have hge : q ≤ m := by
      by_contra hlt
      have hq : (m + 1) * den ≤ q * den := Nat.mul_le_mul_right den (by omega)
      nlinarith
    omega
  rcases hcases with rfl | rfl
  · have htwo : 2 * num = 2 * m * den + 2 * r := by rw [← hsplit]; ring
    split_ifs <;> omega
  · have htwo : 2 * num + 2 * den = 2 * (q + 1) * den + 2 * r := by rw [← hsplit]; ring
    split_ifs <;> omega

theorem le_roundHalfEven (num den : ℕ) : num / den ≤ roundHalfEven num den := by
  rw [roundHalfEven]
  split_ifs <;> omega

theorem roundHalfEven_le (num den : ℕ) : roundHalfEven num den ≤ num / den + 1 := by
  rw [roundHalfEven]
  split_ifs <;> omega

/-! ### The exponent -/

theorem log2_bounds {n : ℕ} (h : 0 < n) :
    (2 : ℚ) ^ (Nat.log2 n : ℤ) ≤ n ∧ (n : ℚ) < 2 * 2 ^ (Nat.log2 n : ℤ) := by
  rw [zpow_natCast, ← pow_succ']
  constructor
  · exact_mod_cast Nat.log2_self_le h.ne'
  · exact_mod_cast Nat.lt_log2_self

/-- A ratio is known by the lengths of its parts, up to a factor of four. -/
theorem ratio_bounds {num den : ℕ} (hnum : 0 < num) (hden : 0 < den) :
    (2 : ℚ) ^ ((Nat.log2 num : ℤ) - Nat.log2 den) < 2 * (num / den) ∧
      (num : ℚ) / den < 2 * 2 ^ ((Nat.log2 num : ℤ) - Nat.log2 den) := by
  obtain ⟨hnum₁, hnum₂⟩ := log2_bounds hnum
  obtain ⟨hden₁, hden₂⟩ := log2_bounds hden
  have hpos : (0 : ℚ) < den := by exact_mod_cast hden
  have hpow := zpow_two_pos (Nat.log2 den)
  rw [zpow_sub₀ (by norm_num)]
  generalize (2 : ℚ) ^ (Nat.log2 num : ℤ) = A at *
  generalize (2 : ℚ) ^ (Nat.log2 den : ℤ) = B at *
  have hA : 0 < A := by
    have hnum₀ : (0 : ℚ) < num := by exact_mod_cast hnum
    linarith
  constructor
  · rw [← mul_div_assoc, div_lt_div_iff₀ hpow hpos]
    nlinarith
  · rw [← mul_div_assoc, div_lt_div_iff₀ hpos hpow]
    nlinarith

/-- The guess at the exponent, and what is tested to correct it. -/
theorem guess_spec {num den : ℕ} (hnum : 0 < num) (hden : 0 < den) {guess : ℤ}
    (hguess : guess = (Nat.log2 num : ℤ) - Nat.log2 den - 52) :
    2 ^ 51 * 2 ^ guess < (num : ℚ) / den ∧ (num : ℚ) / den < 2 ^ 53 * 2 ^ guess ∧
      ((scaled num den guess).1 < (scaled num den guess).2 * Nat.pow 2 52 ↔
        (num : ℚ) / den < 2 ^ 52 * 2 ^ guess) := by
  obtain ⟨hlow, hhigh⟩ := ratio_bounds hnum hden
  have hpow := zpow_two_pos guess
  have hshift : (2 : ℚ) ^ ((Nat.log2 num : ℤ) - Nat.log2 den) = 2 ^ 52 * 2 ^ guess := by
    rw [show (Nat.log2 num : ℤ) - Nat.log2 den = 52 + guess by omega, zpow_add₀ (by norm_num)]
    norm_num
  rw [hshift] at hlow hhigh
  refine ⟨by linarith, by linarith, ?_⟩
  have hpos : (0 : ℚ) < (scaled num den guess).2 := by exact_mod_cast scaled_pos num hden guess
  rw [← div_lt_iff₀ hpow, ← scaled_div, div_lt_iff₀ hpos, Nat.pow_eq, mul_comm (2 ^ 52 : ℚ)]
  exact_mod_cast Iff.rfl

/-- **The exponent with which the significand of a ratio has its full length**, or the least one. -/
theorem exponentFor_spec {num den : ℕ} (hnum : 0 < num) (hden : 0 < den) :
    minExponent ≤ exponentFor num den ∧ (num : ℚ) / den < 2 ^ 53 * 2 ^ exponentFor num den ∧
      (2 ^ 52 * 2 ^ exponentFor num den ≤ (num : ℚ) / den ∨ exponentFor num den = minExponent) := by
  obtain ⟨e, he, hlow, hhigh⟩ : ∃ e, exponentFor num den = (if e < minExponent then minExponent else e) ∧
      2 ^ 52 * 2 ^ e ≤ (num : ℚ) / den ∧ (num : ℚ) / den < 2 ^ 53 * 2 ^ e := by
    obtain ⟨guess, hguess⟩ : ∃ guess, guess = (Nat.log2 num : ℤ) - Nat.log2 den - 52 := ⟨_, rfl⟩
    obtain ⟨hlow, hhigh, htest⟩ := guess_spec hnum hden hguess
    refine ⟨if (scaled num den guess).1 < (scaled num den guess).2 * Nat.pow 2 52 then guess - 1 else guess,
      by rw [hguess]; rfl, ?_⟩
    by_cases hless : (scaled num den guess).1 < (scaled num den guess).2 * Nat.pow 2 52
    · rw [if_pos hless, zpow_sub_one₀ (by norm_num)]
      rw [htest] at hless
      constructor <;> linarith
    · rw [if_neg hless]
      rw [htest] at hless
      exact ⟨not_lt.1 hless, hhigh⟩
  rw [he]
  split
  · rename_i hless
    have hpow : (2 : ℚ) ^ e ≤ 2 ^ minExponent := zpow_le_zpow_right₀ (by norm_num) hless.le
    exact ⟨le_rfl, by linarith, .inr rfl⟩
  · rename_i hnot
    exact ⟨not_lt.1 hnot, hhigh, .inl hlow⟩

/-- No other exponent gives the significand its full length. -/
theorem exponentFor_eq {num den : ℕ} (hnum : 0 < num) (hden : 0 < den) {e : ℤ} (hleast : minExponent ≤ e)
    (hhigh : (num : ℚ) / den < 2 ^ 53 * 2 ^ e)
    (hlow : 2 ^ 52 * 2 ^ e ≤ (num : ℚ) / den ∨ e = minExponent) : exponentFor num den = e := by
  obtain ⟨hleast', hhigh', hlow'⟩ := exponentFor_spec hnum hden
  generalize exponentFor num den = e' at *
  -- the greater of two exponents would be too great
  have hle : ∀ {e₁ e₂ : ℤ}, (2 ^ 52 * 2 ^ e₁ ≤ (num : ℚ) / den ∨ e₁ = minExponent) →
      minExponent ≤ e₂ → (num : ℚ) / den < 2 ^ 53 * 2 ^ e₂ → e₁ ≤ e₂ := by
    intro e₁ e₂ hlow hleast hhigh
    rcases hlow with hlow | rfl
    · have hpow : (2 : ℚ) ^ e₁ < 2 ^ (e₂ + 1) := by
        rw [zpow_add_one₀ (by norm_num)]
        linarith
      have hlt := (zpow_lt_zpow_iff_right₀ (by norm_num)).1 hpow
      omega
    · exact hleast
  exact le_antisymm (hle hlow' hleast hhigh) (hle hlow hleast' hhigh')

/-! ### The nearest number -/

/-- How far the interval of a number reaches below it, in units of its last place: half of the distance to
its lower neighbour, which for a power of two is twice as near, unless the exponent is the least one. -/
def below (m : ℕ) (e : ℤ) : ℚ := if m = 2 ^ 52 ∧ minExponent < e then 1 / 4 else 1 / 2

/-- The ratio lies in the interval of a number; the ends belong to it if the significand is even. -/
structure Near (m : ℕ) (e : ℤ) (x : ℚ) : Prop where
  low : (m - below m e) * 2 ^ e ≤ x
  high : x ≤ (m + 1 / 2) * 2 ^ e
  odd : m % 2 = 1 → (m - below m e) * 2 ^ e < x ∧ x < (m + 1 / 2) * 2 ^ e

variable {num den m : ℕ} {e : ℤ} {negative : Bool}

/-- A ratio within half a unit of a significand is rounded to it. -/
theorem roundHalfEven_scaled (hden : 0 < den) (hlow : (m - 1 / 2 : ℚ) * 2 ^ e ≤ num / den)
    (hhigh : (num : ℚ) / den ≤ (m + 1 / 2) * 2 ^ e)
    (hodd : m % 2 = 1 → (m - 1 / 2 : ℚ) * 2 ^ e < num / den ∧ (num : ℚ) / den < (m + 1 / 2) * 2 ^ e) :
    roundHalfEven (scaled num den e).1 (scaled num den e).2 = m := by
  have hpow := zpow_two_pos e
  have hpos := scaled_pos num hden e
  have hpos' : (0 : ℚ) < (scaled num den e).2 := by exact_mod_cast hpos
  rw [← le_div_iff₀ hpow, ← scaled_div, le_div_iff₀ hpos'] at hlow
  rw [← div_le_iff₀ hpow, ← scaled_div, div_le_iff₀ hpos'] at hhigh
  rw [← lt_div_iff₀ hpow, ← div_lt_iff₀ hpow, ← scaled_div, lt_div_iff₀ hpos', div_lt_iff₀ hpos'] at hodd
  generalize (scaled num den e).1 = n at *
  generalize (scaled num den e).2 = d at *
  refine roundHalfEven_eq hpos ?_ ?_ fun h => ?_
  · have hdouble : (2 * m * d : ℚ) ≤ 2 * n + d := by linarith
    exact_mod_cast hdouble
  · have hdouble : (2 * n : ℚ) ≤ 2 * m * d + d := by linarith
    exact_mod_cast hdouble
  · obtain ⟨hlow, hhigh⟩ := hodd h
    have hdouble₁ : (2 * m * d : ℚ) < 2 * n + d := by linarith
    have hdouble₂ : (2 * n : ℚ) < 2 * m * d + d := by linarith
    exact ⟨by exact_mod_cast hdouble₁, by exact_mod_cast hdouble₂⟩

theorem significandBound_eq : significandBound = 2 ^ 53 := rfl

/-- A significand below its bound stays as it is. -/
theorem ofRatio_eq (hnum : num ≠ 0) (he : exponentFor num den = e)
    (hm : roundHalfEven (scaled num den e).1 (scaled num den e).2 = m) (hbound : m ≠ significandBound) :
    ofRatio negative num den =
      if m = 0 then zero negative else if maxExponent < e then .infinity negative
      else .finite negative m e := by
  rw [ofRatio, if_neg hnum, he]
  -- hidden, so that no match on the scaled ratio is tried by computing it
  generalize scaled num den = scale at hm ⊢
  simp only [hm, if_neg hbound]

/-- A significand that reaches its bound is halved. -/
theorem ofRatio_eq_of_carry (hnum : num ≠ 0) (he : exponentFor num den = e)
    (hm : roundHalfEven (scaled num den e).1 (scaled num den e).2 = significandBound) :
    ofRatio negative num den =
      if maxExponent < e + 1 then .infinity negative else .finite negative (2 ^ 52) (e + 1) := by
  have hhalf : significandBound / 2 = 2 ^ 52 := by
    rw [significandBound_eq]
    norm_num
  have hpos : ¬ (2 ^ 52 = 0) := by norm_num
  rw [ofRatio, if_neg hnum, he]
  generalize scaled num den = scale at hm ⊢
  generalize significandBound = bound at hm hhalf ⊢
  simp only [hm, if_true, hhalf, if_neg hpos]

theorem below_le (m : ℕ) (e : ℤ) : below m e ≤ 1 / 2 := by
  rw [below]
  split <;> norm_num

theorem Near.pos (h : InFormat m e) {x : ℚ} (hx : Near m e x) : 0 < x := by
  have hm : (1 : ℚ) ≤ m := by exact_mod_cast h.pos
  have hbelow := below_le m e
  have hpow := zpow_two_pos e
  have hlow : 0 < (m - below m e) * 2 ^ e := by
    refine mul_pos ?_ hpow
    linarith
  exact hlow.trans_le hx.low

/-- Below a power of two the exponent is one less, and rounding carries into the power. -/
theorem ofRatio_below_power (hnum : num ≠ 0) (hden : 0 < den) (he : minExponent < e) (hmax : e ≤ maxExponent)
    (hlow : (2 ^ 52 - 1 / 4 : ℚ) * 2 ^ e ≤ num / den) (hhigh : (num : ℚ) / den < 2 ^ 52 * 2 ^ e) :
    ofRatio negative num den = .finite negative (2 ^ 52) e := by
  have hprev : (2 : ℚ) ^ e = 2 * 2 ^ (e - 1) := by
    rw [zpow_sub_one₀ (by norm_num)]
    ring
  rw [hprev] at hlow hhigh
  have hpow := zpow_two_pos (e - 1)
  have hexp : exponentFor num den = e - 1 := by
    refine exponentFor_eq (Nat.pos_of_ne_zero hnum) hden (by omega) (by linarith) (.inl ?_)
    linarith
  have hround : roundHalfEven (scaled num den (e - 1)).1 (scaled num den (e - 1)).2 = significandBound := by
    rw [significandBound_eq]
    refine roundHalfEven_scaled hden ?_ ?_ fun h => absurd h (by norm_num)
    · push_cast
      linarith
    · push_cast
      linarith
  rw [ofRatio_eq_of_carry hnum hexp hround, Int.sub_add_cancel, if_neg (not_lt.2 hmax)]

/-- **Ratios in the interval of a number round to it.** -/
theorem ofRatio_of_near (h : InFormat m e) (hden : 0 < den) (hx : Near m e (num / den)) :
    ofRatio negative num den = .finite negative m e := by
  have hnum : num ≠ 0 := by
    rintro rfl
    have hpos := hx.pos h
    rw [Nat.cast_zero, zero_div] at hpos
    exact lt_irrefl _ hpos
  have hpow := zpow_two_pos e
  have hm : (m : ℚ) + 1 ≤ 2 ^ 53 := by exact_mod_cast Nat.succ_le_of_lt h.bounded
  by_cases hless : m = 2 ^ 52 ∧ minExponent < e ∧ (num : ℚ) / den < 2 ^ 52 * 2 ^ e
  · obtain ⟨rfl, hleast, hless⟩ := hless
    have hlow := hx.low
    rw [below, if_pos ⟨rfl, hleast⟩] at hlow
    refine ofRatio_below_power hnum hden hleast h.greatest ?_ hless
    exact_mod_cast hlow
  · -- the exponent is that of the number, and so is the nearest significand
    have hlow : (m - 1 / 2 : ℚ) * 2 ^ e ≤ num / den := by
      have hbelow := below_le m e
      refine le_trans ?_ hx.low
      exact mul_le_mul_of_nonneg_right (by linarith) hpow.le
    have hfull : 2 ^ 52 * 2 ^ e ≤ (num : ℚ) / den ∨ e = minExponent := by
      rcases eq_or_lt_of_le h.least with heq | hleast
      · exact .inr heq.symm
      have hm52 : 2 ^ 52 ≤ m := h.full.resolve_right hleast.ne'
      left
      rcases Nat.eq_or_lt_of_le hm52 with heq | hlt
      · by_contra hnot
        exact hless ⟨heq.symm, hleast, not_le.1 hnot⟩
      · refine le_trans (mul_le_mul_of_nonneg_right ?_ hpow.le) hlow
        have hcast : (2 ^ 52 + 1 : ℚ) ≤ m := by exact_mod_cast hlt
        linarith
    have hexp : exponentFor num den = e := by
      refine exponentFor_eq (Nat.pos_of_ne_zero hnum) hden h.least ?_ hfull
      refine lt_of_le_of_lt hx.high (mul_lt_mul_of_pos_right ?_ hpow)
      linarith
    have hround : roundHalfEven (scaled num den e).1 (scaled num den e).2 = m := by
      refine roundHalfEven_scaled hden hlow hx.high fun hodd => ?_
      have hhalf : below m e = 1 / 2 := by
        rw [below, if_neg]
        rintro ⟨rfl, -⟩
        norm_num at hodd
      exact hhalf ▸ hx.odd hodd
    have hbound : m ≠ significandBound := by
      rw [significandBound_eq]
      exact h.bounded.ne
    rw [ofRatio_eq hnum hexp hround hbound, if_neg h.pos.ne', if_neg (not_lt.2 h.greatest)]

/-! ### What rounding gives -/

theorem roundHalfEven_scaled_le (hden : 0 < den) {e : ℤ} (h : (num : ℚ) / den < 2 ^ 53 * 2 ^ e) :
    roundHalfEven (scaled num den e).1 (scaled num den e).2 ≤ 2 ^ 53 := by
  have hpos := scaled_pos num hden e
  have hpos' : (0 : ℚ) < (scaled num den e).2 := by exact_mod_cast hpos
  rw [← div_lt_iff₀ (zpow_two_pos e), ← scaled_div, div_lt_iff₀ hpos'] at h
  have hlt : (scaled num den e).1 < 2 ^ 53 * (scaled num den e).2 := by exact_mod_cast h
  exact (roundHalfEven_le _ _).trans ((Nat.div_lt_iff_lt_mul hpos).2 hlt)

theorem le_roundHalfEven_scaled (hden : 0 < den) {e : ℤ} (h : 2 ^ 52 * 2 ^ e ≤ (num : ℚ) / den) :
    2 ^ 52 ≤ roundHalfEven (scaled num den e).1 (scaled num den e).2 := by
  have hpos := scaled_pos num hden e
  have hpos' : (0 : ℚ) < (scaled num den e).2 := by exact_mod_cast hpos
  rw [← le_div_iff₀ (zpow_two_pos e), ← scaled_div, le_div_iff₀ hpos'] at h
  have hle : 2 ^ 52 * (scaled num den e).2 ≤ (scaled num den e).1 := by exact_mod_cast h
  exact ((Nat.le_div_iff_mul_le hpos).2 hle).trans (le_roundHalfEven _ _)

theorem isCanonical_zero : IsCanonical (zero negative) := .inl ⟨rfl, rfl⟩

theorem isCanonical_ofRatio (hden : 0 < den) : IsCanonical (ofRatio negative num den) := by
  by_cases hnum : num = 0
  · rw [ofRatio, if_pos hnum]
    exact isCanonical_zero
  obtain ⟨hleast, hhigh, hlow⟩ := exponentFor_spec (Nat.pos_of_ne_zero hnum) hden
  obtain ⟨e, he⟩ : ∃ e, exponentFor num den = e := ⟨_, rfl⟩
  obtain ⟨m, hm⟩ : ∃ m, roundHalfEven (scaled num den e).1 (scaled num den e).2 = m := ⟨_, rfl⟩
  rw [he] at hleast hhigh hlow
  have hle := roundHalfEven_scaled_le hden hhigh
  have hfull := hlow.imp_left (le_roundHalfEven_scaled hden)
  rw [hm] at hle hfull
  by_cases hbound : m = significandBound
  · rw [ofRatio_eq_of_carry hnum he (hm.trans hbound)]
    split_ifs with hmax
    · trivial
    · exact .inr ⟨by norm_num, by norm_num, by omega, not_lt.1 hmax, .inl le_rfl⟩
  · rw [ofRatio_eq hnum he hm hbound]
    rw [significandBound_eq] at hbound
    split_ifs with hzero hmax
    · exact isCanonical_zero
    · trivial
    · exact .inr ⟨Nat.pos_of_ne_zero hzero, lt_of_le_of_ne hle hbound, hleast, not_lt.1 hmax, hfull⟩

theorem isCanonical_ofDecimal (negative : Bool) (digits : ℕ) (exponent : ℤ) :
    IsCanonical (ofDecimal negative digits exponent) := by
  rw [ofDecimal]
  split
  · exact isCanonical_zero
  · simp only []
    split
    · trivial
    split
    · exact isCanonical_zero
    split
    · exact isCanonical_ofRatio Nat.one_pos
    · exact isCanonical_ofRatio (Nat.pow_pos (by decide))

end Restline.Number.Binary64
