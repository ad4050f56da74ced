import Mathlib
import Restline.Proofs.ShortestDigits

/-!
Numbers that are too great. A ratio is rounded to an infinity exactly from half a unit above the greatest
finite number on; that half unit is the only bound, in decimals of any length and with any exponent.

* `Binary64.overflowBound` : the least ratio that is rounded to an infinity.
* `Binary64.isFinite_ofRatio_iff` : **ratios that are rounded to finite numbers**.
* `Binary64.isFinite_ofDecimal_iff` : decimals that are.
-/

set_option autoImplicit false

namespace Restline.Number.Binary64

/-- Half a unit above the greatest finite number. -/
def overflowBound : ℚ := (2 ^ 53 - 1 / 2) * 2 ^ maxExponent

variable {num den : ℕ} {e : ℤ} {negative : Bool}

/-- The nearest whole number is half a unit above at most. -/
theorem two_mul_roundHalfEven_le (num den : ℕ) : 2 * roundHalfEven num den * den ≤ 2 * num + den := by
  have hsplit := Nat.div_add_mod num den
  rw [roundHalfEven]
  generalize num / den = q at hsplit ⊢
  generalize num % den = r at hsplit ⊢
  have hproduct : 2 * q * den = 2 * (den * q) := by ring
  have hnext : 2 * (q + 1) * den = 2 * (den * q) + 2 * den := by ring
  split_ifs <;> omega

/-- A significand reaches its bound by rounding exactly from half a unit below it on. -/
theorem roundHalfEven_scaled_eq_bound_iff (hden : 0 < den) (h : (num : ℚ) / den < 2 ^ 53 * 2 ^ e) :
    roundHalfEven (scaled num den e).1 (scaled num den e).2 = significandBound ↔
      (2 ^ 53 - 1 / 2) * 2 ^ e ≤ (num : ℚ) / den := by
  rw [significandBound_eq]
  constructor
  · intro hround
    have hpos : (0 : ℚ) < (scaled num den e).2 := by exact_mod_cast scaled_pos num hden e
    rw [← le_div_iff₀ (zpow_two_pos e), ← scaled_div, le_div_iff₀ hpos]
    have hle := two_mul_roundHalfEven_le (scaled num den e).1 (scaled num den e).2
    rw [hround] at hle
    have hle' : (2 * 2 ^ 53 * (scaled num den e).2 : ℚ) ≤ 2 * (scaled num den e).1 + (scaled num den e).2 := by
      exact_mod_cast hle
    linarith
  · intro hlow
    refine roundHalfEven_scaled hden ?_ ?_ fun hodd => absurd hodd (by norm_num)
    · push_cast
      exact hlow
    · push_cast
      have hpow := zpow_two_pos e
      linarith

/-- Below the greatest exponent even a full significand stays below the bound. -/
theorem lt_overflowBound_of_lt (he : e < maxExponent) {x : ℚ} (hx : x < 2 ^ 53 * 2 ^ e) : x < overflowBound := by
  have hpow : (2 : ℚ) ^ (e + 1) ≤ 2 ^ maxExponent := zpow_le_zpow_right₀ (by norm_num) he
  rw [zpow_add_one₀ (by norm_num)] at hpow
  have hmax := zpow_two_pos maxExponent
  rw [overflowBound]
  linarith

/-- Above the greatest exponent a full significand is above the bound. -/
theorem overflowBound_le_of_lt (he : maxExponent < e) {x : ℚ} (hx : 2 ^ 52 * 2 ^ e ≤ x) : overflowBound ≤ x := by
  have hpow : (2 : ℚ) ^ (maxExponent + 1) ≤ 2 ^ e := zpow_le_zpow_right₀ (by norm_num) he
  rw [zpow_add_one₀ (by norm_num)] at hpow
  have hmax := zpow_two_pos maxExponent
  rw [overflowBound]
  linarith

theorem overflowBound_pos : 0 < overflowBound := by
  have hmax := zpow_two_pos maxExponent
  rw [overflowBound]
  linarith

/-- **Ratios that are rounded to finite numbers** are those below half a unit above the greatest. -/
theorem isFinite_ofRatio_iff (hden : 0 < den) :
    (ofRatio negative num den).isFinite = true ↔ (num : ℚ) / den < overflowBound := by
  by_cases hnum : num = 0
  · rw [ofRatio, if_pos hnum, hnum, Nat.cast_zero, zero_div]
    exact iff_of_true rfl overflowBound_pos
  obtain ⟨hleast, hhigh, hlow⟩ := exponentFor_spec (Nat.pos_of_ne_zero hnum) hden
  obtain ⟨e, he⟩ : ∃ e, exponentFor num den = e := ⟨_, rfl⟩
  obtain ⟨m, hm⟩ : ∃ m, roundHalfEven (scaled num den e).1 (scaled num den e).2 = m := ⟨_, rfl⟩
  rw [he] at hleast hhigh hlow
  have hbound := roundHalfEven_scaled_eq_bound_iff hden hhigh
  have hmin : minExponent < maxExponent := by decide
  rw [hm] at hbound
  rcases lt_trichotomy e maxExponent with hlt | rfl | hgt
  · -- a finite number, whether the significand is carried or not
    refine iff_of_true ?_ (lt_overflowBound_of_lt hlt hhigh)
    by_cases hcarry : m = significandBound
    · rw [ofRatio_eq_of_carry hnum he (hm.trans hcarry), if_neg (by omega)]
      rfl
    · rw [ofRatio_eq hnum he hm hcarry, if_neg (not_lt.2 hlt.le)]
      split <;> rfl
  · -- the greatest exponent: an infinity exactly if the significand is carried
    rw [overflowBound, ← not_le, ← hbound]
    by_cases hcarry : m = significandBound
    · rw [ofRatio_eq_of_carry hnum he (hm.trans hcarry), if_pos (Int.lt_succ _)]
      exact iff_of_false (by simp [isFinite]) (fun h => h hcarry)
    · rw [ofRatio_eq hnum he hm hcarry, if_neg (lt_irrefl _)]
      refine iff_of_true ?_ hcarry
      split <;> rfl
  · have hfull : 2 ^ 52 * 2 ^ e ≤ (num : ℚ) / den := hlow.resolve_right (by omega)
    refine iff_of_false ?_ (not_lt.2 (overflowBound_le_of_lt hgt hfull))
    by_cases hcarry : m = significandBound
    · rw [ofRatio_eq_of_carry hnum he (hm.trans hcarry), if_pos (by omega)]
      simp [isFinite]
    · have hpos : m ≠ 0 := by
        have hle := le_roundHalfEven_scaled hden hfull
        rw [hm] at hle
        exact (Nat.lt_of_lt_of_le (by norm_num) hle).ne'
      rw [ofRatio_eq hnum he hm hcarry, if_neg hpos, if_pos hgt]
      simp [isFinite]

/-- The bound lies between two powers of ten, beyond which decimals are not rounded at all. -/
theorem overflowBound_between : (10 : ℚ) ^ (-330 : ℤ) ≤ overflowBound ∧ overflowBound ≤ 10 ^ (310 : ℤ) := by
  obtain ⟨hsmall, hgreat⟩ := size_bounds
  have hten : (10 : ℚ) ^ (309 : ℤ) ≤ 10 ^ (310 : ℤ) := zpow_le_zpow_right₀ (by norm_num) (by decide)
  have hleast : (2 : ℚ) ^ (minExponent - 1) ≤ 2 ^ maxExponent := zpow_le_zpow_right₀ (by norm_num) (by decide)
  have hmax := zpow_two_pos maxExponent
  rw [zpow_add₀ (by norm_num)] at hgreat
  have hbound : (2 : ℚ) ^ (53 : ℤ) = 2 ^ 53 := by norm_num
  rw [hbound] at hgreat
  have hhalf : (2 ^ 53 - 1 / 2 : ℚ) * 2 ^ maxExponent ≤ 2 ^ 53 * 2 ^ maxExponent := by linarith
  have hone : (2 : ℚ) ^ maxExponent ≤ (2 ^ 53 - 1 / 2) * 2 ^ maxExponent := by linarith
  exact ⟨(hsmall.trans hleast).trans hone, hhalf.trans (hgreat.le.trans hten)⟩

/-- **Decimals that are rounded to finite numbers** are those below the same bound. -/
theorem isFinite_ofDecimal_iff (negative : Bool) (digits : ℕ) (exponent : ℤ) :
    (ofDecimal negative digits exponent).isFinite = true ↔ (digits * 10 ^ exponent : ℚ) < overflowBound := by
  obtain ⟨hsmall, hgreat⟩ := overflowBound_between
  rw [ofDecimal]
  split
  · rename_i hdigits
    rw [hdigits, Nat.cast_zero, zero_mul]
    exact iff_of_true rfl overflowBound_pos
  rename_i hdigits
  obtain ⟨hlow, hhigh⟩ := zpow_digitCount (Nat.pos_of_ne_zero hdigits)
  have hten : (0 : ℚ) < 10 ^ exponent := zpow_pos (by norm_num) _
  dsimp only
  split
  · rename_i htop
    refine iff_of_false (by simp [isFinite]) (not_lt.2 (hgreat.trans ?_))
    calc
      (10 : ℚ) ^ (310 : ℤ) ≤ 10 ^ ((digitCount digits : ℤ) - 1 + exponent) :=
        zpow_le_zpow_right₀ (by norm_num) (by omega)
      _ = 10 ^ ((digitCount digits : ℤ) - 1) * 10 ^ exponent := zpow_add₀ (by norm_num) _ _
      _ ≤ digits * 10 ^ exponent := mul_le_mul_of_nonneg_right hlow hten.le
  split
  · rename_i htop
    refine iff_of_true rfl (lt_of_lt_of_le ?_ hsmall)
    calc
      (digits * 10 ^ exponent : ℚ) < 10 ^ (digitCount digits : ℤ) * 10 ^ exponent :=
        mul_lt_mul_of_pos_right hhigh hten
      _ = 10 ^ ((digitCount digits : ℤ) + exponent) := (zpow_add₀ (by norm_num) _ _).symm
      _ ≤ 10 ^ (-330 : ℤ) := zpow_le_zpow_right₀ (by norm_num) (by omega)
  split
  · rename_i hexp
    rw [isFinite_ofRatio_iff Nat.one_pos]
    obtain ⟨k, rfl⟩ := Int.eq_ofNat_of_zero_le hexp
    simp
  · rename_i hexp
    rw [Nat.pow_eq, isFinite_ofRatio_iff (Nat.pow_pos (by decide))]
    obtain ⟨k, hk⟩ := Int.eq_ofNat_of_zero_le (Int.neg_nonneg.2 (not_le.1 hexp).le)
    obtain rfl : exponent = -k := by omega
    simp [div_eq_mul_inv]

end Restline.Number.Binary64
