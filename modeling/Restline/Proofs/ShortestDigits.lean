import Mathlib
import Restline.Proofs.Rounding

/-!
The digits that a number is written with. Seventeen digits always suffice: the distance of two decimals of
that length is less than the interval of ratios that round to the number. So the search ends at digits that
stand for a ratio of the interval, whatever zeros are put after them.

* `Binary64.covers_window_iff` : what the test of the search says.
* `Binary64.seventeen_suffice` : a neighbour of the number with seventeen digits lies in its interval.
* `Binary64.near_search` : **the digits that the search ends at lie in the interval of the number**.
* `Binary64.ofDecimal_of_near` : a decimal in the interval of a number is read as that number.
-/

set_option autoImplicit false

namespace Restline.Number.Binary64

variable {m : ℕ} {e : ℤ}

/-! ### The window of a number -/

/-- The window of a number in units of a quarter of its last place. -/
theorem exists_window_eq (hm : 0 < m) (e : ℤ) :
    ∃ u d : ℕ, 0 < d ∧ (4 * u : ℚ) / d = 2 ^ e ∧
      window m e = ⟨4 * m * u - (if m = 2 ^ 52 ∧ minExponent < e then u else 2 * u), 4 * m * u,
        4 * m * u + 2 * u, d, m % 2 == 0⟩ := by
  obtain ⟨u, d, hd, hu, hs⟩ : ∃ u d : ℕ, 0 < d ∧ (4 * u : ℚ) / d = 2 ^ e ∧
      scaled (4 * m) 4 (-e) = (4 * m * u, d) := by
    rw [scaled, zpow_toNat]
    split
    · rename_i h
      refine ⟨1, 4 * 2 ^ (-e).toNat, by positivity, ?_, by rw [mul_one, Nat.pow_eq]⟩
      rw [show e.toNat = 0 by omega]
      push_cast
      field_simp
    · rename_i h
      refine ⟨2 ^ e.toNat, 4, by decide, ?_, by rw [neg_neg, Nat.pow_eq]⟩
      rw [show (-e).toNat = 0 by omega]
      push_cast
      field_simp
  have hunit : 4 * m * u / (4 * m) = u := Nat.mul_div_cancel_left u (by omega)
  refine ⟨u, d, hd, hu, ?_⟩
  rw [window]
  generalize scaled (4 * m) 4 (-e) = s at hs
  subst hs
  simp only [hunit, Nat.pow_eq]

/-- The window of a number is its interval. -/
theorem window_spec (hm : 0 < m) (e : ℤ) :
    0 < (window m e).denominator ∧
      ((window m e).value : ℚ) / (window m e).denominator = m * 2 ^ e ∧
      ((window m e).low : ℚ) / (window m e).denominator = (m - below m e) * 2 ^ e ∧
      ((window m e).high : ℚ) / (window m e).denominator = (m + 1 / 2) * 2 ^ e ∧
      ((window m e).closed = false ↔ m % 2 = 1) := by
  obtain ⟨u, d, hd, hu, hw⟩ := exists_window_eq hm e
  have hle : (if m = 2 ^ 52 ∧ minExponent < e then u else 2 * u) ≤ 4 * m * u := by
    have hmul : 1 * u ≤ m * u := Nat.mul_le_mul_right u hm
    split <;> nlinarith
  have hbelow : ((if m = 2 ^ 52 ∧ minExponent < e then u else 2 * u : ℕ) : ℚ) = 4 * below m e * u := by
    rw [below]
    split
    · ring
    · push_cast
      ring
  rw [hw, ← hu]
  refine ⟨hd, ?_, ?_, ?_, by simp⟩
  · push_cast
    ring
  · simp only [Nat.cast_sub hle, hbelow]
    push_cast
    ring
  · push_cast
    ring

/-- The test of the search compares a decimal with the ends of the window. -/
theorem Window.covers_iff {w : Window} (hd : 0 < w.denominator) (c : ℕ) (place : ℤ) :
    w.covers c place = true ↔
      (w.low : ℚ) / w.denominator ≤ c * 10 ^ place ∧ (c * 10 ^ place : ℚ) ≤ w.high / w.denominator ∧
        (w.closed = false → (w.low : ℚ) / w.denominator < c * 10 ^ place ∧
          (c * 10 ^ place : ℚ) < w.high / w.denominator) := by
  have hpos : (0 : ℚ) < w.denominator := by exact_mod_cast hd
  obtain ⟨x, s, hs, hx, hc⟩ : ∃ x s : ℕ, 0 < s ∧ (x : ℚ) / s = c * 10 ^ place * w.denominator ∧
      w.covers c place = (if w.closed then w.low * s ≤ x && x ≤ w.high * s
        else w.low * s < x && x < w.high * s : Bool) := by
    rw [covers]
    by_cases h : 0 ≤ place
    · refine ⟨c * 10 ^ place.toNat * w.denominator, 1, one_pos, ?_, ?_⟩
      · rw [zpow_toNat, show (-place).toNat = 0 by omega]
        push_cast
        ring
      · simp only [if_pos h, Nat.pow_eq]
    · refine ⟨c * w.denominator, 10 ^ (-place).toNat, by positivity, ?_, ?_⟩
      · rw [zpow_toNat, show place.toNat = 0 by omega]
        push_cast
        ring
      · simp only [if_neg h, Nat.pow_eq]
  have hs' : (0 : ℚ) < s := by exact_mod_cast hs
  have hlow : w.low * s ≤ x ↔ (w.low : ℚ) / w.denominator ≤ c * 10 ^ place := by
    rw [div_le_iff₀ hpos, ← hx, le_div_iff₀ hs']
    exact_mod_cast Iff.rfl
  have hhigh : x ≤ w.high * s ↔ (c * 10 ^ place : ℚ) ≤ w.high / w.denominator := by
    rw [le_div_iff₀ hpos, ← hx, div_le_iff₀ hs']
    exact_mod_cast Iff.rfl
  have hlow' : w.low * s < x ↔ (w.low : ℚ) / w.denominator < c * 10 ^ place := by
    rw [div_lt_iff₀ hpos, ← hx, lt_div_iff₀ hs']
    exact_mod_cast Iff.rfl
  have hhigh' : x < w.high * s ↔ (c * 10 ^ place : ℚ) < w.high / w.denominator := by
    rw [lt_div_iff₀ hpos, ← hx, div_lt_iff₀ hs']
    exact_mod_cast Iff.rfl
  rw [hc]
  cases w.closed with
  | true => simp [hlow, hhigh]
  | false =>
      simp only [Bool.false_eq_true, if_false, Bool.and_eq_true, decide_eq_true_eq, hlow', hhigh',
        forall_const]
      exact ⟨fun h => ⟨h.1.le, h.2.le, h⟩, fun h => h.2.2⟩

/-- The test of the search, for the window of a number. -/
theorem covers_window_iff (hm : 0 < m) (c : ℕ) (place : ℤ) :
    (window m e).covers c place = true ↔ Near m e (c * 10 ^ place) := by
  obtain ⟨hd, -, hlow, hhigh, hodd⟩ := window_spec hm e
  rw [Window.covers_iff hd, hlow, hhigh, hodd]
  exact ⟨fun h => ⟨h.1, h.2.1, h.2.2⟩, fun h => ⟨h.low, h.high, h.odd⟩⟩

/-! ### Decimal places -/

theorem zpow_ten_pos (place : ℤ) : (0 : ℚ) < 10 ^ place := zpow_pos (by norm_num) place

/-- The whole part in units of a decimal place. -/
theorem Window.floorAt_eq (w : Window) (place : ℤ) :
    w.floorAt place = ⌊(w.value : ℚ) / w.denominator / 10 ^ place⌋₊ := by
  rw [floorAt, zpow_toNat]
  split
  · rename_i h
    rw [show (-place).toNat = 0 by omega, ← Nat.floor_div_eq_div (K := ℚ), Nat.pow_eq]
    push_cast
    rw [pow_zero, div_one, div_div]
  · rename_i h
    rw [show place.toNat = 0 by omega, ← Nat.floor_div_eq_div (K := ℚ), Nat.pow_eq]
    push_cast
    congr 1
    field_simp

theorem Window.floorAt_spec (w : Window) (place : ℤ) :
    (w.floorAt place * 10 ^ place : ℚ) ≤ w.value / w.denominator ∧
      (w.value / w.denominator : ℚ) < (w.floorAt place + 1) * 10 ^ place := by
  have hpow := zpow_ten_pos place
  rw [w.floorAt_eq, ← le_div_iff₀ hpow, ← div_lt_iff₀ hpow]
  exact ⟨Nat.floor_le (by positivity), Nat.lt_floor_add_one _⟩

theorem lt_pow_digitCount (n : ℕ) : n < 10 ^ digitCount n :=
  (Nat.length_toDigits_le_iff (by decide) Nat.length_toDigits_pos).1 le_rfl

theorem pow_digitCount_le {n : ℕ} (hn : 0 < n) : 10 ^ (digitCount n - 1) ≤ n := by
  by_contra hlt
  rcases Nat.eq_zero_or_pos (digitCount n - 1) with h | h
  · rw [h, pow_zero] at hlt
    omega
  · have hle := (Nat.length_toDigits_le_iff (by decide) h).2 (not_le.1 hlt)
    have hpos : 0 < digitCount n := Nat.length_toDigits_pos
    rw [← digitCount] at hle
    omega

/-- A number is known by how many digits it has, up to a factor of ten. -/
theorem zpow_digitCount {n : ℕ} (hn : 0 < n) :
    (10 : ℚ) ^ ((digitCount n : ℤ) - 1) ≤ n ∧ (n : ℚ) < 10 ^ (digitCount n : ℤ) := by
  have hpos : 0 < digitCount n := Nat.length_toDigits_pos
  rw [show ((digitCount n : ℤ) - 1) = ((digitCount n - 1 : ℕ) : ℤ) by omega, zpow_natCast, zpow_natCast]
  exact ⟨by exact_mod_cast pow_digitCount_le hn, by exact_mod_cast lt_pow_digitCount n⟩

/-- The first digit stands at the place of the decimal point, or before. -/
theorem Window.zpow_pointPlace_le {w : Window} (hd : 0 < w.denominator)
    (hleast : (10 : ℚ) ^ (-401 : ℤ) ≤ w.value / w.denominator) :
    (10 : ℚ) ^ (w.pointPlace - 1) ≤ w.value / w.denominator := by
  have hpos : (0 : ℚ) < w.denominator := by exact_mod_cast hd
  rw [pointPlace]
  split
  · rename_i hwhole
    refine (zpow_digitCount hwhole).1.trans ?_
    exact Nat.cast_div_le
  · split
    · rename_i zeros hfind
      have htest := List.find?_some hfind
      rw [decide_eq_true_eq, Nat.pow_eq] at htest
      have hcast : (w.denominator : ℚ) ≤ w.value * 10 ^ (zeros + 1) := by exact_mod_cast htest
      have hplace : Int.negOfNat zeros - 1 = -((zeros + 1 : ℕ) : ℤ) := by
        rw [Int.negOfNat_eq, Int.ofNat_eq_natCast]
        omega
      rw [hplace, zpow_neg, zpow_natCast, le_div_iff₀ hpos, inv_mul_le_iff₀ (by positivity)]
      linarith
    · exact hleast

/-! ### The size of a number -/

/-- The least positive number, and the end of the greatest, between powers of ten. -/
theorem size_bounds :
    (10 : ℚ) ^ (-330 : ℤ) ≤ 2 ^ (minExponent - 1) ∧ (2 : ℚ) ^ (53 + maxExponent) < 10 ^ (309 : ℤ) := by
  have hsmall : 2 ^ 1075 ≤ 10 ^ 330 := by decide +kernel
  have hgreat : 2 ^ 1024 < 10 ^ 309 := by decide +kernel
  rw [show minExponent - 1 = -(1075 : ℕ) by decide, show 53 + maxExponent = (1024 : ℕ) by decide, zpow_neg,
    zpow_neg, zpow_natCast, zpow_natCast]
  exact ⟨inv_anti₀ (by positivity) (by exact_mod_cast hsmall), by exact_mod_cast hgreat⟩

/-- A ratio in the interval of a number is neither too great nor too small for one. -/
theorem Near.bounds (h : InFormat m e) {x : ℚ} (hx : Near m e x) :
    (10 : ℚ) ^ (-330 : ℤ) ≤ x ∧ x < 10 ^ (309 : ℤ) := by
  have hm : (1 : ℚ) ≤ m := by exact_mod_cast h.pos
  have hbound : (m : ℚ) + 1 ≤ 2 ^ 53 := by exact_mod_cast Nat.succ_le_of_lt h.bounded
  have hbelow := below_le m e
  have hleast : (2 : ℚ) ^ minExponent ≤ 2 ^ e := zpow_le_zpow_right₀ (by norm_num) h.least
  have hgreatest : (2 : ℚ) ^ e ≤ 2 ^ maxExponent := zpow_le_zpow_right₀ (by norm_num) h.greatest
  obtain ⟨hsmall, hgreat⟩ := size_bounds
  rw [zpow_sub_one₀ (by norm_num)] at hsmall
  rw [zpow_add₀ (by norm_num)] at hgreat
  have hpow := zpow_two_pos e
  constructor
  · refine hsmall.trans (le_trans ?_ hx.low)
    rw [mul_comm]
    exact mul_le_mul (by linarith) hleast (zpow_two_pos _).le (by linarith)
  · refine lt_of_le_of_lt (hx.high.trans ?_) hgreat
    exact mul_le_mul (by norm_num; linarith) hgreatest hpow.le (by norm_num)

/-- A number lies in its own interval. -/
theorem near_self (m : ℕ) (e : ℤ) : Near m e (m * 2 ^ e) := by
  have hpow := zpow_two_pos e
  have hbelow : 0 < below m e := by
    rw [below]
    split <;> norm_num
  have hlow : (m - below m e) * 2 ^ e < m * 2 ^ e := mul_lt_mul_of_pos_right (by linarith) hpow
  have hhigh : (m : ℚ) * 2 ^ e < (m + 1 / 2) * 2 ^ e := mul_lt_mul_of_pos_right (by linarith) hpow
  exact ⟨hlow.le, hhigh.le, fun _ => ⟨hlow, hhigh⟩⟩

/-! ### The search -/

/-- If a neighbour of the value is in the window at one of the lengths that are tried, the search ends at
digits in the window. -/
theorem Window.covers_search (w : Window) (point : ℤ) {k : ℕ} {fuel n : ℕ} (hnk : n ≤ k) (hk : k < n + fuel)
    (h : w.covers (w.floorAt (point - k)) (point - k) = true ∨
      w.covers (w.floorAt (point - k) + 1) (point - k) = true) :
    w.covers (w.search point n fuel).1 (w.search point n fuel).2 = true := by
  induction fuel generalizing n with
  | zero => omega
  | succ fuel ih =>
      rw [search]
      split
      · rename_i hlow hhigh
        split
        · exact hhigh
        · exact hlow
      · rename_i hlow hhigh
        exact hlow
      · rename_i hlow hhigh
        exact hhigh
      · rename_i hlow hhigh
        rcases Nat.eq_or_lt_of_le hnk with rfl | hlt
        · rw [hlow, hhigh] at h
          simp at h
        · exact ih hlt (by omega)

/-- Seventeen digits suffice. -/
theorem seventeen_suffice (h : InFormat m e) {point : ℤ} (hpoint : (10 : ℚ) ^ (point - 1) ≤ m * 2 ^ e) :
    let place := point - 17
    Near m e ((window m e).floorAt place * 10 ^ place) ∨
      Near m e (((window m e).floorAt place + 1) * 10 ^ place) := by
  intro place
  obtain ⟨-, hvalue, -⟩ := window_spec h.pos e
  obtain ⟨hlow, hhigh⟩ := (window m e).floorAt_spec place
  rw [hvalue] at hlow hhigh
  generalize ((window m e).floorAt place : ℚ) = c at *
  have hpow := zpow_two_pos e
  have hspace := zpow_ten_pos place
  have hm : (0 : ℚ) < m := by exact_mod_cast h.pos
  -- both ends of the interval are more than `2 ^ (-54)` of the number away, but for the nearer one
  have hbound : (m : ℚ) < 2 ^ 53 := by exact_mod_cast h.bounded
  have hbelow : (m : ℚ) / 2 ^ 54 ≤ below m e := by
    rw [below]
    split
    · rename_i hm
      rw [hm.1]
      norm_num
    · linarith
  have hplace : (10 : ℚ) ^ place * 10 ^ 16 ≤ m * 2 ^ e := by
    rw [show point - 1 = place + (16 : ℕ) by omega, zpow_add₀ (by norm_num), zpow_natCast] at hpoint
    exact hpoint
  generalize (10 : ℚ) ^ place = s at *
  by_cases hnear : (m - below m e) * 2 ^ e < c * s
  · exact .inl ⟨hnear.le, by nlinarith, fun _ => ⟨hnear, by nlinarith⟩⟩
  · have hupper : (c + 1) * s < (m + 1 / 2) * 2 ^ e := by
      have hb := mul_le_mul_of_nonneg_right hbelow hpow.le
      have hmt := mul_lt_mul_of_pos_right hbound hpow
      nlinarith
    have hlower : (m - below m e) * 2 ^ e < (c + 1) * s := by
      have hpos : 0 < below m e * 2 ^ e := mul_pos (lt_of_lt_of_le (by positivity) hbelow) hpow
      linarith
    exact .inr ⟨hlower.le, hupper.le, fun _ => ⟨hlower, hupper⟩⟩

/-- **The digits that the search ends at lie in the interval of the number.** -/
theorem near_search (h : InFormat m e) :
    Near m e (((window m e).search (window m e).pointPlace 1 17).1 *
      10 ^ ((window m e).search (window m e).pointPlace 1 17).2) := by
  obtain ⟨hd, hvalue, -⟩ := window_spec h.pos e
  have hleast : (10 : ℚ) ^ (-401 : ℤ) ≤ m * 2 ^ e :=
    (zpow_le_zpow_right₀ (by norm_num) (by norm_num)).trans ((near_self m e).bounds h).1
  rw [← hvalue] at hleast
  have hpoint := Window.zpow_pointPlace_le hd hleast
  rw [hvalue] at hpoint
  rw [← covers_window_iff h.pos]
  refine Window.covers_search _ _ (k := 17) (by decide) (by decide) ?_
  rw [covers_window_iff h.pos, covers_window_iff h.pos]
  exact_mod_cast seventeen_suffice h hpoint

/-! ### Reading a decimal -/

/-- **A decimal in the interval of a number is read as that number**, whatever digits it is written with. -/
theorem ofDecimal_of_near (h : InFormat m e) {digits : ℕ} {exponent : ℤ}
    (hx : Near m e (digits * 10 ^ exponent)) (negative : Bool) :
    ofDecimal negative digits exponent = .finite negative m e := by
  obtain ⟨hsmall, hgreat⟩ := hx.bounds h
  have hdigits : digits ≠ 0 := by
    rintro rfl
    have hpos := hx.pos h
    rw [Nat.cast_zero, zero_mul] at hpos
    exact lt_irrefl _ hpos
  obtain ⟨hlow, hhigh⟩ := zpow_digitCount (Nat.pos_of_ne_zero hdigits)
  have hpow := zpow_ten_pos exponent
  -- the digits before the point are neither too many nor too few for a number
  have htop : ((digitCount digits : ℤ) - 1) + exponent < 309 := by
    refine (zpow_lt_zpow_iff_right₀ (a := (10 : ℚ)) (by norm_num)).1 (lt_of_le_of_lt ?_ hgreat)
    rw [zpow_add₀ (by norm_num)]
    exact mul_le_mul_of_nonneg_right hlow hpow.le
  have hbottom : -330 < (digitCount digits : ℤ) + exponent := by
    refine (zpow_lt_zpow_iff_right₀ (a := (10 : ℚ)) (by norm_num)).1 (lt_of_le_of_lt hsmall ?_)
    rw [zpow_add₀ (by norm_num)]
    exact mul_lt_mul_of_pos_right hhigh hpow
  rw [ofDecimal, if_neg hdigits]
  simp only []
  rw [if_neg (by omega), if_neg (by omega)]
  rw [zpow_toNat] at hx
  split
  · rename_i hexp
    refine ofRatio_of_near h one_pos ?_
    rw [show (-exponent).toNat = 0 by omega, pow_zero, div_one] at hx
    rw [Nat.pow_eq]
    push_cast
    rwa [div_one]
  · rename_i hexp
    refine ofRatio_of_near h (Nat.pow_pos (by decide)) ?_
    rw [show exponent.toNat = 0 by omega, pow_zero, one_div, ← div_eq_mul_inv] at hx
    rw [Nat.pow_eq]
    push_cast
    exact hx

end Restline.Number.Binary64
