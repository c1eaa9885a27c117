import Mathlib.Algebra.Order.Field.Power
import Mathlib.Data.Rat.Cast.Order
import Mathlib.Tactic.FieldSimp
import Mathlib.Tactic.Linarith
import Mathlib.Tactic.NormNum
import Mathlib.Tactic.Positivity
import Mathlib.Tactic.Ring
import MarkdownEdits.Number.Binary64

/-!
# Rounding to doubles

Quotients and doubles as rational numbers. A quotient that is not too large rounds to a double at
most half a unit away, and so a decimal that is not too large is scaled to a double: its significand
and the power of ten are rounded first, then their product or quotient.
-/

namespace MarkdownEdits

theorem two_zpow_of_add {a b c : ℤ} (h : a + b = c) : (2 : ℚ) ^ c = 2 ^ a * 2 ^ b := by
  rw [← h, zpow_add₀ two_ne_zero]

theorem two_zpow_pos (k : ℤ) : (0 : ℚ) < 2 ^ k := zpow_pos two_pos k

theorem two_zpow_le {a b : ℤ} (h : a ≤ b) : (2 : ℚ) ^ a ≤ 2 ^ b := zpow_le_zpow_right₀ one_le_two h

/-! ### Quotients -/

namespace Ratio

/-- The quotient as a number. -/
def value (r : Ratio) : ℚ := r.num / r.den

variable {r : Ratio}

theorem value_shift (r : Ratio) (k : ℤ) : (r.shift k).value = r.value * 2 ^ k := by
  obtain ⟨n, rfl | rfl⟩ := k.eq_nat_or_neg
  · have hnum : ((n : ℤ)).toNat = n := rfl
    have hden : (-(n : ℤ)).toNat = 0 := by omega
    simp only [value, shift, hnum, hden, Nat.shiftLeft_eq, zpow_natCast]
    push_cast
    ring
  · have hnum : (-(n : ℤ)).toNat = 0 := by omega
    have hden : (- -(n : ℤ)).toNat = n := by omega
    simp only [value, shift, hnum, hden, Nat.shiftLeft_eq, zpow_neg,
      zpow_natCast]
    push_cast
    ring

theorem den_shift_pos (h : 0 < r.den) (k : ℤ) : 0 < (r.shift k).den := by
  show 0 < r.den <<< (-k).toNat
  rw [Nat.shiftLeft_eq]
  exact Nat.mul_pos h (Nat.two_pow_pos _)

theorem value_pos (hnum : 0 < r.num) (hden : 0 < r.den) : 0 < r.value := by
  have hn : (0 : ℚ) < r.num := by exact_mod_cast hnum
  have hd : (0 : ℚ) < r.den := by exact_mod_cast hden
  exact div_pos hn hd

theorem le_floor_iff (hden : 0 < r.den) {b : ℕ} : b ≤ r.num / r.den ↔ (b : ℚ) ≤ r.value := by
  have hd : (0 : ℚ) < r.den := by exact_mod_cast hden
  rw [value, le_div_iff₀ hd, Nat.le_div_iff_mul_le hden]
  exact_mod_cast Iff.rfl

/-- An integer next to the quotient is the nearest. -/
theorem round_eq_or (r : Ratio) : r.round = r.num / r.den ∨ r.round = r.num / r.den + 1 := by
  unfold round
  dsimp only
  split
  · exact .inl rfl
  split
  · exact .inr rfl
  split
  · exact .inl rfl
  · exact .inr rfl

/-- The nearest integer is at most half a unit away. -/
theorem two_mul_round_mul_den (hden : 0 < r.den) :
    2 * (r.round * r.den) ≤ 2 * r.num + r.den ∧ 2 * r.num ≤ 2 * (r.round * r.den) + r.den := by
  have hsplit := Nat.div_add_mod r.num r.den
  have hrest := Nat.mod_lt r.num hden
  have hnext : (r.num / r.den + 1) * r.den = r.den * (r.num / r.den) + r.den := by ring
  unfold round
  dsimp only
  split
  · rw [Nat.mul_comm (r.num / r.den)]
    omega
  split
  · rw [hnext]
    omega
  split
  · rw [Nat.mul_comm (r.num / r.den)]
    omega
  · rw [hnext]
    omega

theorem abs_round_sub_value_le (hden : 0 < r.den) : |(r.round : ℚ) - r.value| ≤ 1 / 2 := by
  obtain ⟨hlow, hhigh⟩ := two_mul_round_mul_den hden
  have hd : (0 : ℚ) < r.den := by exact_mod_cast hden
  have hvalue : r.value * r.den = r.num := div_mul_cancel₀ _ hd.ne'
  have hlow : 2 * (r.round * r.den : ℚ) ≤ 2 * r.num + r.den := by exact_mod_cast hlow
  have hhigh : (2 : ℚ) * r.num ≤ 2 * (r.round * r.den) + r.den := by exact_mod_cast hhigh
  rw [abs_le]
  constructor
  · have : (r.value - 1 / 2) * r.den ≤ r.round * r.den := by linarith
    linarith [le_of_mul_le_mul_right this hd]
  · have : r.round * r.den ≤ (r.value + 1 / 2) * r.den := by linarith
    linarith [le_of_mul_le_mul_right this hd]

/-- A positive number lies between two powers of two. -/
theorem value_between (hnum : 0 < r.num) (hden : 0 < r.den) :
    (2 : ℚ) ^ ((r.num.log2 : ℤ) - r.den.log2 - 1) < r.value ∧
      r.value < 2 ^ ((r.num.log2 : ℤ) - r.den.log2 + 1) := by
  have hd : (0 : ℚ) < r.den := by exact_mod_cast hden
  have hnumLow : (2 : ℚ) ^ (r.num.log2 : ℤ) ≤ r.num := by
    rw [zpow_natCast]
    exact_mod_cast Nat.log2_self_le hnum.ne'
  have hnumHigh : (r.num : ℚ) < 2 ^ ((r.num.log2 : ℤ) + 1) := by
    exact_mod_cast (Nat.lt_log2_self : r.num < 2 ^ (r.num.log2 + 1))
  have hdenLow : (2 : ℚ) ^ (r.den.log2 : ℤ) ≤ r.den := by
    rw [zpow_natCast]
    exact_mod_cast Nat.log2_self_le hden.ne'
  have hdenHigh : (r.den : ℚ) < 2 ^ ((r.den.log2 : ℤ) + 1) := by
    exact_mod_cast (Nat.lt_log2_self : r.den < 2 ^ (r.den.log2 + 1))
  constructor
  · rw [value, lt_div_iff₀ hd]
    calc (2 : ℚ) ^ ((r.num.log2 : ℤ) - r.den.log2 - 1) * r.den
        < 2 ^ ((r.num.log2 : ℤ) - r.den.log2 - 1) * 2 ^ ((r.den.log2 : ℤ) + 1) :=
          mul_lt_mul_of_pos_left hdenHigh (two_zpow_pos _)
      _ = 2 ^ (r.num.log2 : ℤ) := (two_zpow_of_add (by omega)).symm
      _ ≤ r.num := hnumLow
  · rw [value, div_lt_iff₀ hd]
    calc (r.num : ℚ) < 2 ^ ((r.num.log2 : ℤ) + 1) := hnumHigh
      _ = 2 ^ ((r.num.log2 : ℤ) - r.den.log2 + 1) * 2 ^ (r.den.log2 : ℤ) :=
          two_zpow_of_add (by omega)
      _ ≤ 2 ^ ((r.num.log2 : ℤ) - r.den.log2 + 1) * r.den :=
          mul_le_mul_of_nonneg_left hdenLow (two_zpow_pos _).le

/-- **At its exponent a positive number has 53 bits before the point**, or fewer at the least
exponent. -/
theorem exponent_bounds (hnum : 0 < r.num) (hden : 0 < r.den) :
    -1074 ≤ r.exponent ∧ r.value < 2 ^ (53 + r.exponent) ∧
      (r.exponent = -1074 ∨ (2 : ℚ) ^ (52 + r.exponent) ≤ r.value) := by
  obtain ⟨hlow, hhigh⟩ := value_between hnum hden
  unfold exponent
  dsimp only
  set guess : ℤ := max ((r.num.log2 : ℤ) - r.den.log2 - 53) (-1074) with hguess
  have hscaled : 1 <<< 53 ≤ (r.shift (-guess)).num / (r.shift (-guess)).den ↔
      (2 : ℚ) ^ (53 + guess) ≤ r.value := by
    have hunit : ((1 <<< 53 : ℕ) : ℚ) = 2 ^ (53 : ℤ) := by norm_num [Nat.shiftLeft_eq]
    rw [le_floor_iff (den_shift_pos hden _), value_shift, zpow_neg, zpow_add₀ two_ne_zero,
      ← div_eq_mul_inv, le_div_iff₀ (zpow_pos two_pos guess), hunit]
  split
  · next h =>
    have h := hscaled.1 h
    refine ⟨by omega, hhigh.trans_le (two_zpow_le (by omega)), .inr ?_⟩
    have hexponent : 52 + (guess + 1) = 53 + guess := by omega
    rwa [hexponent]
  · next h =>
    have h := lt_of_not_ge fun hle => h (hscaled.2 hle)
    refine ⟨by omega, h, ?_⟩
    by_cases hleast : guess = -1074
    · exact .inl hleast
    · exact .inr ((two_zpow_le (by omega)).trans hlow.le)

end Ratio

/-! ### Doubles -/

namespace Binary64

/-- The double without its sign, as a number. -/
def magnitude (x : Binary64) : ℚ := x.mantissa * 2 ^ x.exponent

/-- The number half a unit beyond the largest double. What is smaller rounds to a double. -/
def overflow : ℚ := (2 ^ 54 - 1) * 2 ^ (970 : ℤ)

theorem den_ratio_pos (x : Binary64) : 0 < x.ratio.den := Ratio.den_shift_pos Nat.one_pos _

@[simp] theorem value_ratio (x : Binary64) : x.ratio.value = x.magnitude := by
  rw [ratio, Ratio.value_shift, magnitude, Ratio.value, Nat.cast_one, div_one]

theorem magnitude_nonneg (x : Binary64) : 0 ≤ x.magnitude :=
  mul_nonneg (Nat.cast_nonneg _) (zpow_pos two_pos _).le

section OfRatio

variable {r : Ratio}

/-- The mantissa and exponent before a carry are half a unit away from the number. -/
theorem abs_unit_sub_le (hden : 0 < r.den) (e : ℤ) :
    |((r.shift (-e)).round : ℚ) * 2 ^ e - r.value| ≤ 2 ^ e / 2 := by
  have hunit : (0 : ℚ) < 2 ^ e := zpow_pos two_pos e
  have hround := Ratio.abs_round_sub_value_le (Ratio.den_shift_pos hden (-e))
  have heq : ((r.shift (-e)).round : ℚ) * 2 ^ e - r.value =
      ((r.shift (-e)).round - (r.shift (-e)).value) * 2 ^ e := by
    rw [Ratio.value_shift, sub_mul, mul_assoc, ← zpow_add₀ two_ne_zero, neg_add_cancel, zpow_zero,
      mul_one]
  rw [heq, abs_mul, abs_of_pos hunit]
  calc _ ≤ 1 / 2 * (2 : ℚ) ^ e := mul_le_mul_of_nonneg_right hround hunit.le
    _ = 2 ^ e / 2 := by ring

/-- Half a unit is a small part of the number, or the least there is. -/
theorem half_unit_le (hnum : 0 < r.num) (hden : 0 < r.den) :
    (2 : ℚ) ^ r.exponent / 2 ≤ r.value / 2 ^ 53 + 2 ^ (-1075 : ℤ) ∧
      (1 ≤ r.value → (2 : ℚ) ^ r.exponent / 2 ≤ r.value / 2 ^ 53) := by
  have hpos : 0 < r.value / 2 ^ 53 := div_pos (Ratio.value_pos hnum hden) (by norm_num)
  have hleast := two_zpow_pos (-1075)
  obtain ⟨-, -, heq | hle⟩ := Ratio.exponent_bounds hnum hden
  · have hunit : (2 : ℚ) ^ r.exponent / 2 = 2 ^ (-1075 : ℤ) := by
      rw [heq, two_zpow_of_add (show (-1075 : ℤ) + 1 = -1074 by rfl), zpow_one,
        mul_div_cancel_right₀ _ two_ne_zero]
    have hsmall : (2 : ℚ) ^ (-1075 : ℤ) ≤ 1 / 2 ^ 53 :=
      (two_zpow_le (show (-1075 : ℤ) ≤ -53 by decide)).trans (by norm_num)
    rw [hunit]
    refine ⟨by linarith, fun hone => hsmall.trans ?_⟩
    exact div_le_div_of_nonneg_right hone (by norm_num)
  · have hunit : (2 : ℚ) ^ r.exponent / 2 ≤ r.value / 2 ^ 53 := by
      rw [two_zpow_of_add (rfl : (52 : ℤ) + r.exponent = 52 + r.exponent)] at hle
      rw [le_div_iff₀ (by norm_num)]
      calc (2 : ℚ) ^ r.exponent / 2 * 2 ^ 53 = 2 ^ (52 : ℤ) * 2 ^ r.exponent := by
            norm_num
            ring
        _ ≤ r.value := hle
    exact ⟨by linarith, fun _ => hunit⟩

/-- A number that is not too large keeps its exponent in range, with or without a carry. -/
theorem exponent_in_range (hnum : 0 < r.num) (hden : 0 < r.den) (h : r.value < overflow) :
    r.exponent ≤ 971 ∧ ((r.shift (-r.exponent)).round = 1 <<< 53 → r.exponent ≤ 970) := by
  have hunit := two_zpow_pos 970
  have htop : overflow < (2 : ℚ) ^ (1024 : ℤ) := by
    rw [overflow, two_zpow_of_add (show (54 : ℤ) + 970 = 1024 by rfl)]
    norm_num
  have hrange : r.exponent ≤ 971 := by
    by_contra hlarge
    obtain ⟨-, -, heq | hle⟩ := Ratio.exponent_bounds hnum hden
    · omega
    · linarith [two_zpow_le (show (1024 : ℤ) ≤ 52 + r.exponent by omega)]
  refine ⟨hrange, fun hcarry => ?_⟩
  by_contra hlarge
  have hexponent : r.exponent = 971 := by omega
  have herror := (abs_le.1 (abs_unit_sub_le hden r.exponent)).2
  have hmantissa : ((1 <<< 53 : ℕ) : ℚ) = 2 ^ 53 := by norm_num [Nat.shiftLeft_eq]
  rw [hcarry, hexponent, hmantissa, two_zpow_of_add (show (1 : ℤ) + 970 = 971 by rfl)] at herror
  rw [overflow] at h
  linarith

theorem ofRatio_of_carry (negative : Bool) (hnum : r.num ≠ 0)
    (hround : (r.shift (-r.exponent)).round = 1 <<< 53) (h : r.exponent ≤ 970) :
    ofRatio negative r = some ⟨negative, 1 <<< 52, r.exponent + 1⟩ := by
  have hexponent : ¬ 971 < r.exponent + 1 := by omega
  rw [ofRatio, if_neg hnum]
  simp only [hround, if_true, hexponent, if_false]

theorem ofRatio_of_no_carry (negative : Bool) (hnum : r.num ≠ 0)
    (hround : (r.shift (-r.exponent)).round ≠ 1 <<< 53) (h : r.exponent ≤ 971) :
    ofRatio negative r = some ⟨negative, (r.shift (-r.exponent)).round, r.exponent⟩ := by
  have hexponent : ¬ 971 < r.exponent := by omega
  rw [ofRatio, if_neg hnum]
  simp only [hround, hexponent, if_false]

/-- **A number that is not too large rounds to a double**, which is off by half a unit at most. -/
theorem ofRatio_eq_some (negative : Bool) (hden : 0 < r.den) (h : r.value < overflow) :
    ∃ x, ofRatio negative r = some x ∧
      |x.magnitude - r.value| ≤ r.value / 2 ^ 53 + 2 ^ (-1075 : ℤ) ∧
      (1 ≤ r.value → |x.magnitude - r.value| ≤ r.value / 2 ^ 53) := by
  by_cases hzero : r.num = 0
  · have hvalue : r.value = 0 := by rw [Ratio.value, hzero, Nat.cast_zero, zero_div]
    have hmagnitude : (zero negative).magnitude = 0 := by simp [zero, magnitude]
    refine ⟨zero negative, by rw [ofRatio, if_pos hzero], ?_,
      fun hone => absurd hone (by rw [hvalue]; norm_num)⟩
    rw [hmagnitude, hvalue, sub_self, abs_zero, zero_div, zero_add]
    exact (two_zpow_pos _).le
  · have hnum := Nat.pos_of_ne_zero hzero
    obtain ⟨hrange, hcarry⟩ := exponent_in_range hnum hden h
    obtain ⟨herror, herrorOne⟩ := half_unit_le hnum hden
    have hunit := abs_unit_sub_le hden r.exponent
    -- a carry changes mantissa and exponent and leaves their product as it is
    have hcases : ∃ x, ofRatio negative r = some x ∧
        x.magnitude = (r.shift (-r.exponent)).round * 2 ^ r.exponent := by
      by_cases hround : (r.shift (-r.exponent)).round = 1 <<< 53
      · refine ⟨_, ofRatio_of_carry negative hzero hround (hcarry hround), ?_⟩
        rw [magnitude, hround, zpow_add_one₀ two_ne_zero]
        norm_num [Nat.shiftLeft_eq]
        ring
      · exact ⟨_, ofRatio_of_no_carry negative hzero hround hrange, rfl⟩
    obtain ⟨x, hx, hmagnitude⟩ := hcases
    rw [← hmagnitude] at hunit
    exact ⟨x, hx, hunit.trans herror, fun hone => hunit.trans (herrorOne hone)⟩

end OfRatio

/-! ### Powers of ten -/

theorem ofNat_eq_some {n : ℕ} (h : (n : ℚ) < overflow) :
    ∃ x, ofNat n = some x ∧ (1 ≤ n → |x.magnitude - n| ≤ n / 2 ^ 53) := by
  have hvalue : (⟨n, 1⟩ : Ratio).value = n := by rw [Ratio.value, Nat.cast_one, div_one]
  obtain ⟨x, hx, -, herror⟩ := ofRatio_eq_some false (r := ⟨n, 1⟩) Nat.one_pos (by rwa [hvalue])
  rw [hvalue] at herror
  exact ⟨x, hx, fun hn => herror (by exact_mod_cast hn)⟩

theorem ten_pow_lt_overflow {k : ℕ} (h : k ≤ 308) : (10 : ℚ) ^ k < overflow := by
  have hlargest : (10 ^ 308 : ℕ) < (2 ^ 54 - 1) * 2 ^ 970 := by decide +kernel
  have hlargest : (10 : ℚ) ^ 308 < (2 ^ 54 - 1) * 2 ^ 970 := by
    have hcast : ((2 ^ 54 - 1 : ℕ) : ℚ) = 2 ^ 54 - 1 := by norm_num
    rw [← hcast]
    exact_mod_cast hlargest
  rw [overflow, show (970 : ℤ) = ((970 : ℕ) : ℤ) from rfl, zpow_natCast]
  exact (pow_le_pow_right₀ (by norm_num) h).trans_lt hlargest

theorem powerOfTen_eq_some {k : ℕ} (h : k ≤ 308) :
    ∃ p, powerOfTen k = some p ∧ 1 / 2 ≤ p.magnitude ∧
      p.magnitude ≤ 10 ^ k * (1 + 1 / 2 ^ 53) := by
  have hcast : ((Nat.pow 10 k : ℕ) : ℚ) = 10 ^ k := by
    rw [Nat.pow_eq, Nat.cast_pow, Nat.cast_ofNat]
  have hone : (1 : ℚ) ≤ 10 ^ k := one_le_pow₀ (by norm_num)
  obtain ⟨p, hp, herror⟩ := ofNat_eq_some (n := Nat.pow 10 k) (by
    rw [hcast]
    exact ten_pow_lt_overflow h)
  have herror := abs_le.1 (herror (Nat.one_le_pow k 10 (by decide)))
  rw [hcast] at herror
  refine ⟨p, hp, ?_, by linarith [herror.2]⟩
  have hpart : (10 : ℚ) ^ k / 2 ^ 53 ≤ 10 ^ k / 2 :=
    div_le_div_of_nonneg_left (by linarith) two_pos (by norm_num)
  linarith [herror.1]

section Product

variable {x y : Binary64}

theorem mul_eq_some (h : x.magnitude * y.magnitude < overflow) : (x.mul y).isSome = true := by
  have hvalue : (⟨x.ratio.num * y.ratio.num, x.ratio.den * y.ratio.den⟩ : Ratio).value =
      x.magnitude * y.magnitude := by
    rw [← value_ratio, ← value_ratio, Ratio.value, Ratio.value, Ratio.value, Nat.cast_mul,
      Nat.cast_mul, mul_div_mul_comm]
  obtain ⟨z, hz, -⟩ := ofRatio_eq_some false
    (r := ⟨x.ratio.num * y.ratio.num, x.ratio.den * y.ratio.den⟩)
    (Nat.mul_pos x.den_ratio_pos y.den_ratio_pos) (by rwa [hvalue])
  rw [mul, hz]
  rfl

theorem div_eq_some (hy : 0 < y.magnitude) (h : x.magnitude / y.magnitude < overflow) :
    ∃ z, x.div y = some z ∧ z.magnitude ≤ 2 * (x.magnitude / y.magnitude) + 1 := by
  have hvalue : (⟨x.ratio.num * y.ratio.den, x.ratio.den * y.ratio.num⟩ : Ratio).value =
      x.magnitude / y.magnitude := by
    rw [← value_ratio, ← value_ratio, Ratio.value, Ratio.value, Ratio.value, Nat.cast_mul,
      Nat.cast_mul, div_div_div_eq]
  have hnum : 0 < y.ratio.num := by
    rw [← value_ratio, Ratio.value] at hy
    by_contra hzero
    rw [Nat.eq_zero_of_not_pos hzero, Nat.cast_zero, zero_div] at hy
    exact lt_irrefl _ hy
  obtain ⟨z, hz, herror, -⟩ := ofRatio_eq_some false
    (r := ⟨x.ratio.num * y.ratio.den, x.ratio.den * y.ratio.num⟩)
    (Nat.mul_pos x.den_ratio_pos hnum) (by rwa [hvalue])
  rw [hvalue] at herror
  have hnonneg : 0 ≤ x.magnitude / y.magnitude := div_nonneg x.magnitude_nonneg hy.le
  have hpart : x.magnitude / y.magnitude / 2 ^ 53 ≤ x.magnitude / y.magnitude :=
    div_le_self hnonneg (by norm_num)
  have hleast : (2 : ℚ) ^ (-1075 : ℤ) ≤ 1 := by
    simpa using two_zpow_le (show (-1075 : ℤ) ≤ 0 by decide)
  exact ⟨z, hz, by linarith [(abs_le.1 herror).2]⟩

end Product

/-- Twice rounded, what does not exceed this number stays below the overflow. -/
def scaleLimit : ℚ := (2 ^ 54 - 7) * 2 ^ (970 : ℤ)

theorem scaleLimit_mul_lt : scaleLimit * (1 + 1 / 2 ^ 53) ^ 2 < overflow := by
  have hunit := two_zpow_pos 970
  rw [scaleLimit, overflow, mul_right_comm]
  exact mul_lt_mul_of_pos_right (by norm_num) hunit

theorem scaleLimit_lt_ten_pow : scaleLimit < 10 ^ 309 := by
  have hlargest : (2 ^ 54 * 2 ^ 970 : ℕ) < 10 ^ 309 := by decide +kernel
  have hlargest : (2 : ℚ) ^ 54 * 2 ^ 970 < 10 ^ 309 := by exact_mod_cast hlargest
  rw [scaleLimit, show (970 : ℤ) = ((970 : ℕ) : ℤ) from rfl, zpow_natCast]
  exact (mul_le_mul_of_nonneg_right (by norm_num) (by positivity)).trans_lt hlargest

theorem two_pow_lt_overflow {k : ℤ} (h : k ≤ 1023) : (2 : ℚ) ^ k < overflow := by
  have hunit := two_zpow_pos 970
  refine (two_zpow_le h).trans_lt ?_
  rw [overflow, two_zpow_of_add (show (53 : ℤ) + 970 = 1023 by rfl)]
  exact mul_lt_mul_of_pos_right (by norm_num) hunit

/-- A quotient by a power of ten is not much larger than the number was. -/
theorem div_powerOfTen {x : Binary64} {k : ℕ} (hk : k ≤ 308) (hx : x.magnitude ≤ 2 ^ (70 : ℤ)) :
    ∃ p z, powerOfTen k = some p ∧ x.div p = some z ∧ z.magnitude ≤ 4 * x.magnitude + 1 := by
  obtain ⟨p, hp, hhalf, -⟩ := powerOfTen_eq_some hk
  have hpos : 0 < p.magnitude := by linarith
  have hquotient : x.magnitude / p.magnitude ≤ 2 * x.magnitude := by
    rw [div_le_iff₀ hpos]
    nlinarith [x.magnitude_nonneg]
  have hsmall : 2 * x.magnitude ≤ 2 ^ (71 : ℤ) := by
    rw [two_zpow_of_add (show (1 : ℤ) + 70 = 71 by rfl), zpow_one]
    linarith
  obtain ⟨z, hz, hzLe⟩ := div_eq_some hpos
    ((hquotient.trans hsmall).trans_lt (two_pow_lt_overflow (by decide)))
  exact ⟨p, z, hp, hz, by linarith⟩

/-- A product with a power of ten, both factors being rounded. -/
theorem mul_powerOfTen {x : Binary64} {m k : ℕ} (hk : k ≤ 308)
    (hx : x.magnitude ≤ m * (1 + 1 / 2 ^ 53)) (h : (m : ℚ) * 10 ^ k ≤ scaleLimit) :
    ∃ p, powerOfTen k = some p ∧ (x.mul p).isSome = true := by
  obtain ⟨p, hp, -, hple⟩ := powerOfTen_eq_some hk
  refine ⟨p, hp, mul_eq_some ?_⟩
  calc x.magnitude * p.magnitude
      ≤ m * (1 + 1 / 2 ^ 53) * (10 ^ k * (1 + 1 / 2 ^ 53)) :=
        mul_le_mul hx hple p.magnitude_nonneg (by positivity)
    _ = m * 10 ^ k * (1 + 1 / 2 ^ 53) ^ 2 := by ring
    _ ≤ scaleLimit * (1 + 1 / 2 ^ 53) ^ 2 := mul_le_mul_of_nonneg_right h (by positivity)
    _ < overflow := scaleLimit_mul_lt

theorem exponent_le_of_le_scaleLimit {m : ℕ} {e : ℤ} (hm : 1 ≤ m)
    (h : (m : ℚ) * 10 ^ e ≤ scaleLimit) : e ≤ 308 := by
  by_contra hlarge
  have hone : (1 : ℚ) ≤ m := by exact_mod_cast hm
  have hpower : (10 : ℚ) ^ (309 : ℤ) ≤ 10 ^ e := zpow_le_zpow_right₀ (by norm_num) (by omega)
  have hpos : (0 : ℚ) < 10 ^ e := zpow_pos (by norm_num) e
  have hlimit : scaleLimit < 10 ^ (309 : ℤ) := scaleLimit_lt_ten_pow
  have hmul : (10 : ℚ) ^ e ≤ m * 10 ^ e := le_mul_of_one_le_left hpos.le hone
  exact absurd (hpower.trans (hmul.trans h)) (not_le.2 hlimit)

/-- **A decimal that is not too large is read as a double.** -/
theorem scale10_isSome {m : ℕ} {e : ℤ} (hm : m < 2 ^ 64) (h : (m : ℚ) * 10 ^ e ≤ scaleLimit) :
    (scale10 m e).isSome = true := by
  by_cases hzero : m = 0
  · subst hzero
    rfl
  have hone := Nat.one_le_iff_ne_zero.2 hzero
  have hmLt : (m : ℚ) < 2 ^ (64 : ℤ) := by exact_mod_cast hm
  obtain ⟨x, hx, herror⟩ := ofNat_eq_some (hmLt.trans (two_pow_lt_overflow (by decide)))
  have hxLe : x.magnitude ≤ m * (1 + 1 / 2 ^ 53) := by linarith [(abs_le.1 (herror hone)).2]
  have hxSmall : x.magnitude ≤ 2 ^ (65 : ℤ) := by
    rw [two_zpow_of_add (show (1 : ℤ) + 64 = 65 by rfl), zpow_one]
    linarith
  have he := exponent_le_of_le_scaleLimit hone h
  rw [scale10, hx, Option.bind_eq_bind, Option.bind_some]
  split
  · rfl
  split
  · omega
  split
  · next hnonneg =>
    obtain ⟨k, rfl⟩ := Int.eq_ofNat_of_zero_le hnonneg
    obtain ⟨p, hp, hmul⟩ := mul_powerOfTen (k := k) (by omega) hxLe (by exact_mod_cast h)
    rw [Int.toNat_natCast, hp]
    exact hmul
  split
  · obtain ⟨p, z, hp, hz, -⟩ := div_powerOfTen (x := x) (k := (-e).toNat) (by omega)
      (hxSmall.trans (two_zpow_le (by decide)))
    rw [hp]
    exact Option.isSome_iff_exists.2 ⟨z, hz⟩
  split
  · obtain ⟨p, y, hp, hy, hyLe⟩ := div_powerOfTen (x := x) (k := 308) (by omega)
      (hxSmall.trans (two_zpow_le (by decide)))
    obtain ⟨q, z, hq, hz, -⟩ := div_powerOfTen (x := y) (k := (-e - 308).toNat) (by omega) (by
      have := hxSmall
      norm_num at this ⊢
      linarith)
    rw [hp, Option.bind_some, hy, Option.bind_some, hq]
    exact Option.isSome_iff_exists.2 ⟨z, hz⟩
  · rfl

end Binary64

end MarkdownEdits
