import MarkdownEdits.Number.Shortest
import MarkdownEdits.Proofs.Rounding

/-!
# Bounds for the shortest decimal

The decimal that is chosen for a double other than zero is positive, and it is no further away than
half a unit above the double.
-/

namespace MarkdownEdits.Binary64

variable {x : Binary64} {n : ℕ} {k : ℤ}

/-- The number half a unit above a double. -/
def ceiling (x : Binary64) : ℚ := (2 * x.mantissa + 1) * 2 ^ (x.exponent - 1)

/-- A mantissa of at most 53 bits, and an exponent that a double can have. -/
structure IsFinite (x : Binary64) : Prop where
  mantissa_lt : x.mantissa < 2 ^ 53
  exponent_ge : -1074 ≤ x.exponent
  exponent_le : x.exponent ≤ 971

/-! ### Points of a grid -/

theorem den_gridPoint_pos (n : ℕ) (k : ℤ) : 0 < (gridPoint n k).den :=
  Nat.pow_pos (by decide)

theorem value_gridPoint (n : ℕ) (k : ℤ) : (gridPoint n k).value = n * 10 ^ k := by
  obtain ⟨j, rfl | rfl⟩ := k.eq_nat_or_neg
  · have hden : (-(j : ℤ)).toNat = 0 := by omega
    simp only [Ratio.value, gridPoint, hden, Int.toNat_natCast, Nat.pow_eq, zpow_natCast]
    push_cast
    ring
  · have hnum : (-(j : ℤ)).toNat = 0 := by omega
    simp only [Ratio.value, gridPoint, hnum, neg_neg, Int.toNat_natCast, Nat.pow_eq, zpow_neg,
      zpow_natCast]
    push_cast
    ring

theorem den_high_pos (x : Binary64) : 0 < x.interval.2.den := Ratio.den_shift_pos Nat.one_pos _

theorem value_high (x : Binary64) : x.interval.2.value = x.ceiling := by
  rw [interval, Ratio.value_shift, Ratio.value, ceiling]
  push_cast
  ring

theorem num_low_pos (h : 0 < x.mantissa) : 0 < x.interval.1.num := by
  have hshift : ∀ (m : ℕ) (k : ℤ), 0 < m → 0 < (Ratio.shift ⟨m, 1⟩ k).num := by
    intro m k hm
    rw [Ratio.shift, Nat.shiftLeft_eq]
    exact Nat.mul_pos hm (Nat.two_pow_pos _)
  rw [interval]
  split
  · exact hshift _ _ (by omega)
  · exact hshift _ _ (by omega)

/-- **A decimal that reads back is positive, and at most half a unit above the double.** -/
theorem bounds_of_readsBack (hx : 0 < x.mantissa) (h : x.readsBack n k = true) :
    0 < n ∧ n * 10 ^ k ≤ x.ceiling := by
  have hlow := num_low_pos hx
  have hgrid := den_gridPoint_pos n k
  have hends : x.interval.1.num * (gridPoint n k).den ≤ (gridPoint n k).num * x.interval.1.den ∧
      (gridPoint n k).num * x.interval.2.den ≤ x.interval.2.num * (gridPoint n k).den := by
    unfold readsBack at h
    dsimp only at h
    split at h
    · simpa using h
    · simp only [Bool.and_eq_true, decide_eq_true_eq] at h
      exact ⟨h.1.le, h.2.le⟩
  constructor
  · by_contra hzero
    have hnum : (gridPoint n k).num = 0 := by
      rw [gridPoint, Nat.eq_zero_of_not_pos hzero, Nat.zero_mul]
    rw [hnum, Nat.zero_mul] at hends
    exact absurd (Nat.mul_pos hlow hgrid) (Nat.not_lt.2 hends.1)
  · have hgridPos : (0 : ℚ) < (gridPoint n k).den := by exact_mod_cast hgrid
    have hhighPos : (0 : ℚ) < x.interval.2.den := by exact_mod_cast x.den_high_pos
    rw [← value_gridPoint, ← value_high, Ratio.value, Ratio.value, div_le_div_iff₀ hgridPos hhighPos]
    exact_mod_cast hends.2

/-! ### The search -/

theorem readsBack_of_onGrid (h : x.onGrid k = some n) : x.readsBack n k = true := by
  unfold onGrid at h
  dsimp only at h
  split at h
  · next hfloor hnext =>
    obtain rfl := Option.some.inj h
    rcases Ratio.round_eq_or _ with hround | hround
    · rw [hround]
      exact hfloor
    · rw [hround]
      exact hnext
  · next hfloor _ =>
    obtain rfl := Option.some.inj h
    exact hfloor
  · next _ hnext =>
    obtain rfl := Option.some.inj h
    exact hnext
  · cases h

/-- A search ends with a decimal that reads back, or on the last grid. -/
theorem searchGrid_readsBack_or (x : Binary64) (k : ℤ) (fuel : ℕ) :
    x.readsBack (x.searchGrid k fuel).1 (x.searchGrid k fuel).2 = true ∨
      x.searchGrid k fuel = (x.mantissa, k - fuel) := by
  induction fuel generalizing k with
  | zero => exact .inr (by simp [searchGrid])
  | succ fuel ih =>
    rw [searchGrid]
    split
    · next hgrid => exact .inl (readsBack_of_onGrid hgrid)
    · have hlast : k - 1 - (fuel : ℤ) = k - ((fuel + 1 : ℕ) : ℤ) := by
        push_cast
        ring
      rw [← hlast]
      exact ih (k - 1)

/-- The last grid of the search is finer than any double needs. -/
theorem mantissa_mul_le_ceiling (hx : -1074 ≤ x.exponent) :
    x.mantissa * 10 ^ (-325 : ℤ) ≤ x.ceiling := by
  have hnat : 2 ^ 1075 ≤ 10 ^ 325 := by decide +kernel
  have hpower : (10 : ℚ) ^ (-325 : ℤ) ≤ 2 ^ (-1075 : ℤ) := by
    have hcast : (2 : ℚ) ^ 1075 ≤ 10 ^ 325 := by exact_mod_cast hnat
    have hinv := inv_anti₀ (by positivity) hcast
    rwa [show (-325 : ℤ) = -((325 : ℕ) : ℤ) from rfl, show (-1075 : ℤ) = -((1075 : ℕ) : ℤ) from rfl,
      zpow_neg, zpow_neg, zpow_natCast, zpow_natCast]
  have hunit : (10 : ℚ) ^ (-325 : ℤ) ≤ 2 ^ (x.exponent - 1) :=
    hpower.trans (two_zpow_le (by omega))
  have hmantissa : (0 : ℚ) ≤ x.mantissa := Nat.cast_nonneg _
  exact mul_le_mul (by linarith) hunit (by positivity) (by positivity)

/-- **The shortest decimal of a double is positive, and at most half a unit above it.** -/
theorem bounds_shortest (hmantissa : 0 < x.mantissa) (hexponent : -1074 ≤ x.exponent) :
    0 < x.shortest.1 ∧ x.shortest.1 * 10 ^ x.shortest.2 ≤ x.ceiling := by
  rcases x.searchGrid_readsBack_or 309 634 with hread | hlast
  · exact bounds_of_readsBack hmantissa hread
  · rw [shortest, hlast]
    exact ⟨hmantissa, mantissa_mul_le_ceiling hexponent⟩

/-- All doubles but the largest three are well below the limit to what is scaled. -/
theorem ceiling_le_scaleLimit (hx : x.IsFinite)
    (h : x.exponent = 971 → x.mantissa ≤ 2 ^ 53 - 4) : x.ceiling ≤ scaleLimit := by
  have hunit := two_zpow_pos 970
  rw [ceiling, scaleLimit]
  by_cases hlargest : x.exponent = 971
  · have hmantissa : (x.mantissa : ℚ) ≤ 2 ^ 53 - 4 := by
      have hle : x.mantissa + 4 ≤ 2 ^ 53 := by have := h hlargest; omega
      have hle : (x.mantissa : ℚ) + 4 ≤ 2 ^ 53 := by exact_mod_cast hle
      linarith
    rw [hlargest]
    refine mul_le_mul_of_nonneg_right ?_ hunit.le
    linarith
  · have hmantissa : (x.mantissa : ℚ) ≤ 2 ^ 53 := by exact_mod_cast hx.mantissa_lt.le
    have hexponent : x.exponent - 1 ≤ 969 := by have := hx.exponent_le; omega
    calc (2 * (x.mantissa : ℚ) + 1) * 2 ^ (x.exponent - 1)
        ≤ (2 * 2 ^ 53 + 1) * 2 ^ (969 : ℤ) :=
          mul_le_mul (by linarith) (two_zpow_le hexponent) (two_zpow_pos _).le (by norm_num)
      _ ≤ (2 ^ 54 - 7) * 2 ^ (970 : ℤ) := by
          rw [two_zpow_of_add (show (1 : ℤ) + 969 = 970 by rfl), ← mul_assoc]
          exact mul_le_mul_of_nonneg_right (by norm_num) (two_zpow_pos _).le

end MarkdownEdits.Binary64
