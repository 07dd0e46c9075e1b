import Reckoner.Decimal.Basic
import Reckoner.Proofs.Binary64.Nearest

/-!
# The nearest number to a decimal

The number of a decimal depends on its exact value only, whichever digits and exponent write it.
-/
namespace Reckoner.Decimal

open Binary64

theorem ten_zpow_pos (n : Int) : (0 : Rat) < 10 ^ n := by positivity

/-- Three binary digits are worth less than one decimal digit. -/
theorem two_zpow_le_ten_zpow {n : Int} (h : 0 ≤ n) : (2 : Rat) ^ (3 * n) ≤ 10 ^ n := by
  rw [zpow_mul]
  exact zpow_le_zpow_left₀ h (by norm_num) (by norm_num)

theorem ten_zpow_le_two_zpow {n : Int} (h : n ≤ 0) : (10 : Rat) ^ n ≤ 2 ^ (3 * n) := by
  have hinv := two_zpow_le_ten_zpow (Int.neg_nonneg.mpr h)
  rw [mul_neg, zpow_neg, zpow_neg] at hinv
  exact (inv_le_inv₀ (two_zpow_pos _) (ten_zpow_pos _)).mp hinv

theorem value_of_digits_eq_zero {d : Decimal} (h : d.digits = 0) : d.value = 0 := by
  rw [value, h, Nat.cast_zero, zero_mul]

theorem value_lt_of_exponent_lt {d : Decimal} (h : d.exponent < -(400 + d.digits.log2 : Int)) :
    d.value < 2 ^ (-1075 : Int) := by
  have hten : (10 : Rat) ^ d.exponent ≤ 2 ^ (3 * d.exponent) := ten_zpow_le_two_zpow (by omega)
  calc d.value ≤ d.digits * 2 ^ (3 * d.exponent) :=
        mul_le_mul_of_nonneg_left hten (Nat.cast_nonneg _)
    _ < 2 ^ ((d.digits.log2 : Int) + 1) * 2 ^ (3 * d.exponent) :=
        mul_lt_mul_of_pos_right (lt_two_zpow_log2 _) (two_zpow_pos _)
    _ = 2 ^ ((d.digits.log2 : Int) + 1 + 3 * d.exponent) := (two_zpow_add _ _).symm
    _ ≤ 2 ^ (-1075 : Int) := two_zpow_le (by omega)

theorem le_value_of_lt_exponent {d : Decimal} (hne : d.digits ≠ 0) (h : 400 < d.exponent) :
    (2 : Rat) ^ (1024 : Int) ≤ d.value := by
  have hdigits : (1 : Rat) ≤ d.digits := by exact_mod_cast Nat.pos_of_ne_zero hne
  calc (2 : Rat) ^ (1024 : Int) ≤ 2 ^ (3 * d.exponent) := two_zpow_le (by omega)
    _ ≤ 10 ^ d.exponent := two_zpow_le_ten_zpow (by omega)
    _ ≤ d.value := le_mul_of_one_le_left (ten_zpow_pos _).le hdigits

theorem nearest_of_nearestOrdinal_eq_zero {r : Rat} (h : nearestOrdinal r = 0) : nearest r = 0 :=
  ext_of_ordinal ((isNegative_nearest r).trans (by decide))
    ((ordinal_nearest r).trans (h.trans ordinal_zero.symm))

/-- The cases that spare powers of ten give the nearest number as well. -/
theorem toFloat_eq_nearest (d : Decimal) : d.toFloat = nearest d.value := by
  rw [toFloat]
  by_cases hsmall : d.digits = 0 ∨ d.exponent < -(400 + d.digits.log2 : Int)
  · have hzero : nearestOrdinal d.value = 0 := by
      rcases hsmall with h | h
      · rw [value_of_digits_eq_zero h, nearestOrdinal_zero]
      · exact nearestOrdinal_eq_zero (value_lt_of_exponent_lt h)
    rw [if_pos hsmall, nearest_of_nearestOrdinal_eq_zero hzero]
  rw [if_neg hsmall]
  by_cases hlarge : 400 < d.exponent
  · have hinfinity := nearestOrdinal_eq_infinityOrdinal
      (le_value_of_lt_exponent (fun h => hsmall (.inl h)) hlarge)
    rw [if_pos hlarge, nearest, hinfinity, infinity]
  · rw [if_neg hlarge]

/-- Two decimals of one value have one number. -/
theorem toFloat_congr {d e : Decimal} (h : d.value = e.value) : d.toFloat = e.toFloat := by
  rw [toFloat_eq_nearest, toFloat_eq_nearest, h]

@[simp] theorem isNegative_toFloat (d : Decimal) : isNegative d.toFloat = false := by
  rw [toFloat_eq_nearest, isNegative_nearest]

/-- A decimal may be too great for a finite number, but it is a number. -/
theorem isNaN_toFloat (d : Decimal) : d.toFloat.isNaN = false := by
  rw [toFloat_eq_nearest, ← Bool.not_eq_true, isNaN_iff, ordinal_nearest]
  exact Nat.not_lt.mpr (nearestOrdinal_le _)

end Reckoner.Decimal
