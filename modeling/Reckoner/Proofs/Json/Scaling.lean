import Reckoner.Json.Number
import Reckoner.Proofs.Binary64.Arithmetic
import Reckoner.Proofs.Decimal.Value

/-!
# Scaled significands

A number that is not whole is held as a significand that was scaled by a power of ten. Both are
rounded, and so is their product; but it is always a finite number, and where significand and power
are exact it is the number nearest to the decimal.
-/
namespace Reckoner.Json

open Binary64

theorem powerOfTen_eq (n : Nat) : powerOfTen n = nearest (10 ^ n) := by
  rw [powerOfTen, Decimal.toFloat_eq_nearest, Decimal.value]
  simp

/-- Up to 10^308 no number is too great for double precision. -/
theorem nearestOrdinal_lt_of_le {r : Rat} (h : r ≤ 10 ^ 308) :
    nearestOrdinal r < infinityOrdinal := by
  have hgreatest : 4 * (10 : Rat) ^ 308 < 3 * magnitudeAt infinityOrdinal := by decide +kernel
  have hhalf : 2 * magnitudeAt (infinityOrdinal - binadeSize) = magnitudeAt infinityOrdinal := by
    decide +kernel
  have hpos : 0 < magnitudeAt infinityOrdinal := magnitudeAt_pos (by decide)
  generalize (10 : Rat) ^ 308 = greatest at h hgreatest
  refine nearestOrdinal_lt (n := infinityOrdinal - binadeSize) (abs_lt.mpr ⟨?_, ?_⟩) <;> linarith

theorem nearestOrdinal_natCast_lt {n : Nat} (h : n < UInt64.size) :
    nearestOrdinal n < infinityOrdinal := by
  refine nearestOrdinal_lt_of_le ?_
  have hle : n ≤ 10 ^ 308 := h.le.trans (by decide +kernel)
  exact_mod_cast hle

theorem nearestOrdinal_ten_pow_lt {n : Nat} (h : n ≤ 308) :
    nearestOrdinal (10 ^ n) < infinityOrdinal :=
  nearestOrdinal_lt_of_le (pow_le_pow_right₀ (by norm_num) h)

theorem unsigned_powerOfTen {n : Nat} (h : n ≤ 308) : Unsigned (powerOfTen n) :=
  powerOfTen_eq n ▸ unsigned_nearest (nearestOrdinal_ten_pow_lt h)

theorem one_le_magnitude_powerOfTen {n : Nat} (h : n ≤ 308) : 1 ≤ magnitude (powerOfTen n) := by
  have hten : (1 : Rat) ≤ 10 ^ n := one_le_pow₀ (by norm_num)
  have hone : value 1 = 1 := by decide +kernel
  have hnearest := isNearest_nearest (zero_le_one.trans hten) (nearestOrdinal_ten_pow_lt h)
  have hclosest := hnearest.closest 1 (by decide +kernel)
  rw [← powerOfTen_eq, (unsigned_powerOfTen h).value_eq, hone,
    abs_of_nonneg (sub_nonneg.mpr hten)] at hclosest
  linarith [le_abs_self ((10 : Rat) ^ n - magnitude (powerOfTen n))]

/-- A scaled number is finite. -/
theorem unsigned_of_scaleBy {x y : Float} {exponent : Int} (hx : Unsigned x)
    (h : scaleBy x exponent = some y) : Unsigned y := by
  fun_induction scaleBy x exponent with
  | case1 x exponent hbelow hzero =>
    cases h
    exact hx
  | case2 x exponent hbelow hne ih =>
    exact ih (hx.div (unsigned_powerOfTen le_rfl) (one_le_magnitude_powerOfTen le_rfl)) h
  | case3 x exponent hmin hneg =>
    cases h
    have hle : exponent.natAbs ≤ 308 := by omega
    exact hx.div (unsigned_powerOfTen hle) (one_le_magnitude_powerOfTen hle)
  | case4 =>
    cases h
    exact hx
  | case5 => cases h
  | case6 => cases h
  | case7 x exponent hmin hnonneg hmax scaled hfinite =>
    obtain rfl : scaled = y := Option.some.inj h
    have hle : exponent.natAbs ≤ 308 := by omega
    exact hx.mul (unsigned_powerOfTen hle) (Bool.eq_false_of_not_eq_true hfinite)

/-- The number of a decimal: a whole number below 2^64, or a significand and a power of ten that are
both exact. -/
def Exact (d : Decimal) : Prop :=
  (d.exponent = 0 ∧ d.digits < 2 ^ 64) ∨ (d.exponent.natAbs ≤ 22 ∧ d.digits < 2 ^ 53)

theorem Exact.digits_lt {d : Decimal} (h : Exact d) : d.digits < UInt64.size := by
  simp only [UInt64.size]
  rcases h with ⟨-, h⟩ | ⟨-, h⟩ <;> omega

theorem Exact.natAbs_le {d : Decimal} (h : Exact d) : d.exponent.natAbs ≤ 22 := by
  rcases h with ⟨h, -⟩ | ⟨h, -⟩ <;> omega

theorem Exact.value_le {d : Decimal} (h : Exact d) : d.value ≤ 10 ^ 308 := by
  have hdigits : (d.digits : Rat) ≤ 10 ^ 286 := by
    have : d.digits ≤ 10 ^ 286 := h.digits_lt.le.trans (by decide +kernel)
    exact_mod_cast this
  have hpower : (10 : Rat) ^ d.exponent ≤ 10 ^ (22 : Int) :=
    zpow_le_zpow_right₀ (by norm_num) (by have := h.natAbs_le; omega)
  calc d.value ≤ 10 ^ 286 * 10 ^ (22 : Int) :=
        mul_le_mul hdigits hpower (Decimal.ten_zpow_pos _).le (by positivity)
    _ = 10 ^ 308 := by rw [← zpow_natCast, ← zpow_add₀ (by norm_num)]; rfl

theorem toFloat_toUInt64 {n : Nat} (h : n < UInt64.size) : n.toUInt64.toFloat = nearest n := by
  rw [toFloat_eq_nearest, Nat.toUInt64, UInt64.toNat_ofNat_of_lt' h]

theorem Exact.unsigned {d : Decimal} (h : Exact d) : Unsigned (nearest d.digits) :=
  unsigned_nearest (nearestOrdinal_natCast_lt h.digits_lt)

theorem Exact.nearestOrdinal_lt {d : Decimal} (h : Exact d) :
    nearestOrdinal d.value < infinityOrdinal :=
  nearestOrdinal_lt_of_le h.value_le

end Reckoner.Json
