import Mathlib.Algebra.Order.Field.Power
import Mathlib.Algebra.Order.Field.Rat
import Mathlib.Tactic.Linarith
import Mathlib.Tactic.NormNum
import Mathlib.Tactic.Positivity
import Mathlib.Tactic.Ring
import Reckoner.Proofs.Binary64.Bits

/-!
# The nearest number

Rounding to the nearest number gives back every finite number from its exact value, zero below half
the least positive number, and infinity from `2 ^ 1024` on.
-/
namespace Reckoner.Binary64

theorem two_zpow_pos (n : Int) : (0 : Rat) < 2 ^ n := by positivity

theorem two_zpow_add (m n : Int) : (2 : Rat) ^ (m + n) = 2 ^ m * 2 ^ n :=
  zpow_add₀ (by norm_num) m n

theorem two_zpow_le {m n : Int} (h : m ≤ n) : (2 : Rat) ^ m ≤ 2 ^ n :=
  zpow_le_zpow_right₀ (by norm_num) h

theorem lt_of_two_zpow_lt {m n : Int} (h : (2 : Rat) ^ m < 2 ^ n) : m < n := by
  by_contra hle
  exact absurd h (not_lt.mpr (two_zpow_le (not_lt.mp hle)))

/-- A rational that is positive, by its numerator and its denominator. -/
theorem mul_den_eq {r : Rat} (h : 0 < r) : r * (r.den : Rat) = (r.num.toNat : Rat) := by
  have hnum : (r.num.toNat : Int) = r.num := Int.toNat_of_nonneg (Rat.num_pos.mpr h).le
  rw [Rat.mul_den_eq_num, ← Int.cast_natCast, hnum]

/-- A positive natural number is between two powers of two. -/
theorem two_zpow_log2_le {n : Nat} (h : n ≠ 0) : (2 : Rat) ^ (n.log2 : Int) ≤ n := by
  rw [zpow_natCast]
  exact_mod_cast Nat.log2_self_le h

theorem lt_two_zpow_log2 (n : Nat) : (n : Rat) < 2 ^ ((n.log2 : Int) + 1) := by
  rw [← Nat.cast_succ, zpow_natCast]
  exact_mod_cast Nat.lt_log2_self

/-- The difference of the logarithms is too great by at most one. -/
theorem guess_bounds {r : Rat} (h : 0 < r) :
    (2 : Rat) ^ ((r.num.toNat.log2 : Int) - r.den.log2 - 1) ≤ r ∧
      r < (2 : Rat) ^ ((r.num.toNat.log2 : Int) - r.den.log2 + 1) := by
  have hden : (0 : Rat) < r.den := by exact_mod_cast r.den_pos
  have hnum : r.num.toNat ≠ 0 := by
    have := Rat.num_pos.mpr h
    omega
  have hprod := mul_den_eq h
  have hlow := two_zpow_log2_le hnum
  have hhigh := lt_two_zpow_log2 r.num.toNat
  have hdlow := two_zpow_log2_le (Nat.ne_of_gt r.den_pos)
  have hdhigh := lt_two_zpow_log2 r.den
  constructor
  · refine le_of_mul_le_mul_right ?_ hden
    calc (2 : Rat) ^ ((r.num.toNat.log2 : Int) - r.den.log2 - 1) * r.den
        ≤ 2 ^ ((r.num.toNat.log2 : Int) - r.den.log2 - 1) * 2 ^ ((r.den.log2 : Int) + 1) :=
          mul_le_mul_of_nonneg_left hdhigh.le (two_zpow_pos _).le
      _ = 2 ^ (r.num.toNat.log2 : Int) := by
          rw [← two_zpow_add]
          congr 1
          ring
      _ ≤ r * r.den := hlow.trans hprod.ge
  · refine lt_of_mul_lt_mul_right ?_ hden.le
    calc r * r.den < 2 ^ ((r.num.toNat.log2 : Int) + 1) := hprod.trans_lt hhigh
      _ = 2 ^ ((r.num.toNat.log2 : Int) - r.den.log2 + 1) * 2 ^ (r.den.log2 : Int) := by
          rw [← two_zpow_add]
          congr 1
          ring
      _ ≤ 2 ^ ((r.num.toNat.log2 : Int) - r.den.log2 + 1) * r.den :=
          mul_le_mul_of_nonneg_left hdlow (two_zpow_pos _).le

theorem two_zpow_floorLog2_le {r : Rat} (h : 0 < r) : (2 : Rat) ^ floorLog2 r ≤ r := by
  rw [floorLog2]
  by_cases hguess : (2 : Rat) ^ ((r.num.toNat.log2 : Int) - r.den.log2) ≤ r
  · simpa only [if_pos hguess] using hguess
  · simpa only [if_neg hguess] using (guess_bounds h).1

theorem lt_two_zpow_floorLog2 {r : Rat} (h : 0 < r) : r < (2 : Rat) ^ (floorLog2 r + 1) := by
  rw [floorLog2]
  by_cases hguess : (2 : Rat) ^ ((r.num.toNat.log2 : Int) - r.den.log2) ≤ r
  · simpa only [if_pos hguess] using (guess_bounds h).2
  · simpa only [if_neg hguess, Int.sub_add_cancel] using not_le.mp hguess

theorem le_floorLog2 {r : Rat} {n : Int} (h : (2 : Rat) ^ n ≤ r) : n ≤ floorLog2 r := by
  have hpos := (two_zpow_pos n).trans_le h
  have := lt_of_two_zpow_lt (h.trans_lt (lt_two_zpow_floorLog2 hpos))
  omega

theorem floorLog2_lt {r : Rat} (hpos : 0 < r) {n : Int} (h : r < 2 ^ n) : floorLog2 r < n :=
  lt_of_two_zpow_lt ((two_zpow_floorLog2_le hpos).trans_lt h)

@[simp] theorem roundHalfEven_intCast (n : Int) : roundHalfEven n = n := by
  have hexcess : (n : Rat) - (n : Rat).floor < 1 / 2 := by
    rw [Rat.floor_intCast, sub_self]
    norm_num
  rw [roundHalfEven, Rat.floor_intCast]
  simp only [Rat.floor_intCast] at hexcess
  exact if_pos hexcess

theorem floor_le_roundHalfEven (r : Rat) : r.floor ≤ roundHalfEven r := by
  rw [roundHalfEven]
  split
  · exact le_refl _
  split
  · omega
  split
  · exact le_refl _
  · omega

theorem le_roundHalfEven {n : Int} {r : Rat} (h : (n : Rat) ≤ r) : n ≤ roundHalfEven r :=
  (Rat.le_floor_iff.mpr h).trans (floor_le_roundHalfEven r)

theorem roundHalfEven_eq_zero {r : Rat} (hnonneg : 0 ≤ r) (h : r < 1 / 2) :
    roundHalfEven r = 0 := by
  have hfloor : r.floor = 0 := by
    have hle : 0 ≤ r.floor := Rat.le_floor_iff.mpr (by exact_mod_cast hnonneg)
    have hlt : r.floor < 1 := Rat.floor_lt_iff.mpr (by push_cast; linarith)
    omega
  have hexcess : r - ((0 : Int) : Rat) < 1 / 2 := by
    push_cast
    linarith
  rw [roundHalfEven, hfloor]
  exact if_pos hexcess

theorem nearestOrdinal_le (r : Rat) : nearestOrdinal r ≤ infinityOrdinal := by
  rw [nearestOrdinal]
  split
  · exact Nat.zero_le _
  · exact Nat.min_le_left _ _

@[simp] theorem nearestOrdinal_zero : nearestOrdinal 0 = 0 := if_pos (le_refl _)

theorem nearestOrdinal_of_pos {r : Rat} (h : 0 < r) :
    nearestOrdinal r = min infinityOrdinal ((unitExponent r + 1074).toNat * binadeSize +
      (roundHalfEven (r * 2 ^ (-unitExponent r))).toNat) :=
  if_neg (not_le.mpr h)

theorem Representable.unitExponent_eq {m : Nat} {q : Int} (h : Representable m q) :
    unitExponent ((m : Rat) * 2 ^ q) = q := by
  have hm : (0 : Rat) < m := by exact_mod_cast h.pos
  have hpos : (0 : Rat) < m * 2 ^ q := mul_pos hm (two_zpow_pos q)
  have hhigh : (m : Rat) * 2 ^ q < 2 ^ (53 + q) := by
    have hlt : (m : Rat) < 2 ^ (53 : Int) := by exact_mod_cast h.lt
    rw [two_zpow_add]
    exact mul_lt_mul_of_pos_right hlt (two_zpow_pos q)
  have hlog := floorLog2_lt hpos hhigh
  have hle := h.le
  rw [unitExponent]
  rcases h.full with hfull | rfl
  · have hlow : (2 : Rat) ^ (52 + q) ≤ m * 2 ^ q := by
      have hge : (2 : Rat) ^ (52 : Int) ≤ m := by exact_mod_cast hfull
      rw [two_zpow_add]
      exact mul_le_mul_of_nonneg_right hge (two_zpow_pos q).le
    have := le_floorLog2 hlow
    omega
  · omega

/-- The nearest number to a value that some number has is that number. -/
theorem Representable.nearestOrdinal_eq {m : Nat} {q : Int} (h : Representable m q) :
    nearestOrdinal ((m : Rat) * 2 ^ q) =
      min infinityOrdinal ((q + 1074).toNat * binadeSize + m) := by
  have hm : (0 : Rat) < m := by exact_mod_cast h.pos
  have hround : (m : Rat) * 2 ^ q * 2 ^ (-q) = ((m : Int) : Rat) := by
    rw [mul_assoc, ← two_zpow_add, add_neg_cancel, zpow_zero, mul_one, Int.cast_natCast]
  rw [nearestOrdinal_of_pos (mul_pos hm (two_zpow_pos q)), h.unitExponent_eq, hround,
    roundHalfEven_intCast, Int.toNat_natCast]

@[simp] theorem magnitudeAt_zero : magnitudeAt 0 = 0 := by
  rw [magnitudeAt]
  norm_num

/-- The ordinal of a number counts its last places and its significand. -/
theorem Representable.magnitudeAt_eq {m : Nat} {q : Int} (h : Representable m q) :
    magnitudeAt ((q + 1074).toNat * binadeSize + m) = (m : Rat) * 2 ^ q := by
  have hlt := h.lt
  have hle := h.le
  obtain ⟨k, rfl⟩ : ∃ k : Nat, q = k - 1074 := ⟨(q + 1074).toNat, by omega⟩
  have hk : ((k : Int) - 1074 + 1074).toNat = k := by omega
  rw [hk, magnitudeAt]
  by_cases hfull : 2 ^ 52 ≤ m
  · have hdiv : (k * binadeSize + m) / binadeSize = k + 1 := by
      simp only [binadeSize]
      omega
    have hmod : binadeSize + (k * binadeSize + m) % binadeSize = m := by
      simp only [binadeSize]
      omega
    rw [hdiv, if_neg (Nat.succ_ne_zero k), hmod]
    congr 2
    push_cast
    ring
  · have hzero : k = 0 := by
      have := h.full
      omega
    subst hzero
    have hsmall : m < binadeSize := by
      simp only [binadeSize]
      omega
    rw [Nat.zero_mul, Nat.zero_add, Nat.div_eq_of_lt hsmall, if_pos rfl, Nat.mod_eq_of_lt hsmall]
    rfl

theorem nearestOrdinal_magnitudeAt {n : Nat} (h : n < infinityOrdinal) :
    nearestOrdinal (magnitudeAt n) = n := by
  rcases Nat.eq_zero_or_pos n with rfl | hpos
  · rw [magnitudeAt_zero, nearestOrdinal_zero]
  · obtain ⟨m, q, hm, rfl⟩ := exists_representable hpos
    rw [hm.magnitudeAt_eq, hm.nearestOrdinal_eq, Nat.min_eq_right h.le]

/-- Half the least positive number and what is below it are rounded to zero. -/
theorem nearestOrdinal_eq_zero {r : Rat} (h : r < 2 ^ (-1075 : Int)) : nearestOrdinal r = 0 := by
  by_cases hpos : 0 < r
  · have hlog := floorLog2_lt hpos h
    have hunit : unitExponent r = -1074 := by
      rw [unitExponent]
      omega
    have hhalf : r * 2 ^ (-(-1074) : Int) < 1 / 2 := by
      calc r * 2 ^ (-(-1074) : Int) < 2 ^ (-1075 : Int) * 2 ^ (-(-1074) : Int) :=
            mul_lt_mul_of_pos_right h (two_zpow_pos _)
        _ = 2 ^ (-1 : Int) := by rw [← two_zpow_add]; rfl
        _ = 1 / 2 := by norm_num
    rw [nearestOrdinal_of_pos hpos, hunit,
      roundHalfEven_eq_zero (mul_nonneg hpos.le (two_zpow_pos _).le) hhalf]
    rfl
  · exact if_pos (not_lt.mp hpos)

theorem nearestOrdinal_eq_infinityOrdinal {r : Rat} (h : (2 : Rat) ^ (1024 : Int) ≤ r) :
    nearestOrdinal r = infinityOrdinal := by
  have hpos := (two_zpow_pos 1024).trans_le h
  have hlog := le_floorLog2 h
  have hunit : unitExponent r = floorLog2 r - 52 := by
    rw [unitExponent]
    omega
  have hsignificand : (2 : Int) ^ 52 ≤ roundHalfEven (r * 2 ^ (-unitExponent r)) := by
    refine le_roundHalfEven ?_
    calc (((2 : Int) ^ 52 : Int) : Rat) = 2 ^ floorLog2 r * 2 ^ (-(floorLog2 r - 52)) := by
          rw [← two_zpow_add]
          have hsum : floorLog2 r + -(floorLog2 r - 52) = (52 : Nat) := by omega
          rw [hsum, zpow_natCast]
          norm_cast
      _ ≤ r * 2 ^ (-unitExponent r) := by
          rw [hunit]
          exact mul_le_mul_of_nonneg_right (two_zpow_floorLog2_le hpos) (two_zpow_pos _).le
  rw [nearestOrdinal_of_pos hpos]
  refine Nat.min_eq_left ?_
  have hshift : 2046 ≤ (unitExponent r + 1074).toNat := by omega
  have hproduct := Nat.mul_le_mul_right binadeSize hshift
  simp only [infinityOrdinal, binadeSize] at hproduct ⊢
  omega

section Nearest

variable (r : Rat)

@[simp] theorem ordinal_nearest : ordinal (nearest r) = nearestOrdinal r :=
  ordinal_ofOrdinal false (nearestOrdinal_le r)

@[simp] theorem isNegative_nearest : isNegative (nearest r) = false :=
  isNegative_ofOrdinal false (nearestOrdinal_le r)

end Nearest

end Reckoner.Binary64
