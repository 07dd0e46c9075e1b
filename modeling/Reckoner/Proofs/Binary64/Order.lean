import Reckoner.Proofs.Binary64.Nearest

/-!
# Negation and order

Negation turns the sign bit of a number and keeps the rest. Greater ordinals belong to greater exact
values, and two finite numbers compare as their exact values do.
-/
namespace Reckoner.Binary64

open Float.Model (Format UnpackedFloat)
open Float.Model.UnpackedFloat

/-- A packed number and its opposite differ in the sign only. -/
theorem exists_packed_parts {u : UnpackedFloat} (h : u ≠ .notANumber) :
    ∃ s e m, u.pack Format.binary64 = packComponents Format.binary64 s e m ∧
      u.neg.pack Format.binary64 = packComponents Format.binary64 (-s) e m := by
  cases u with
  | notANumber => exact absurd rfl h
  | infinity s => exact ⟨s, _, _, rfl, rfl⟩
  | zero s => exact ⟨s, _, _, rfl, rfl⟩
  | finite s m e hm =>
    show ∃ s' e' m', _ = packComponents Format.binary64 s' e' m' ∧
      pack Format.binary64 (.finite (-s) m e hm) = packComponents Format.binary64 (-s') e' m'
    rw [pack_finite, pack_finite]
    split
    · exact ⟨s, _, _, rfl, rfl⟩
    split
    · exact ⟨s, _, _, rfl, rfl⟩
    · exact ⟨s, _, _, rfl, rfl⟩

section Neg

variable {x : Float}

theorem unpack_ne_notANumber (h : x.isNaN = false) : x.toModel.unpack ≠ .notANumber := by
  intro hunpack
  have hnan : x.toModel.unpack.isNaN = true := by
    rw [hunpack]
    rfl
  exact Bool.false_ne_true (h.symm.trans hnan)

theorem pack_unpack_toModel (h : x.isNaN = false) :
    x.toModel.unpack.pack Format.binary64 = pattern x := by
  refine pack_unpack fun hones => ?_
  have hle : ordinal x ≤ infinityOrdinal := by
    rw [← Bool.not_eq_true, isNaN_iff] at h
    exact Nat.not_lt.mp h
  rw [exponent_eq_allOnes_iff] at hones
  have hexponent := (exponent_pattern x).symm.trans hones
  refine (mantissa_eq_zero_iff _).mpr ((mantissa_pattern x).trans ?_)
  simp only [infinityOrdinal, binadeSize] at hle hexponent ⊢
  omega

theorem toNat_toBits_neg (h : x.isNaN = false) :
    (-x).toBits.toNat = (if isNegative x then 0 else signBit) + ordinal x := by
  obtain ⟨s, e, m, hpack, hneg⟩ := exists_packed_parts (unpack_ne_notANumber h)
  have hbits : x.toBits.toNat = _ := congrArg BitVec.toNat ((pack_unpack_toModel h).symm.trans hpack)
  have hopposite : (-x).toBits.toNat = _ := congrArg BitVec.toNat hneg
  have hpositive : (UnpackedFloat.Sign.positive.toBitVec).toNat = 0 := rfl
  have hnegative : (UnpackedFloat.Sign.negative.toBitVec).toNat = 1 := rfl
  have he : e.toNat < 2048 := e.isLt
  have hm : m.toNat < 2 ^ 52 := m.isLt
  have hlt := ordinal_lt x
  rw [toNat_toBits, toNat_packComponents] at hbits
  rw [hopposite, toNat_packComponents]
  cases s with
  | positive =>
    show UnpackedFloat.Sign.negative.toBitVec.toNat * _ + _ + _ = _
    rw [hnegative]
    rw [hpositive] at hbits
    cases hsign : isNegative x <;> simp [hsign, signBit, binadeSize] at hbits hlt ⊢ <;> omega
  | negative =>
    show UnpackedFloat.Sign.positive.toBitVec.toNat * _ + _ + _ = _
    rw [hpositive]
    rw [hnegative] at hbits
    cases hsign : isNegative x <;> simp [hsign, signBit, binadeSize] at hbits hlt ⊢ <;> omega

theorem ordinal_neg (h : x.isNaN = false) : ordinal (-x) = ordinal x := by
  have hlt := ordinal_lt x
  rw [ordinal, toNat_toBits_neg h]
  split
  · rw [Nat.zero_add, Nat.mod_eq_of_lt hlt]
  · rw [Nat.add_mod_left, Nat.mod_eq_of_lt hlt]

theorem isNegative_neg (h : x.isNaN = false) : isNegative (-x) = !isNegative x := by
  have hlt := ordinal_lt x
  rw [isNegative, toNat_toBits_neg h]
  cases isNegative x with
  | false => simp
  | true => simpa using hlt

theorem isNaN_of_isFinite (h : x.isFinite = true) : x.isNaN = false := by
  rw [← Bool.not_eq_true, isNaN_iff]
  exact Nat.lt_asymm ((isFinite_iff x).mp h)

theorem isFinite_neg (h : x.isFinite = true) : (-x).isFinite = true := by
  rw [isFinite_iff, ordinal_neg (isNaN_of_isFinite h)]
  exact (isFinite_iff x).mp h

theorem value_neg (h : x.isNaN = false) : value (-x) = -value x := by
  rw [value, value, magnitude, magnitude, ordinal_neg h, isNegative_neg h]
  cases isNegative x <;> simp

end Neg

theorem Representable.mul_lt {m : Nat} {q : Int} (h : Representable m q) (p : Int) :
    (m : Rat) * 2 ^ p < 2 ^ 53 * 2 ^ p := by
  have hlt : (m : Rat) < 2 ^ 53 := by exact_mod_cast h.lt
  exact mul_lt_mul_of_pos_right hlt (two_zpow_pos p)

/-- What is too long in one place is not longer than what is long enough in the next. -/
theorem binade_le_binade {p q : Int} (h : p < q) : (2 : Rat) ^ 53 * 2 ^ p ≤ 2 ^ 52 * 2 ^ q := by
  calc (2 : Rat) ^ 53 * 2 ^ p = 2 ^ 52 * 2 ^ (1 + p) := by
        rw [two_zpow_add]
        ring
    _ ≤ 2 ^ 52 * 2 ^ q := mul_le_mul_of_nonneg_left (two_zpow_le (by omega)) (by positivity)

/-- A significand in a higher place is greater, and so is the ordinal. -/
theorem Representable.lt_of_exponent_lt {m k : Nat} {p q : Int} (hm : Representable m p)
    (hk : Representable k q) (h : p < q) :
    (p + 1074).toNat * binadeSize + m < (q + 1074).toNat * binadeSize + k ∧
      (m : Rat) * 2 ^ p < k * 2 ^ q := by
  have hle := hm.le
  have hlt := hm.lt
  have hfull : 2 ^ 52 ≤ k := hk.full.resolve_right (by omega)
  constructor
  · have hplace : (p + 1074).toNat + 1 ≤ (q + 1074).toNat := by omega
    have hsteps := Nat.mul_le_mul_right binadeSize hplace
    simp only [binadeSize] at hsteps ⊢
    omega
  · have hhigh : (2 : Rat) ^ 52 ≤ k := by exact_mod_cast hfull
    calc (m : Rat) * 2 ^ p < 2 ^ 53 * 2 ^ p := hm.mul_lt p
      _ ≤ 2 ^ 52 * 2 ^ q := binade_le_binade h
      _ ≤ k * 2 ^ q := mul_le_mul_of_nonneg_right hhigh (two_zpow_pos q).le

theorem magnitudeAt_pos {n : Nat} (h : 0 < n) : 0 < magnitudeAt n := by
  obtain ⟨m, q, hm, rfl⟩ := exists_representable h
  have hpos : (0 : Rat) < m := by exact_mod_cast hm.pos
  rw [hm.magnitudeAt_eq]
  exact mul_pos hpos (two_zpow_pos q)

theorem magnitudeAt_strictMono : StrictMono magnitudeAt := by
  intro n k h
  rcases Nat.eq_zero_or_pos n with rfl | hn
  · rw [magnitudeAt_zero]
    exact magnitudeAt_pos h
  obtain ⟨m, p, hm, rfl⟩ := exists_representable hn
  obtain ⟨l, q, hl, rfl⟩ := exists_representable (hn.trans h)
  rw [hm.magnitudeAt_eq, hl.magnitudeAt_eq]
  rcases lt_trichotomy p q with hpq | rfl | hpq
  · exact (hm.lt_of_exponent_lt hl hpq).2
  · have hlt : (m : Rat) < l := by exact_mod_cast Nat.lt_of_add_lt_add_left h
    exact mul_lt_mul_of_pos_right hlt (two_zpow_pos p)
  · exact absurd h (Nat.lt_asymm (hl.lt_of_exponent_lt hm hpq).1)

theorem magnitudeAt_le_magnitudeAt_iff {n k : Nat} : magnitudeAt n ≤ magnitudeAt k ↔ n ≤ k :=
  magnitudeAt_strictMono.le_iff_le

theorem magnitudeAt_nonneg (n : Nat) : 0 ≤ magnitudeAt n := by
  rw [← magnitudeAt_zero]
  exact magnitudeAt_le_magnitudeAt_iff.mpr (Nat.zero_le n)

theorem magnitudeAt_le_neg_iff {n k : Nat} : magnitudeAt n ≤ -magnitudeAt k ↔ n = 0 ∧ k = 0 := by
  constructor
  · intro h
    have hn := magnitudeAt_nonneg n
    have hk := magnitudeAt_nonneg k
    have hle : ∀ l, magnitudeAt l ≤ magnitudeAt 0 → l = 0 := fun l hl =>
      Nat.le_zero.mp (magnitudeAt_le_magnitudeAt_iff.mp hl)
    rw [magnitudeAt_zero] at hle
    exact ⟨hle n (by linarith), hle k (by linarith)⟩
  · rintro ⟨rfl, rfl⟩
    rw [magnitudeAt_zero, neg_zero]

/-- The ordinal with the sign, in whose order finite numbers follow each other. -/
def signedOrdinal (x : Float) : Int := (signOf x).apply (ordinal x)

theorem value_le_value_iff {x y : Float} :
    value x ≤ value y ↔ signedOrdinal x ≤ signedOrdinal y := by
  have hx := magnitudeAt_nonneg (ordinal x)
  have hy := magnitudeAt_nonneg (ordinal y)
  rw [value, value, magnitude, magnitude, signedOrdinal, signedOrdinal, signOf, signOf]
  cases isNegative x <;> cases isNegative y <;>
    simp only [Bool.false_eq_true, if_true, if_false, Sign.apply]
  · rw [magnitudeAt_le_magnitudeAt_iff]
    omega
  · rw [magnitudeAt_le_neg_iff]
    omega
  · exact iff_of_true (by linarith) (by omega)
  · rw [neg_le_neg_iff, magnitudeAt_le_magnitudeAt_iff]
    omega

theorem compare_add_left (a m k : Nat) : compare (a + m) (a + k) = compare m k := by
  rcases lt_trichotomy m k with h | rfl | h
  · rw [compare_lt_iff_lt.mpr h, compare_lt_iff_lt.mpr (Nat.add_lt_add_left h a)]
  · rw [compare_eq_iff_eq.mpr rfl, compare_eq_iff_eq.mpr rfl]
  · rw [compare_gt_iff_gt.mpr h, compare_gt_iff_gt.mpr (Nat.add_lt_add_left h a)]

/-- To compare places and then significands is to compare ordinals. -/
theorem Representable.compare_eq {m k : Nat} {p q : Int} (hm : Representable m p)
    (hk : Representable k q) :
    (compare p q).then (compare m k) =
      compare ((p + 1074).toNat * binadeSize + m) ((q + 1074).toNat * binadeSize + k) := by
  rcases lt_trichotomy p q with hpq | rfl | hpq
  · rw [compare_lt_iff_lt.mpr hpq, compare_lt_iff_lt.mpr (hm.lt_of_exponent_lt hk hpq).1]
    rfl
  · rw [compare_eq_iff_eq.mpr rfl, compare_add_left]
    rfl
  · rw [compare_gt_iff_gt.mpr hpq, compare_gt_iff_gt.mpr (hk.lt_of_exponent_lt hm hpq).1]
    rfl

section Signs

variable {s s' : UnpackedFloat.Sign} {m k n l : Nat} {p q : Int}

theorem zero_le_finite_iff (hk : 0 < k) (hl : 0 < l) :
    (UnpackedFloat.zero s).le (.finite s' k q hk) = true ↔ s.apply (0 : Nat) ≤ s'.apply l := by
  have hzero : s.apply (0 : Nat) = 0 := by cases s <;> rfl
  rw [hzero]
  cases s' with
  | negative =>
    show false = true ↔ 0 ≤ -(l : Int)
    exact iff_of_false Bool.false_ne_true (by omega)
  | positive => exact iff_of_true rfl (Int.natCast_nonneg l)

theorem finite_le_zero_iff (hm : 0 < m) (hn : 0 < n) :
    (UnpackedFloat.finite s m p hm).le (.zero s') = true ↔ s.apply n ≤ s'.apply (0 : Nat) := by
  have hzero : s'.apply (0 : Nat) = 0 := by cases s' <;> rfl
  rw [hzero]
  cases s with
  | negative =>
    show true = true ↔ -(n : Int) ≤ 0
    exact iff_of_true rfl (by omega)
  | positive =>
    show false = true ↔ (n : Int) ≤ 0
    exact iff_of_false Bool.false_ne_true (by omega)

/-- Forms whose places and significands compare as two positive numbers do are in the order of these
numbers with their signs. -/
theorem finite_le_finite_iff (hm : 0 < m) (hk : 0 < k) (hn : 0 < n) (hl : 0 < l)
    (h : (compare p q).then (compare m k) = compare n l) :
    (UnpackedFloat.finite s m p hm).le (.finite s' k q hk) = true ↔ s.apply n ≤ s'.apply l := by
  cases s <;> cases s'
  · show ((compare p q).then (compare m k)).swap.isLE = true ↔ -(n : Int) ≤ -(l : Int)
    rw [h, Ordering.isLE_swap, Nat.isGE_compare]
    omega
  · exact iff_of_true rfl (by simp only [Sign.apply]; omega)
  · exact iff_of_false Bool.false_ne_true (by simp only [Sign.apply]; omega)
  · show ((compare p q).then (compare m k)).isLE = true ↔ (n : Int) ≤ (l : Int)
    rw [h, Nat.isLE_compare]
    omega

end Signs

/-- Unpacked numbers are in the order of their signed ordinals, also where one of them is a zero,
which is unpacked to a form of its own. -/
theorem unpack_le_iff {x y : Float} (hx : ordinal x < infinityOrdinal)
    (hy : ordinal y < infinityOrdinal) :
    x.toModel.unpack.le y.toModel.unpack = true ↔ signedOrdinal x ≤ signedOrdinal y := by
  rw [signedOrdinal, signedOrdinal]
  rcases Nat.eq_zero_or_pos (ordinal x) with hx0 | hxpos
  · rw [unpack_of_ordinal_eq_zero hx0, hx0]
    rcases Nat.eq_zero_or_pos (ordinal y) with hy0 | hypos
    · rw [unpack_of_ordinal_eq_zero hy0, hy0]
      cases signOf x <;> cases signOf y <;> decide
    · obtain ⟨k, q, hk, hyk⟩ := exists_representable hypos
      rw [unpack_of_representable hk hyk hy]
      exact zero_le_finite_iff hk.pos hypos
  · obtain ⟨m, p, hm, hxm⟩ := exists_representable hxpos
    rw [unpack_of_representable hm hxm hx]
    rcases Nat.eq_zero_or_pos (ordinal y) with hy0 | hypos
    · rw [unpack_of_ordinal_eq_zero hy0, hy0]
      exact finite_le_zero_iff hm.pos hxpos
    · obtain ⟨k, q, hk, hyk⟩ := exists_representable hypos
      rw [unpack_of_representable hk hyk hy]
      refine finite_le_finite_iff hm.pos hk.pos hxpos hypos ?_
      rw [hm.compare_eq hk, hxm, hyk]

/-- Two finite numbers compare as their exact values do. -/
theorem le_iff_value_le {x y : Float} (hx : x.isFinite = true) (hy : y.isFinite = true) :
    x ≤ y ↔ value x ≤ value y := by
  rw [value_le_value_iff, ← unpack_le_iff ((isFinite_iff x).mp hx) ((isFinite_iff y).mp hy)]
  exact decide_eq_true_iff

end Reckoner.Binary64
