import Reckoner.Proofs.Binary64.Closest

/-!
# Rounding of results

The operations on numbers compute a significand with what is left of it, as far as rounding needs,
and round it to its place. What they give is the number nearest to the exact result.
-/
namespace Reckoner.Binary64

open Float.Model (Format UnpackedFloat totalExponent)
open Float.Model.UnpackedFloat

/-- A number between an integer and the next one, as far as rounding needs to know it. -/
def Describes (m : Nat) : Accuracy → Rat → Prop
  | .exact, t => t = m
  | .inexact .lt, t => m < t ∧ t < m + 1 / 2
  | .inexact .eq, t => t = m + 1 / 2
  | .inexact .gt, t => m + 1 / 2 < t ∧ t < m + 1

section Describes

variable {m : Nat} {accuracy : Accuracy} {t : Rat}

theorem Describes.bounds (h : Describes m accuracy t) : (m : Rat) ≤ t ∧ t < m + 1 := by
  match accuracy, h with
  | .exact, h => exact ⟨h.ge, by rw [h]; linarith⟩
  | .inexact .lt, ⟨hlow, hhigh⟩ => exact ⟨hlow.le, by linarith⟩
  | .inexact .eq, h => exact ⟨by rw [h]; linarith, by rw [h]; linarith⟩
  | .inexact .gt, ⟨hlow, hhigh⟩ => exact ⟨by linarith, hhigh⟩

/-- The rounded significand is the nearest integer. -/
theorem Describes.isRounded (h : Describes m accuracy t) :
    IsRounded t (accuracy.roundToNearestEven m : Nat) := by
  match accuracy, h with
  | .exact, h =>
    rw [h]
    exact isRounded_intCast m
  | .inexact .lt, ⟨hlow, hhigh⟩ =>
    have hdist : |t - (m : Int)| = t - m := abs_of_nonneg (by push_cast; linarith)
    refine ⟨?_, fun htie => ?_⟩
    · rw [Accuracy.roundToNearestEven, hdist]
      linarith
    · rw [Accuracy.roundToNearestEven, hdist] at htie
      linarith
  | .inexact .eq, h =>
    rcases Nat.mod_two_eq_zero_or_one m with heven | hodd
    · have hdist : |t - (m : Int)| = 1 / 2 := by
        rw [h, Int.cast_natCast, add_sub_cancel_left, abs_of_pos (by norm_num)]
      rw [Accuracy.roundToNearestEven, heven, Nat.add_zero]
      exact ⟨hdist.le, fun _ => by omega⟩
    · have hdist : |t - ((m + 1 : Nat) : Int)| = 1 / 2 := by
        have hbelow : t - ((m + 1 : Nat) : Int) = -(1 / 2) := by
          rw [h]
          push_cast
          ring
        rw [hbelow, abs_neg, abs_of_pos (by norm_num)]
      rw [Accuracy.roundToNearestEven, hodd]
      exact ⟨hdist.le, fun _ => by omega⟩
  | .inexact .gt, ⟨hlow, hhigh⟩ =>
    have hdist : |t - ((m + 1 : Nat) : Int)| = m + 1 - t := by
      rw [abs_sub_comm]
      push_cast
      exact abs_of_pos (by linarith)
    refine ⟨?_, fun htie => ?_⟩
    · rw [Accuracy.roundToNearestEven, hdist]
      linarith
    · rw [Accuracy.roundToNearestEven, hdist] at htie
      linarith

end Describes

/-- A shift by one place halves the number: the digit that leaves the significand is the new round
bit, and the old one joins the sticky bit. -/
theorem Describes.shiftRightOne {em : ExtendedMantissa} {t : Rat}
    (h : Describes em.mantissa em.accuracy t) :
    Describes em.shiftRightOne.mantissa em.shiftRightOne.accuracy (t / 2) := by
  obtain ⟨m, round, sticky⟩ := em
  have hsplit : (m : Rat) = 2 * (m / 2 : Nat) + (m % 2 : Nat) := by
    exact_mod_cast (Nat.div_add_mod m 2).symm
  rcases Nat.mod_two_eq_zero_or_one m with hmod | hmod <;> cases round <;> cases sticky <;>
    simp only [ExtendedMantissa.shiftRightOne, ExtendedMantissa.accuracy, Describes, hmod,
      bne_self_eq_false, Bool.or_false, Bool.or_true, Bool.or_self] at h hsplit ⊢ <;>
    grind

theorem Describes.shiftRight {em : ExtendedMantissa} {t : Rat}
    (h : Describes em.mantissa em.accuracy t) (n : Nat) :
    Describes (em >>> n).mantissa (em >>> n).accuracy (t / 2 ^ n) := by
  show Describes (n.repeat ExtendedMantissa.shiftRightOne em).mantissa
    (n.repeat ExtendedMantissa.shiftRightOne em).accuracy _
  induction n with
  | zero => rwa [Nat.repeat, pow_zero, div_one]
  | succ n ih =>
    rw [Nat.repeat, pow_succ, ← div_div]
    exact ih.shiftRightOne

theorem describes_ofMantissaAndAccuracy {m : Nat} {accuracy : Accuracy} {t : Rat}
    (h : Describes m accuracy t) :
    Describes (ExtendedMantissa.ofMantissaAndAccuracy m accuracy).mantissa
      (ExtendedMantissa.ofMantissaAndAccuracy m accuracy).accuracy t := by
  match accuracy, h with
  | .exact, h => exact h
  | .inexact .lt, h => exact h
  | .inexact .eq, h => exact h
  | .inexact .gt, h => exact h

theorem two_pow_le_of_log2 {m : Nat} (h : 0 < m) : 2 ^ m.log2 ≤ m ∧ m < 2 ^ (m.log2 + 1) :=
  (Nat.log2_eq_iff (Nat.ne_of_gt h)).mp rfl

/-- The bits of a significand in its place count the finite numbers; beyond them is infinity. -/
theorem toNat_pack_finite (s : UnpackedFloat.Sign) {m : Nat} {q : Int} (h : Representable m q)
    (hpos : 0 < m) : (pack Format.binary64 (.finite s m q hpos)).toNat =
      s.toBitVec.toNat * signBit + min infinityOrdinal ((q + 1074).toNat * binadeSize + m) := by
  obtain ⟨-, hlt, hq, hfull⟩ := h
  have hexponent : (q + 1023 + 52).toNat = (q + 1074).toNat + 1 := by omega
  have hlog : m.log2 + 1 = 53 ↔ 2 ^ 52 ≤ m := by
    have := two_pow_le_of_log2 hpos
    constructor
    · intro hlog
      have : m.log2 = 52 := by omega
      simp_all
    · intro hge
      have : m.log2 = 52 := (Nat.log2_eq_iff (Nat.ne_of_gt hpos)).mpr ⟨hge, hlt⟩
      omega
  rw [pack_finite, hexponent]
  simp only [hlog]
  split
  · next hover =>
    have hones : (-1#11).toNat = 2047 := rfl
    have hzero : (0 : BitVec 52).toNat = 0 := rfl
    rw [packedInfinity, toNat_packComponents, hones, hzero]
    simp only [binadeSize, infinityOrdinal]
    omega
  split
  · next hnormal =>
    rw [toNat_packComponents, BitVec.toNat_ofNat, BitVec.toNat_ofNat]
    simp only [binadeSize, infinityOrdinal]
    omega
  · next hsubnormal =>
    have hzero : (0#11).toNat = 0 := rfl
    rw [toNat_packComponents, hzero, BitVec.toNat_ofNat]
    simp only [binadeSize, infinityOrdinal]
    omega

theorem toNat_pack_zero (s : UnpackedFloat.Sign) :
    (pack Format.binary64 (.zero s)).toNat = s.toBitVec.toNat * signBit := by
  show (packComponents Format.binary64 s 0 0).toNat = _
  have hexponent : (0 : BitVec 11).toNat = 0 := rfl
  have hmantissa : (0 : BitVec 52).toNat = 0 := rfl
  rw [toNat_packComponents, hexponent, hmantissa]
  omega

/-- The place that is aimed at is that of the numbers around. -/
theorem targetExponent_eq {r : Rat} {m : Nat} {e : Int} (hr : 0 < r)
    (hlow : (m : Rat) ≤ r * 2 ^ (-e)) (hhigh : r * 2 ^ (-e) < m + 1) (hm : 0 < m ∨ e ≤ -1074) :
    Format.binary64.targetExponent (totalExponent m e) = unitExponent r := by
  have htarget : Format.binary64.targetExponent (totalExponent m e) =
      max ((m.log2 : Int) + 1 + e - 53) (-1074) := rfl
  have hscale := unscale r e
  have hpow := two_zpow_pos e
  rw [htarget, unitExponent]
  rcases Nat.eq_zero_or_pos m with rfl | hpos
  · have hlt : r < 2 ^ e := by
      rw [← hscale]
      simpa using mul_lt_mul_of_pos_right hhigh hpow
    have := floorLog2_lt hr hlt
    have := hm.resolve_left (Nat.lt_irrefl 0)
    rw [Nat.log2_zero]
    omega
  · obtain ⟨hge, hlt⟩ := two_pow_le_of_log2 hpos
    have hlog : floorLog2 r = m.log2 + e := by
      refine le_antisymm (Int.lt_add_one_iff.mp (floorLog2_lt hr ?_)) (le_floorLog2 ?_)
      · have hsucc : (m : Rat) + 1 ≤ 2 ^ (m.log2 + 1) := by exact_mod_cast hlt
        rw [← hscale, add_right_comm, two_zpow_add]
        refine mul_lt_mul_of_pos_right (hhigh.trans_le ?_) hpow
        exact_mod_cast hsucc
      · have hcast : ((2 : Rat) ^ m.log2) ≤ m := by exact_mod_cast hge
        rw [← hscale, two_zpow_add, zpow_natCast]
        exact mul_le_mul_of_nonneg_right (hcast.trans hlow) hpow.le
    rw [hlog]
    omega

/-- The significand is rounded at the last place of the numbers around. -/
theorem exists_shiftToTargetExponent {r : Rat} {m : Nat} {e : Int} {accuracy : Accuracy}
    (hr : 0 < r) (h : Describes m accuracy (r * 2 ^ (-e))) (he : e ≤ unitExponent r)
    (hm : 0 < m ∨ e ≤ -1074) :
    ∃ em, shiftToTargetExponent Format.binary64 m e accuracy = (em, unitExponent r) ∧
      (em.roundedMantissa : Int) = roundHalfEven (r * 2 ^ (-unitExponent r)) := by
  obtain ⟨hlow, hhigh⟩ := h.bounds
  have hshift : ((unitExponent r - e).toNat : Int) = unitExponent r - e :=
    Int.toNat_of_nonneg (by omega)
  refine ⟨ExtendedMantissa.ofMantissaAndAccuracy m accuracy >>> (unitExponent r - e).toNat, ?_, ?_⟩
  · rw [shiftToTargetExponent, targetExponent_eq hr hlow hhigh hm, shiftToExponent]
    congr 1
    omega
  · have hunits : r * 2 ^ (-unitExponent r) =
        r * 2 ^ (-e) / 2 ^ (unitExponent r - e).toNat := by
      rw [div_eq_mul_inv, ← zpow_natCast, ← zpow_neg, mul_assoc, ← two_zpow_add, hshift]
      congr 2
      omega
    rw [hunits]
    exact isRounded_iff.mp ((describes_ofMantissaAndAccuracy h).shiftRight _).isRounded

/-- A rounded significand that is one too long is shifted once more, without loss. -/
theorem shiftToTargetExponent_exact {m : Nat} {q : Int} (hpos : 0 < m) (hq : -1074 ≤ q)
    (hm : m ≤ 2 ^ 53) (hfull : 2 ^ 52 ≤ m ∨ q = -1074) :
    ∃ em p, shiftToTargetExponent Format.binary64 m q .exact = (em, p) ∧
      Representable em.mantissa p ∧
      (p + 1074).toNat * binadeSize + em.mantissa = (q + 1074).toNat * binadeSize + m := by
  have htarget : Format.binary64.targetExponent (totalExponent m q) =
      max ((m.log2 : Int) + 1 + q - 53) (-1074) := rfl
  rw [shiftToTargetExponent, htarget, shiftToExponent]
  rcases Nat.lt_or_eq_of_le hm with hlt | rfl
  · have hlog : m.log2 < 53 := (Nat.log2_lt (Nat.ne_of_gt hpos)).mpr hlt
    have hshift : (max ((m.log2 : Int) + 1 + q - 53) (-1074) - q).toNat = 0 := by omega
    rw [hshift]
    have hplace : q + ((0 : Nat) : Int) = q := Int.add_zero q
    exact ⟨_, _, rfl, hplace.symm ▸ ⟨hpos, hlt, hq, hfull⟩, hplace.symm ▸ rfl⟩
  · have hshift : (max (((2 ^ 53 : Nat).log2 : Int) + 1 + q - 53) (-1074) - q).toNat = 1 := by
      rw [Nat.log2_two_pow]
      omega
    rw [hshift]
    refine ⟨_, _, rfl, ⟨by decide, by decide, by omega, .inl (by decide)⟩, ?_⟩
    show (q + ((1 : Nat) : Int) + 1074).toNat * binadeSize + 2 ^ 52 = _
    rw [show (q + ((1 : Nat) : Int) + 1074).toNat = (q + 1074).toNat + 1 by omega]
    simp only [binadeSize]
    omega

/-- A rounded number has the nearest ordinal. -/
theorem toNat_pack_roundWithAccuracy (s : UnpackedFloat.Sign) {r : Rat} {m : Nat} {e : Int}
    {accuracy : Accuracy} (hr : 0 < r) (h : Describes m accuracy (r * 2 ^ (-e)))
    (he : e ≤ unitExponent r) (hm : 0 < m ∨ e ≤ -1074) :
    (pack Format.binary64 (roundWithAccuracy Format.binary64 s m e accuracy)).toNat =
      s.toBitVec.toNat * signBit + nearestOrdinal r := by
  obtain ⟨em, hfirst, hrounded⟩ := exists_shiftToTargetExponent hr h he hm
  obtain ⟨hnonneg, hle, hfull⟩ := roundHalfEven_scaled_bounds hr
  have hunit : -1074 ≤ unitExponent r := le_max_right _ _
  rw [roundWithAccuracy, hfirst, nearestOrdinal_eq_min hr, unboundedOrdinal, ← hrounded,
    Int.toNat_natCast]
  rw [← hrounded] at hle hfull
  dsimp only
  rcases Nat.eq_zero_or_pos em.roundedMantissa with hzero | hpos
  · have hplace : unitExponent r = -1074 := by omega
    have hsecond : (shiftToTargetExponent Format.binary64 em.roundedMantissa (unitExponent r)
        .exact).1.mantissa = 0 := by
      rw [hzero, hplace]
      decide
    rw [dif_pos hsecond, hzero, hplace, toNat_pack_zero]
    simp
  · obtain ⟨em', p, hsecond, hplace, hordinal⟩ :=
      shiftToTargetExponent_exact hpos hunit (by omega) (by omega)
    rw [hsecond]
    dsimp only
    rw [dif_neg (Nat.ne_of_gt hplace.pos), toNat_pack_finite s hplace, hordinal]

end Reckoner.Binary64
