import Reckoner.Proofs.Binary64.Order

/-!
# The closest number

Rounding to an integer or to a finite number gives one that no other is closer than, the even one of
two that are as close. The numbers around a positive rational are the multiples of one unit; those
below them are closer together, but all are farther away than the least of these multiples.
-/
namespace Reckoner.Binary64

/-- An integer that is at most one half away, and even where another one is as close. -/
structure IsRounded (r : Rat) (n : Int) : Prop where
  near : |r - n| ≤ 1 / 2
  even : |r - n| = 1 / 2 → n % 2 = 0

theorem isRounded_roundHalfEven (r : Rat) : IsRounded r (roundHalfEven r) := by
  have hlow : (r.floor : Rat) ≤ r := Rat.le_floor_iff.mp (le_refl _)
  have hhigh : r < r.floor + 1 := by
    have hlt := Rat.floor_lt_iff.mp (Int.lt_succ r.floor)
    exact_mod_cast hlt
  rw [roundHalfEven]
  generalize r.floor = below at hlow hhigh
  split
  · next hdown =>
    refine ⟨?_, fun htie => ?_⟩
    · rw [abs_of_nonneg (by linarith)]
      exact hdown.le
    · rw [abs_of_nonneg (by linarith)] at htie
      exact absurd htie hdown.ne
  have hexcess : r - ((below + 1 : Int) : Rat) ≤ 0 := by
    push_cast
    linarith
  split
  · next hup =>
    refine ⟨?_, fun htie => ?_⟩
    · rw [abs_of_nonpos hexcess]
      push_cast
      linarith
    · rw [abs_of_nonpos hexcess] at htie
      push_cast at htie
      linarith
  split
  · next heven =>
    refine ⟨?_, fun _ => heven⟩
    rw [abs_of_nonneg (by linarith)]
    linarith
  · next hodd =>
    refine ⟨?_, fun _ => by omega⟩
    rw [abs_of_nonpos hexcess]
    push_cast
    linarith

section IsRounded

variable {r s : Rat} {m n : Int}

theorem IsRounded.neg (h : IsRounded r n) : IsRounded (-r) (-n) := by
  have hdist : |-r - ((-n : Int) : Rat)| = |r - n| := by
    rw [← abs_neg]
    push_cast
    ring_nf
  refine ⟨hdist ▸ h.near, fun htie => ?_⟩
  have := h.even (hdist ▸ htie)
  omega

/-- Rounding keeps the order. Two numbers that it took in the other order would both be halfway
between two neighbours, of which one is odd. -/
theorem IsRounded.le_of_le (hm : IsRounded r m) (hn : IsRounded s n) (h : r ≤ s) : m ≤ n := by
  by_contra hlt
  have hstep : (n : Rat) + 1 ≤ m := by exact_mod_cast not_le.mp hlt
  obtain ⟨hmlow, hmhigh⟩ := abs_le.mp hm.near
  obtain ⟨hnlow, hnhigh⟩ := abs_le.mp hn.near
  have hr : r - m = -(1 / 2) := by linarith
  have hs : s - n = 1 / 2 := by linarith
  have hneighbour : m = n + 1 := by
    have : (m : Rat) = n + 1 := by linarith
    exact_mod_cast this
  have hmeven := hm.even (by rw [hr, abs_neg, abs_of_pos (by norm_num)])
  have hneven := hn.even (by rw [hs, abs_of_pos (by norm_num)])
  omega

theorem IsRounded.unique (hm : IsRounded r m) (hn : IsRounded r n) : m = n :=
  le_antisymm (hm.le_of_le hn le_rfl) (hn.le_of_le hm le_rfl)

theorem isRounded_iff : IsRounded r n ↔ n = roundHalfEven r :=
  ⟨fun h => h.unique (isRounded_roundHalfEven r), fun h => h ▸ isRounded_roundHalfEven r⟩

theorem isRounded_intCast (n : Int) : IsRounded n n := by
  refine ⟨?_, fun htie => ?_⟩
  · rw [sub_self, abs_zero]
    norm_num
  · rw [sub_self, abs_zero] at htie
    norm_num at htie

/-- Two integers are one apart at least. -/
theorem one_le_dist_add_dist (r : Rat) {m n : Int} (h : m ≠ n) : 1 ≤ |r - m| + |r - n| := by
  have hapart : (1 : Rat) ≤ |(m : Rat) - n| := by
    have : (1 : Int) ≤ |m - n| := Int.one_le_abs (sub_ne_zero.mpr h)
    exact_mod_cast this
  have htriangle := abs_sub_le (m : Rat) r n
  rw [abs_sub_comm (m : Rat) r] at htriangle
  exact hapart.trans htriangle

theorem IsRounded.closest (h : IsRounded r n) (k : Int) : |r - n| ≤ |r - k| := by
  by_cases hk : k = n
  · rw [hk]
  · have := one_le_dist_add_dist r hk
    have := h.near
    linarith

theorem IsRounded.even_of_tie (h : IsRounded r n) {k : Int} (hk : k ≠ n)
    (htie : |r - k| = |r - n|) : n % 2 = 0 := by
  refine h.even (le_antisymm h.near ?_)
  have := one_le_dist_add_dist r hk
  linarith

end IsRounded

theorem unscale (r : Rat) (u : Int) : r * 2 ^ (-u) * 2 ^ u = r := by
  rw [mul_assoc, ← two_zpow_add, neg_add_cancel, zpow_zero, mul_one]

/-- Distances to multiples of a unit are distances to integers, in units. -/
theorem abs_sub_mul_unit (r k : Rat) (u : Int) :
    |r - k * 2 ^ u| = |r * 2 ^ (-u) - k| * 2 ^ u := by
  conv_lhs => rw [← unscale r u]
  rw [← sub_mul, abs_mul, abs_of_pos (two_zpow_pos u)]

/-- A significand that is one too long stands for itself as well: it carries. -/
theorem magnitudeAt_add {m : Nat} {q : Int} (hq : -1074 ≤ q) (hm : m ≤ 2 ^ 53)
    (hfull : 2 ^ 52 ≤ m ∨ q = -1074) :
    magnitudeAt ((q + 1074).toNat * binadeSize + m) = (m : Rat) * 2 ^ q := by
  rcases Nat.eq_zero_or_pos m with rfl | hpos
  · obtain rfl := hfull.resolve_left (by decide)
    rw [Nat.cast_zero, zero_mul]
    exact magnitudeAt_zero
  rcases Nat.lt_or_eq_of_le hm with hlt | rfl
  · exact Representable.magnitudeAt_eq ⟨hpos, hlt, hq, hfull⟩
  · have hcarried : Representable (2 ^ 52) (q + 1) :=
      ⟨by decide, by decide, by omega, .inl (le_refl _)⟩
    have hordinal : (q + 1074).toNat * binadeSize + 2 ^ 53 =
        (q + 1 + 1074).toNat * binadeSize + 2 ^ 52 := by
      rw [show (q + 1 + 1074).toNat = (q + 1074).toNat + 1 by omega]
      simp only [binadeSize]
      omega
    rw [hordinal, hcarried.magnitudeAt_eq, two_zpow_add]
    push_cast
    ring

/-- The ordinal of the nearest number as if there were no greatest one. -/
def unboundedOrdinal (r : Rat) : Nat :=
  (unitExponent r + 1074).toNat * binadeSize + (roundHalfEven (r * 2 ^ (-unitExponent r))).toNat

section Unbounded

variable {r : Rat} (hpos : 0 < r)
include hpos

theorem nearestOrdinal_eq_min : nearestOrdinal r = min infinityOrdinal (unboundedOrdinal r) :=
  nearestOrdinal_of_pos hpos

/-- In units of the last place. -/
theorem scaled_bounds :
    r * 2 ^ (-unitExponent r) < 2 ^ 53 ∧
      (2 ^ 52 ≤ r * 2 ^ (-unitExponent r) ∨ unitExponent r = -1074) := by
  have hlow := two_zpow_floorLog2_le hpos
  have hhigh := lt_two_zpow_floorLog2 hpos
  have hle : floorLog2 r - 52 ≤ unitExponent r := le_max_left _ _
  constructor
  · calc r * 2 ^ (-unitExponent r)
        < 2 ^ (floorLog2 r + 1) * 2 ^ (-unitExponent r) :=
          mul_lt_mul_of_pos_right hhigh (two_zpow_pos _)
      _ = 2 ^ (floorLog2 r + 1 + -unitExponent r) := (two_zpow_add _ _).symm
      _ ≤ 2 ^ (53 : Int) := two_zpow_le (by omega)
      _ = 2 ^ 53 := by norm_num
  · by_cases hunit : unitExponent r = -1074
    · exact .inr hunit
    have heq : unitExponent r = floorLog2 r - 52 := by
      rw [unitExponent] at hunit ⊢
      omega
    refine .inl ?_
    calc (2 : Rat) ^ 52 = 2 ^ (52 : Int) := by norm_num
      _ = 2 ^ floorLog2 r * 2 ^ (-unitExponent r) := by
          rw [← two_zpow_add, heq]
          congr 1
          omega
      _ ≤ r * 2 ^ (-unitExponent r) := mul_le_mul_of_nonneg_right hlow (two_zpow_pos _).le

/-- A rounded significand is as long as it may be, or one too long, or in the last place of all. -/
theorem roundHalfEven_scaled_bounds :
    0 ≤ roundHalfEven (r * 2 ^ (-unitExponent r)) ∧
      roundHalfEven (r * 2 ^ (-unitExponent r)) ≤ 2 ^ 53 ∧
      (2 ^ 52 ≤ roundHalfEven (r * 2 ^ (-unitExponent r)) ∨ unitExponent r = -1074) := by
  obtain ⟨hlt, hfull⟩ := scaled_bounds hpos
  have hround := isRounded_roundHalfEven (r * 2 ^ (-unitExponent r))
  refine ⟨?_, ?_, hfull.imp_left fun h => ?_⟩
  · refine le_roundHalfEven ?_
    rw [Int.cast_zero]
    exact (mul_pos hpos (two_zpow_pos _)).le
  · refine hround.le_of_le (isRounded_intCast (2 ^ 53)) ?_
    push_cast
    exact hlt.le
  · refine le_roundHalfEven ?_
    push_cast
    exact h

/-- Places below the last one are not needed: the rounded significand may carry, and it is the
exact value of the ordinal. -/
theorem magnitudeAt_unboundedOrdinal :
    magnitudeAt (unboundedOrdinal r) =
      (roundHalfEven (r * 2 ^ (-unitExponent r)) : Int) * 2 ^ unitExponent r := by
  obtain ⟨hnonneg, hle, hge⟩ := roundHalfEven_scaled_bounds hpos
  have hunit : -1074 ≤ unitExponent r := le_max_right _ _
  rw [unboundedOrdinal]
  generalize roundHalfEven (r * 2 ^ (-unitExponent r)) = s at hnonneg hle hge ⊢
  obtain ⟨m, rfl⟩ := Int.eq_ofNat_of_zero_le hnonneg
  rw [Int.toNat_natCast, Int.cast_natCast]
  exact magnitudeAt_add hunit (by omega) (by omega)

theorem abs_sub_unbounded_le_grid (k : Int) :
    |r - magnitudeAt (unboundedOrdinal r)| ≤ |r - k * 2 ^ unitExponent r| := by
  rw [magnitudeAt_unboundedOrdinal hpos, abs_sub_mul_unit, abs_sub_mul_unit]
  exact mul_le_mul_of_nonneg_right ((isRounded_roundHalfEven _).closest k) (two_zpow_pos _).le

/-- Any other number is a multiple of the unit, or so small that it is farther away. -/
theorem grid_or_farther (n : Nat) :
    (∃ k : Int, magnitudeAt n = k * 2 ^ unitExponent r) ∨
      |r - magnitudeAt (unboundedOrdinal r)| < |r - magnitudeAt n| := by
  rcases Nat.eq_zero_or_pos n with rfl | hn
  · exact .inl ⟨0, by rw [magnitudeAt_zero, Int.cast_zero, zero_mul]⟩
  obtain ⟨m, q, hm, rfl⟩ := exists_representable hn
  rw [hm.magnitudeAt_eq]
  by_cases hq : unitExponent r ≤ q
  · refine .inl ⟨m * 2 ^ (q - unitExponent r).toNat, ?_⟩
    push_cast
    rw [mul_assoc, ← zpow_natCast, Int.toNat_of_nonneg (by omega), ← two_zpow_add]
    congr 2
    omega
  · have hle := hm.le
    obtain hfull := (scaled_bounds hpos).2.resolve_right (by omega)
    have hbinade := mul_le_mul_of_nonneg_right hfull (two_zpow_pos (unitExponent r)).le
    rw [unscale] at hbinade
    have hbelow := (hm.mul_lt q).trans_le (binade_le_binade (show q < unitExponent r by omega))
    have hgrid := abs_sub_unbounded_le_grid hpos (2 ^ 52)
    push_cast at hgrid
    refine .inr (hgrid.trans_lt ?_)
    rw [abs_of_nonneg (by linarith), abs_of_nonneg (by linarith)]
    linarith

theorem abs_sub_unbounded_le (n : Nat) :
    |r - magnitudeAt (unboundedOrdinal r)| ≤ |r - magnitudeAt n| := by
  rcases grid_or_farther hpos n with ⟨k, hk⟩ | hfarther
  · rw [hk]
    exact abs_sub_unbounded_le_grid hpos k
  · exact hfarther.le

theorem unboundedOrdinal_even_of_tie {n : Nat} (hn : n ≠ unboundedOrdinal r)
    (htie : |r - magnitudeAt n| = |r - magnitudeAt (unboundedOrdinal r)|) :
    unboundedOrdinal r % 2 = 0 := by
  obtain ⟨k, hk⟩ := (grid_or_farther hpos n).resolve_right (by rw [htie]; exact lt_irrefl _)
  have hunit := two_zpow_pos (unitExponent r)
  have hexact := magnitudeAt_unboundedOrdinal hpos
  have hne : k ≠ roundHalfEven (r * 2 ^ (-unitExponent r)) := by
    rintro rfl
    exact hn (magnitudeAt_strictMono.injective (hk.trans hexact.symm))
  rw [hk, hexact, abs_sub_mul_unit, abs_sub_mul_unit] at htie
  have heven := (isRounded_roundHalfEven _).even_of_tie hne (mul_right_cancel₀ hunit.ne' htie)
  rw [unboundedOrdinal]
  simp only [binadeSize]
  omega

end Unbounded

/-- A finite number that no other is closer to the rational than, with an even significand where
another one is as close. -/
structure IsNearest (r : Rat) (x : Float) : Prop where
  finite : x.isFinite = true
  closest : ∀ y : Float, y.isFinite = true → |r - value x| ≤ |r - value y|
  even : ∀ y : Float, y.isFinite = true → value y ≠ value x → |r - value y| = |r - value x| →
    ordinal x % 2 = 0

theorem IsNearest.neg {r : Rat} {x : Float} (h : IsNearest r x) : IsNearest (-r) (-x) := by
  have hx := isNaN_of_isFinite h.finite
  have hdist : ∀ y : Float, y.isFinite = true → |-r - value y| = |r - value (-y)| := by
    intro y hy
    rw [value_neg (isNaN_of_isFinite hy), ← abs_neg]
    ring_nf
  have hself : |-r - value (-x)| = |r - value x| := by
    rw [value_neg hx, ← abs_neg]
    ring_nf
  refine ⟨isFinite_neg h.finite, fun y hy => ?_, fun y hy hne htie => ?_⟩
  · rw [hself, hdist y hy]
    exact h.closest (-y) (isFinite_neg hy)
  · rw [hself, hdist y hy] at htie
    rw [ordinal_neg hx]
    refine h.even (-y) (isFinite_neg hy) (fun heq => hne ?_) htie
    rw [value_neg hx, ← heq, value_neg (isNaN_of_isFinite hy), neg_neg]

section Nearest

variable {r : Rat}

theorem nearestOrdinal_lt {n : Nat}
    (h : |r - magnitudeAt n| < magnitudeAt infinityOrdinal - r) :
    nearestOrdinal r < infinityOrdinal := by
  by_cases hpos : 0 < r
  · rw [nearestOrdinal_eq_min hpos]
    refine Nat.lt_of_le_of_lt (Nat.min_le_right _ _) (Nat.lt_of_not_le fun hle => ?_)
    have hgreat := magnitudeAt_le_magnitudeAt_iff.mpr hle
    have hclosest := abs_sub_unbounded_le hpos n
    have hdist := neg_le_abs (r - magnitudeAt (unboundedOrdinal r))
    linarith
  · rw [nearestOrdinal, if_pos (not_lt.mp hpos)]
    decide

theorem value_nearest (r : Rat) : value (nearest r) = magnitudeAt (nearestOrdinal r) := by
  rw [value, isNegative_nearest, magnitude, ordinal_nearest]
  rfl

/-- Beyond zero, a number is not closer than its opposite. -/
theorem abs_sub_magnitude_le (hr : 0 ≤ r) (y : Float) : |r - magnitude y| ≤ |r - value y| := by
  have hy := magnitudeAt_nonneg (ordinal y)
  rw [value, magnitude]
  split
  · rw [abs_of_nonneg (show 0 ≤ r - -magnitudeAt (ordinal y) by linarith)]
    exact abs_le.mpr ⟨by linarith, by linarith⟩
  · exact le_refl _

/-- The nearest ordinal is that of the nearest number. No negative number is as close, since zero is
closer. -/
theorem isNearest_nearest (hr : 0 ≤ r) (h : nearestOrdinal r < infinityOrdinal) :
    IsNearest r (nearest r) := by
  have hfinite : (nearest r).isFinite = true := by
    rw [isFinite_iff, ordinal_nearest]
    exact h
  rcases hr.eq_or_lt with rfl | hpos
  · refine ⟨hfinite, fun y _ => ?_, fun _ _ _ _ => ?_⟩
    · rw [value_nearest, nearestOrdinal_zero, magnitudeAt_zero, sub_self, abs_zero]
      exact abs_nonneg _
    · rw [ordinal_nearest, nearestOrdinal_zero]
  have hunbounded : nearestOrdinal r = unboundedOrdinal r := by
    rw [nearestOrdinal_eq_min hpos] at h ⊢
    omega
  refine ⟨hfinite, fun y _ => ?_, fun y _ hne htie => ?_⟩
  · rw [value_nearest, hunbounded]
    exact (abs_sub_unbounded_le hpos (ordinal y)).trans (abs_sub_magnitude_le hr y)
  · rw [value_nearest, hunbounded] at hne htie
    rw [ordinal_nearest, hunbounded]
    obtain ⟨n, hn⟩ : ∃ n, value y = magnitudeAt n := by
      have hy := magnitudeAt_nonneg (ordinal y)
      rw [value, magnitude] at htie ⊢
      split at htie
      · next hnegative =>
        have hzero := abs_sub_unbounded_le hpos 0
        rw [magnitudeAt_zero, sub_zero, abs_of_pos hpos, ← htie, abs_of_pos (by linarith)] at hzero
        refine ⟨0, ?_⟩
        rw [if_pos hnegative, magnitudeAt_zero]
        linarith
      · next hpositive => exact ⟨ordinal y, if_neg hpositive⟩
    rw [hn] at hne htie
    exact unboundedOrdinal_even_of_tie hpos (fun h => hne (h ▸ rfl)) htie

end Nearest
end Reckoner.Binary64
