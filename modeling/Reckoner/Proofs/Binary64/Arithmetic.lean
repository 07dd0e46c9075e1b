import Mathlib.Tactic.FieldSimp
import Reckoner.Proofs.Binary64.Rounding

/-!
# Products, quotients and whole numbers

The product and the quotient of two finite numbers without a sign, and the number of a whole number,
are the numbers nearest to the exact results.
-/
namespace Reckoner.Binary64

open Float.Model (Format UnpackedFloat totalExponent)
open Float.Model.UnpackedFloat

/-- A quotient of whole numbers is its integer part with a rest. -/
theorem describes_quotient (n : Nat) {d : Nat} (hd : 0 < d) :
    Describes (n / d) (accuracyOfFraction (n % d) d) ((n : Rat) / d) := by
  have hpos : (0 : Rat) < d := by exact_mod_cast hd
  have hsplit : (n : Rat) / d = (n / d : Nat) + ((n % d : Nat) : Rat) / d := by
    rw [div_eq_iff hpos.ne', add_mul, div_mul_cancel₀ _ hpos.ne']
    exact_mod_cast (Nat.div_add_mod' n d).symm
  have hlt : ((n % d : Nat) : Rat) < d := by exact_mod_cast Nat.mod_lt n hd
  rw [accuracyOfFraction]
  split
  · next hzero =>
    rw [hsplit, hzero, Nat.cast_zero, zero_div, add_zero]
    rfl
  next hrest =>
  have hrestpos : (0 : Rat) < (n % d : Nat) := by exact_mod_cast Nat.pos_of_ne_zero hrest
  have hratio : ((n % d : Nat) : Rat) / d < 1 := (div_lt_one hpos).mpr hlt
  have hratiopos : 0 < ((n % d : Nat) : Rat) / d := div_pos hrestpos hpos
  have hdouble : ((2 * (n % d) : Nat) : Rat) = 2 * (n % d : Nat) := by push_cast; rfl
  rw [hsplit]
  rcases hcompare : compare (2 * (n % d)) d with _ | _ | _
  · have hhalf : ((2 * (n % d) : Nat) : Rat) < d := by
      exact_mod_cast Nat.compare_eq_lt.mp hcompare
    have : ((n % d : Nat) : Rat) / d < 1 / 2 := by
      rw [div_lt_div_iff₀ hpos (by norm_num)]
      linarith
    exact ⟨by linarith, by linarith⟩
  · have hhalf : ((2 * (n % d) : Nat) : Rat) = d := by
      exact_mod_cast Nat.compare_eq_eq.mp hcompare
    have : ((n % d : Nat) : Rat) / d = 1 / 2 := by
      rw [div_eq_div_iff hpos.ne' (by norm_num)]
      linarith
    rw [this]
    rfl
  · have hhalf : (d : Rat) < (2 * (n % d) : Nat) := by
      exact_mod_cast Nat.compare_eq_gt.mp hcompare
    have : 1 / 2 < ((n % d : Nat) : Rat) / d := by
      rw [div_lt_div_iff₀ (by norm_num) hpos]
      linarith
    exact ⟨by linarith, by linarith⟩

theorem log2_bounds {m : Nat} (h : 0 < m) :
    (2 : Rat) ^ (m.log2 : Int) ≤ m ∧ (m : Rat) < 2 ^ ((m.log2 : Int) + 1) :=
  ⟨two_zpow_log2_le (Nat.ne_of_gt h), lt_two_zpow_log2 m⟩

section Operands

variable {m₁ m₂ : Nat} {q₁ q₂ : Int}

theorem le_floorLog2_quotient (h₁ : 0 < m₁) (h₂ : 0 < m₂) :
    totalExponent m₁ q₁ - totalExponent m₂ q₂ - 1 ≤
      floorLog2 ((m₁ * 2 ^ q₁ : Rat) / (m₂ * 2 ^ q₂)) := by
  obtain ⟨hlow, -⟩ := log2_bounds h₁
  obtain ⟨-, hhigh⟩ := log2_bounds h₂
  have hpos : (0 : Rat) < m₂ * 2 ^ q₂ := mul_pos (by exact_mod_cast h₂) (two_zpow_pos q₂)
  refine le_floorLog2 ((le_div_iff₀ hpos).mpr ?_)
  calc (2 : Rat) ^ (totalExponent m₁ q₁ - totalExponent m₂ q₂ - 1) * (m₂ * 2 ^ q₂)
      ≤ 2 ^ (totalExponent m₁ q₁ - totalExponent m₂ q₂ - 1) * (2 ^ ((m₂.log2 : Int) + 1) * 2 ^ q₂) :=
        mul_le_mul_of_nonneg_left (mul_le_mul_of_nonneg_right hhigh.le (two_zpow_pos _).le)
          (two_zpow_pos _).le
    _ = 2 ^ (m₁.log2 : Int) * 2 ^ q₁ := by
        rw [← two_zpow_add, ← two_zpow_add, ← two_zpow_add, totalExponent, totalExponent]
        congr 1
        omega
    _ ≤ m₁ * 2 ^ q₁ := mul_le_mul_of_nonneg_right hlow (two_zpow_pos _).le

theorem le_floorLog2_product (h₁ : 0 < m₁) (h₂ : 0 < m₂) :
    (m₁.log2 : Int) + m₂.log2 + (q₁ + q₂) ≤ floorLog2 ((m₁ * 2 ^ q₁ : Rat) * (m₂ * 2 ^ q₂)) := by
  obtain ⟨hlow₁, -⟩ := log2_bounds h₁
  obtain ⟨hlow₂, -⟩ := log2_bounds h₂
  refine le_floorLog2 ?_
  rw [two_zpow_add, two_zpow_add, two_zpow_add, mul_mul_mul_comm]
  gcongr

end Operands

theorem toNat_pack_mul_finite (s₁ s₂ : UnpackedFloat.Sign) {m₁ m₂ : Nat} {q₁ q₂ : Int}
    (h₁ : Representable m₁ q₁) (h₂ : Representable m₂ q₂) :
    (pack Format.binary64 (UnpackedFloat.mul Format.binary64 (.finite s₁ m₁ q₁ h₁.pos)
        (.finite s₂ m₂ q₂ h₂.pos))).toNat =
      (s₁ * s₂).toBitVec.toNat * signBit + nearestOrdinal ((m₁ * 2 ^ q₁ : Rat) * (m₂ * 2 ^ q₂)) := by
  have hpos₁ : (0 : Rat) < m₁ := by exact_mod_cast h₁.pos
  have hpos₂ : (0 : Rat) < m₂ := by exact_mod_cast h₂.pos
  have hlog : (m₁.log2 : Int) + m₂.log2 + (q₁ + q₂) ≤
      floorLog2 ((m₁ * 2 ^ q₁ : Rat) * (m₂ * 2 ^ q₂)) := le_floorLog2_product h₁.pos h₂.pos
  have hfull₁ : 52 ≤ m₁.log2 ∨ q₁ = -1074 := h₁.full.imp_left fun h =>
    (Nat.le_log2 (Nat.ne_of_gt h₁.pos)).mpr h
  have hfull₂ : 52 ≤ m₂.log2 ∨ q₂ = -1074 := h₂.full.imp_left fun h =>
    (Nat.le_log2 (Nat.ne_of_gt h₂.pos)).mpr h
  have hle₁ := h₁.le
  have hle₂ := h₂.le
  refine toNat_pack_roundWithAccuracy (s₁ * s₂)
    (mul_pos (mul_pos hpos₁ (two_zpow_pos _)) (mul_pos hpos₂ (two_zpow_pos _))) ?_ ?_
    (.inl (Nat.mul_pos h₁.pos h₂.pos))
  · show (m₁ * 2 ^ q₁ : Rat) * (m₂ * 2 ^ q₂) * 2 ^ (-(q₁ + q₂)) = ((m₁ * m₂ : Nat) : Rat)
    rw [mul_mul_mul_comm, ← two_zpow_add, mul_assoc, ← two_zpow_add, add_neg_cancel, zpow_zero,
      mul_one, Nat.cast_mul]
  · rw [unitExponent]
    omega

/-- The quotient of two finite numbers is rounded once: unless its place is the last of all, it has
all the digits that rounding looks at. -/
theorem toNat_pack_div_finite (s₁ s₂ : UnpackedFloat.Sign) {m₁ m₂ : Nat} {q₁ q₂ : Int}
    (h₁ : Representable m₁ q₁) (h₂ : Representable m₂ q₂) :
    (pack Format.binary64 (UnpackedFloat.div Format.binary64 (.finite s₁ m₁ q₁ h₁.pos)
        (.finite s₂ m₂ q₂ h₂.pos))).toNat =
      (s₁ / s₂).toBitVec.toNat * signBit + nearestOrdinal ((m₁ * 2 ^ q₁ : Rat) / (m₂ * 2 ^ q₂)) := by
  have hpos₁ : (0 : Rat) < m₁ := by exact_mod_cast h₁.pos
  have hpos₂ : (0 : Rat) < m₂ := by exact_mod_cast h₂.pos
  have hlog : totalExponent m₁ q₁ - totalExponent m₂ q₂ - 1 ≤
      floorLog2 ((m₁ * 2 ^ q₁ : Rat) / (m₂ * 2 ^ q₂)) := le_floorLog2_quotient h₁.pos h₂.pos
  obtain ⟨place, hplace⟩ : ∃ place, min (q₁ - q₂)
      (max (totalExponent m₁ q₁ - totalExponent m₂ q₂ - 53) (-1074)) = place := ⟨_, rfl⟩
  have hdiv : UnpackedFloat.div Format.binary64 (.finite s₁ m₁ q₁ h₁.pos)
      (.finite s₂ m₂ q₂ h₂.pos) =
        roundWithAccuracy Format.binary64 (s₁ / s₂) (m₁ <<< (q₁ - q₂ - place).toNat / m₂) place
          (accuracyOfFraction (m₁ <<< (q₁ - q₂ - place).toNat % m₂) m₂) := by
    rw [← hplace]
    rfl
  rw [hdiv]
  have hshift : ((q₁ - q₂ - place).toNat : Int) = q₁ - q₂ - place :=
    Int.toNat_of_nonneg (by omega)
  have hnumerator : ((m₁ <<< (q₁ - q₂ - place).toNat : Nat) : Rat) =
      m₁ * 2 ^ (q₁ - q₂ - place) := by
    rw [Nat.shiftLeft_eq, ← hshift, zpow_natCast]
    push_cast
    rfl
  refine toNat_pack_roundWithAccuracy (s₁ / s₂)
    (div_pos (mul_pos hpos₁ (two_zpow_pos _)) (mul_pos hpos₂ (two_zpow_pos _))) ?_ ?_ ?_
  · have hunits : (m₁ * 2 ^ q₁ : Rat) / (m₂ * 2 ^ q₂) * 2 ^ (-place) =
        ((m₁ <<< (q₁ - q₂ - place).toNat : Nat) : Rat) / m₂ := by
      rw [hnumerator, zpow_neg, zpow_sub₀ two_ne_zero, zpow_sub₀ two_ne_zero]
      field_simp
    rw [hunits]
    exact describes_quotient _ h₂.pos
  · rw [unitExponent]
    omega
  · refine (Int.lt_or_le (-1074) place).imp (fun hlt => ?_) id
    have hle : (m₂.log2 : Int) + 1 ≤ m₁.log2 + (q₁ - q₂ - place).toNat := by
      rw [hshift]
      simp only [totalExponent] at hplace
      omega
    refine Nat.div_pos (Nat.le_of_lt ?_) h₂.pos
    calc m₂ < 2 ^ (m₂.log2 + 1) := (two_pow_le_of_log2 h₂.pos).2
      _ ≤ 2 ^ (m₁.log2 + (q₁ - q₂ - place).toNat) := Nat.pow_le_pow_right (by decide) (by omega)
      _ ≤ m₁ <<< (q₁ - q₂ - place).toNat := by
        rw [Nat.shiftLeft_eq, Nat.pow_add]
        exact Nat.mul_le_mul_right _ (two_pow_le_of_log2 h₁.pos).1

/-- A finite number without a sign. -/
structure Unsigned (x : Float) : Prop where
  finite : x.isFinite = true
  positive : isNegative x = false

section Unsigned

variable {x y : Float}

theorem Unsigned.ordinal_lt (h : Unsigned x) : ordinal x < infinityOrdinal :=
  (isFinite_iff x).mp h.finite

theorem Unsigned.signOf_eq (h : Unsigned x) : signOf x = .positive := by
  rw [signOf, h.positive]
  rfl

theorem Unsigned.value_eq (h : Unsigned x) : value x = magnitude x := by
  rw [value, h.positive]
  rfl

/-- A number without a sign is zero or a significand in its place. -/
theorem Unsigned.cases (h : Unsigned x) :
    (x.toModel.unpack = .zero .positive ∧ magnitude x = 0) ∨
      ∃ m q, ∃ hm : Representable m q, x.toModel.unpack = .finite .positive m q hm.pos ∧
        magnitude x = m * 2 ^ q := by
  rcases Nat.eq_zero_or_pos (ordinal x) with hzero | hpos
  · refine .inl ⟨h.signOf_eq ▸ unpack_of_ordinal_eq_zero hzero, ?_⟩
    rw [magnitude, hzero, magnitudeAt_zero]
  · obtain ⟨m, q, hm, hordinal⟩ := exists_representable hpos
    refine .inr ⟨m, q, hm, h.signOf_eq ▸ unpack_of_representable hm hordinal h.ordinal_lt, ?_⟩
    rw [magnitude, hordinal, hm.magnitudeAt_eq]

theorem ofModel_pack_eq_nearest {u : UnpackedFloat} {r : Rat}
    (h : (pack Format.binary64 u).toNat = nearestOrdinal r) :
    Float.ofModel (Float.Model.pack u) = nearest r := by
  have hbits : (Float.ofModel (Float.Model.pack u)).toBits.toNat = nearestOrdinal r := h
  have hle := nearestOrdinal_le r
  refine ext_of_ordinal ?_ ?_
  · rw [isNegative_nearest, isNegative, hbits]
    refine decide_eq_false (Nat.not_le.mpr (Nat.lt_of_le_of_lt hle ?_))
    decide
  · rw [ordinal_nearest, ordinal, hbits]
    simp only [infinityOrdinal, signBit] at hle ⊢
    omega

theorem mul_eq_nearest (hx : Unsigned x) (hy : Unsigned y) :
    x * y = nearest (magnitude x * magnitude y) := by
  show Float.ofModel (Float.Model.pack
    (UnpackedFloat.mul Format.binary64 x.toModel.unpack y.toModel.unpack)) = _
  refine ofModel_pack_eq_nearest ?_
  rcases hx.cases with ⟨hux, hmx⟩ | ⟨m₁, q₁, h₁, hux, hmx⟩ <;>
    rcases hy.cases with ⟨huy, hmy⟩ | ⟨m₂, q₂, h₂, huy, hmy⟩ <;> rw [hux, huy, hmx, hmy]
  · rw [mul_zero, nearestOrdinal_zero]
    exact toNat_pack_zero _
  · rw [zero_mul, nearestOrdinal_zero]
    exact toNat_pack_zero _
  · rw [mul_zero, nearestOrdinal_zero]
    exact toNat_pack_zero _
  · exact (toNat_pack_mul_finite _ _ h₁ h₂).trans (Nat.zero_add _)

theorem div_eq_nearest (hx : Unsigned x) (hy : Unsigned y) (hpos : 0 < magnitude y) :
    x / y = nearest (magnitude x / magnitude y) := by
  show Float.ofModel (Float.Model.pack
    (UnpackedFloat.div Format.binary64 x.toModel.unpack y.toModel.unpack)) = _
  refine ofModel_pack_eq_nearest ?_
  obtain ⟨m₂, q₂, h₂, huy, hmy⟩ := hy.cases.resolve_left fun h => hpos.ne' h.2
  rcases hx.cases with ⟨hux, hmx⟩ | ⟨m₁, q₁, h₁, hux, hmx⟩ <;> rw [hux, huy, hmx, hmy]
  · rw [zero_div, nearestOrdinal_zero]
    exact toNat_pack_zero _
  · exact (toNat_pack_div_finite _ _ h₁ h₂).trans (Nat.zero_add _)

theorem unsigned_nearest {r : Rat} (h : nearestOrdinal r < infinityOrdinal) :
    Unsigned (nearest r) :=
  ⟨(isFinite_iff _).mpr ((ordinal_nearest r).symm ▸ h), isNegative_nearest r⟩

/-- A product of finite numbers is finite or infinite. -/
theorem Unsigned.mul (hx : Unsigned x) (hy : Unsigned y) (h : (x * y).isInf = false) :
    Unsigned (x * y) := by
  rw [← Bool.not_eq_true, isInf_iff, mul_eq_nearest hx hy, ordinal_nearest] at h
  rw [mul_eq_nearest hx hy]
  exact unsigned_nearest (Nat.lt_of_le_of_ne (nearestOrdinal_le _) h)

/-- A quotient is finite unless the divisor is below one. -/
theorem Unsigned.div (hx : Unsigned x) (hy : Unsigned y) (h : 1 ≤ magnitude y) :
    Unsigned (x / y) := by
  have hpos : 0 < magnitude y := lt_of_lt_of_le one_pos h
  have hle : magnitude x / magnitude y ≤ magnitude x := div_le_self (magnitudeAt_nonneg _) h
  have hlt : magnitude x < magnitudeAt infinityOrdinal := magnitudeAt_strictMono hx.ordinal_lt
  rw [div_eq_nearest hx hy hpos]
  refine unsigned_nearest (nearestOrdinal_lt (n := ordinal x) ?_)
  show |_ - magnitude x| < _
  rw [abs_of_nonpos (by linarith)]
  linarith

end Unsigned

theorem toNat_pack_round {n : Nat} (h : 0 < n) :
    (pack Format.binary64 (UnpackedFloat.round Format.binary64 .positive n 0)).toNat =
      nearestOrdinal n := by
  have hpos : (0 : Rat) < n := by exact_mod_cast h
  have htarget : Format.binary64.targetExponent (totalExponent n 0) = unitExponent (n : Rat) :=
    targetExponent_eq hpos (by simp) (by simp) (.inl h)
  rw [UnpackedFloat.round, htarget, decreaseExponent]
  refine (toNat_pack_roundWithAccuracy .positive hpos ?_ (by omega) (.inl ?_)).trans
    (Nat.zero_add _)
  · show (n : Rat) * 2 ^ (-(0 - ((0 - unitExponent n).toNat : Int))) =
      ((n <<< (0 - unitExponent n).toNat : Nat) : Rat)
    rw [zero_sub, neg_neg, zpow_natCast, Nat.shiftLeft_eq, zero_sub]
    push_cast
    rfl
  · rw [Nat.shiftLeft_eq]
    exact Nat.mul_pos h (Nat.two_pow_pos _)

theorem toFloat_eq_nearest (n : UInt64) : n.toFloat = nearest n.toNat := by
  show Float.ofModel (Float.Model.pack (UnpackedFloat.ofNat Format.binary64 n.toNat)) = _
  refine ofModel_pack_eq_nearest ?_
  generalize n.toNat = n
  rcases Nat.eq_zero_or_pos n with rfl | hpos
  · rw [Nat.cast_zero, nearestOrdinal_zero]
    exact toNat_pack_zero .positive
  · have hcompare : compare (n : Int) 0 = .gt := Int.compare_eq_gt.mpr (by exact_mod_cast hpos)
    rw [UnpackedFloat.ofNat, UnpackedFloat.ofInt, Float.Model.UnpackedFloat.normalize, hcompare]
    exact toNat_pack_round hpos

end Reckoner.Binary64
