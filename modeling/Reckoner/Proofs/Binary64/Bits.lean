import Mathlib.Algebra.Order.Ring.Nat
import Reckoner.Binary64

/-!
# Numbers and their bits

Core describes a double-precision number by its bits and by an unpacked form, and every operation on
numbers goes through the unpacked form. Here both are read through the sign and the ordinal: these
two determine a number, they tell whether it is finite, and a number made from them has them.
-/
namespace Reckoner.Binary64

open Float.Model (Format UnpackedFloat)
open Float.Model.UnpackedFloat

theorem toNat_packComponents (s : UnpackedFloat.Sign) (e : BitVec 11) (m : BitVec 52) :
    (packComponents Format.binary64 s e m).toNat =
      s.toBitVec.toNat * signBit + e.toNat * binadeSize + m.toNat := by
  show (s.toBitVec ++ e ++ m).toNat = _
  rw [BitVec.toNat_append, ← Nat.shiftLeft_add_eq_or_of_lt m.isLt, BitVec.toNat_append,
    ← Nat.shiftLeft_add_eq_or_of_lt e.isLt, Nat.shiftLeft_eq, Nat.shiftLeft_eq]
  simp only [signBit, binadeSize]
  omega

/-- The exponent is biased when it is packed, or zero with a significand of fewer than 53 bits. -/
theorem pack_finite (s : UnpackedFloat.Sign) (m : Nat) (e : Int) (h : 0 < m) :
    pack Format.binary64 (.finite s m e h) =
      if 2048 ≤ (e + 1023 + 52).toNat + 1 then packedInfinity Format.binary64 s
      else if m.log2 + 1 = 53 then
        packComponents Format.binary64 s (BitVec.ofNat 11 (e + 1023 + 52).toNat) (BitVec.ofNat 52 m)
      else packComponents Format.binary64 s 0#11 (BitVec.ofNat 52 m) := rfl

section Parts

variable (b : BitVec Format.binary64.numBits)

theorem toNat_unpackMantissa : (unpackMantissa b).toNat = b.toNat % binadeSize := by
  simp [unpackMantissa, binadeSize]

theorem toNat_unpackExponent : (unpackExponent b).toNat = b.toNat / binadeSize % 2048 := by
  simp [unpackExponent, binadeSize, Nat.shiftRight_eq_div_pow]

theorem toNat_unpackSign : (unpackSign b).toNat = b.toNat / signBit := by
  have hlt : b.toNat < 2 ^ 64 := b.isLt
  show (b.extractLsb 63 63).toNat = _
  rw [BitVec.extractLsb_toNat, Nat.shiftRight_eq_div_pow]
  simp only [signBit]
  omega

theorem toNat_toBitVec_ofBitVec (s : BitVec 1) :
    (UnpackedFloat.Sign.ofBitVec s).toBitVec.toNat = s.toNat := by
  have h : s = 0#1 ∨ s = 1#1 := by
    have hlt := s.isLt
    rcases (by omega : s.toNat = 0 ∨ s.toNat = 1) with hs | hs
    · exact .inl (BitVec.eq_of_toNat_eq hs)
    · exact .inr (BitVec.eq_of_toNat_eq hs)
  rcases h with rfl | rfl <;> rfl

/-- A bit pattern is made of its parts. -/
theorem packComponents_parts :
    packComponents Format.binary64 (UnpackedFloat.Sign.ofBitVec (unpackSign b)) (unpackExponent b)
      (unpackMantissa b) = b := by
  refine BitVec.eq_of_toNat_eq ?_
  rw [toNat_packComponents, toNat_toBitVec_ofBitVec, toNat_unpackSign, toNat_unpackExponent,
    toNat_unpackMantissa]
  simp only [signBit, binadeSize]
  omega

/-- The pattern whose exponent is all ones stands for infinity or for no number. -/
theorem exponent_eq_allOnes_iff : unpackExponent b = -1#_ ↔ b.toNat / binadeSize % 2048 = 2047 := by
  rw [← BitVec.toNat_inj, toNat_unpackExponent]
  rfl

theorem exponent_eq_zero_iff : unpackExponent b = 0#_ ↔ b.toNat / binadeSize % 2048 = 0 := by
  rw [← BitVec.toNat_inj, toNat_unpackExponent]
  rfl

theorem mantissa_eq_zero_iff : unpackMantissa b = 0#_ ↔ b.toNat % binadeSize = 0 := by
  rw [← BitVec.toNat_inj, toNat_unpackMantissa]
  rfl

end Parts

section Pack

variable {b : BitVec Format.binary64.numBits}

theorem unpack_eq_infinity (hexponent : unpackExponent b = -1#_)
    (hmantissa : unpackMantissa b = 0#_) :
    unpack Format.binary64 b = .infinity (UnpackedFloat.Sign.ofBitVec (unpackSign b)) :=
  (if_pos hexponent).trans (if_pos hmantissa)

theorem unpack_eq_notANumber (hexponent : unpackExponent b = -1#_)
    (hmantissa : unpackMantissa b ≠ 0#_) : unpack Format.binary64 b = .notANumber :=
  (if_pos hexponent).trans (if_neg hmantissa)

theorem exponent_ne_allOnes (hexponent : unpackExponent b = 0#_) : unpackExponent b ≠ -1#_ := by
  rw [hexponent]
  decide

theorem unpack_eq_zero (hexponent : unpackExponent b = 0#_) (hmantissa : unpackMantissa b = 0#_) :
    unpack Format.binary64 b = .zero (UnpackedFloat.Sign.ofBitVec (unpackSign b)) :=
  (if_neg (exponent_ne_allOnes hexponent)).trans ((if_pos hexponent).trans (dif_pos hmantissa))

theorem unpack_eq_subnormal {m : Nat} {e : Int} (hexponent : unpackExponent b = 0#_)
    (hm : (unpackMantissa b).toNat = m) (he : -1074 = e) (hpos : 0 < m) :
    unpack Format.binary64 b =
      .finite (UnpackedFloat.Sign.ofBitVec (unpackSign b)) m e hpos := by
  subst hm he
  have hmantissa : unpackMantissa b ≠ 0#_ := fun h => absurd hpos (by rw [h]; decide)
  have hplace : ((unpackExponent b).toNat : Int) - (1023 + 52) + 1 = -1074 := by
    rw [hexponent]
    rfl
  refine (if_neg (exponent_ne_allOnes hexponent)).trans
    ((if_pos hexponent).trans ((dif_neg hmantissa).trans ?_))
  congr 1

theorem unpack_eq_normal {m : Nat} {e : Int} (hones : unpackExponent b ≠ -1#_)
    (hzero : unpackExponent b ≠ 0#_) (hm : (1#1 ++ unpackMantissa b).toNat = m)
    (he : ((unpackExponent b).toNat : Int) - (1023 + 52) = e) (hpos : 0 < m) :
    unpack Format.binary64 b =
      .finite (UnpackedFloat.Sign.ofBitVec (unpackSign b)) m e hpos := by
  subst hm he
  exact (if_neg hones).trans (if_neg hzero)

theorem pack_unpack_of_subnormal (hexponent : unpackExponent b = 0#_)
    (hmantissa : unpackMantissa b ≠ 0#_) : pack Format.binary64 (unpack Format.binary64 b) = b := by
  have hparts := packComponents_parts b
  have hlt : (unpackMantissa b).toNat < 2 ^ 52 := (unpackMantissa b).isLt
  have hpos : (unpackMantissa b).toNat ≠ 0 := fun h => hmantissa (BitVec.eq_of_toNat_eq h)
  have hlog : (unpackMantissa b).toNat.log2 < 52 := (Nat.log2_lt hpos).mpr hlt
  rw [unpack_eq_subnormal hexponent rfl rfl (Nat.pos_of_ne_zero hpos), pack_finite,
    if_neg (by decide), if_neg (by omega)]
  rw [hexponent] at hparts
  rwa [BitVec.ofNat_toNat, BitVec.setWidth_eq]

theorem toNat_implicit_append (m : BitVec 52) : (1#1 ++ m).toNat = 2 ^ 52 + m.toNat := by
  rw [BitVec.toNat_append, ← Nat.shiftLeft_add_eq_or_of_lt m.isLt]
  rfl

theorem pack_unpack_of_normal (hones : unpackExponent b ≠ -1#_) (hzero : unpackExponent b ≠ 0#_) :
    pack Format.binary64 (unpack Format.binary64 b) = b := by
  have hparts := packComponents_parts b
  have hlt : (unpackMantissa b).toNat < 2 ^ 52 := (unpackMantissa b).isLt
  have hmantissa : (1#1 ++ unpackMantissa b).toNat = 2 ^ 52 + (unpackMantissa b).toNat :=
    toNat_implicit_append _
  have hlog : (1#1 ++ unpackMantissa b).toNat.log2 = 52 := by
    rw [Nat.log2_eq_iff (by omega)]
    omega
  have hexponent : (unpackExponent b).toNat < 2047 := by
    have hmod := toNat_unpackExponent b
    have hne : b.toNat / binadeSize % 2048 ≠ 2047 := fun h =>
      hones ((exponent_eq_allOnes_iff b).mpr h)
    omega
  have hbiased : (((unpackExponent b).toNat : Int) - (1023 + 52) + 1023 + 52).toNat =
      (unpackExponent b).toNat := by omega
  rw [unpack_eq_normal hones hzero hmantissa rfl (by omega), pack_finite, hbiased,
    if_neg (by omega), if_pos (by rw [← hmantissa, hlog])]
  refine BitVec.eq_of_toNat_eq ?_
  rw [← hparts, toNat_packComponents, toNat_packComponents, hparts, BitVec.toNat_ofNat,
    BitVec.toNat_ofNat, Nat.mod_eq_of_lt (by omega), Nat.add_mod_left, Nat.mod_eq_of_lt hlt]

/-- Unpacking loses nothing, apart from the payload of what is not a number. -/
theorem pack_unpack (h : unpackExponent b = -1#_ → unpackMantissa b = 0#_) :
    pack Format.binary64 (unpack Format.binary64 b) = b := by
  by_cases hones : unpackExponent b = -1#_
  · have hparts := packComponents_parts b
    rw [hones, h hones] at hparts
    rw [unpack_eq_infinity hones (h hones)]
    exact hparts
  by_cases hzero : unpackExponent b = 0#_
  · by_cases hmantissa : unpackMantissa b = 0#_
    · have hparts := packComponents_parts b
      rw [hzero, hmantissa] at hparts
      rw [unpack_eq_zero hzero hmantissa]
      exact hparts
    · exact pack_unpack_of_subnormal hzero hmantissa
  · exact pack_unpack_of_normal hones hzero

end Pack

theorem ordinal_lt (x : Float) : ordinal x < signBit := Nat.mod_lt _ (by decide)

theorem toNat_toBits (x : Float) :
    x.toBits.toNat = (if isNegative x then signBit else 0) + ordinal x := by
  have hlt := x.toBits.toNat_lt
  by_cases h : signBit ≤ x.toBits.toNat
  · rw [if_pos (by simpa [isNegative] using h), ordinal]
    simp only [signBit] at h ⊢
    omega
  · rw [if_neg (by simpa [isNegative] using h), ordinal, Nat.mod_eq_of_lt (Nat.not_le.mp h),
      Nat.zero_add]

/-- The sign and the ordinal determine a number. -/
theorem ext_of_ordinal {x y : Float} (hsign : isNegative x = isNegative y)
    (hordinal : ordinal x = ordinal y) : x = y := by
  have hbits : x.toBits = y.toBits := by
    rw [← UInt64.toNat_inj, toNat_toBits, toNat_toBits, hsign, hordinal]
  obtain ⟨⟨_, _⟩⟩ := x
  obtain ⟨⟨_, _⟩⟩ := y
  cases (hbits : _ = _)
  rfl

theorem toBits_ofBits (u : UInt64) (h : u.toNat % signBit ≤ infinityOrdinal) :
    (Float.ofBits u).toBits = u := by
  have hpack : pack Format.binary64 (unpack Format.binary64 u.toBitVec) = u.toBitVec := by
    refine pack_unpack fun hones => ?_
    have hexponent := (exponent_eq_allOnes_iff _).mp hones
    refine (mantissa_eq_zero_iff _).mpr ?_
    simp only [UInt64.toNat_toBitVec, signBit, infinityOrdinal, binadeSize] at h hexponent ⊢
    omega
  exact congrArg UInt64.ofBitVec hpack

section OfOrdinal

variable {n : Nat}

theorem toNat_toBits_ofOrdinal (negative : Bool) (h : n ≤ infinityOrdinal) :
    (ofOrdinal negative n).toBits.toNat = if negative then signBit + n else n := by
  have hlt : (if negative then signBit + n else n) < 2 ^ 64 := by
    simp only [signBit, infinityOrdinal] at h ⊢
    split <;> omega
  have hnat : (UInt64.ofNat (if negative then signBit + n else n)).toNat =
      if negative then signBit + n else n := by
    rw [UInt64.toNat_ofNat', Nat.mod_eq_of_lt hlt]
  rw [ofOrdinal, toBits_ofBits, hnat]
  rw [hnat]
  simp only [signBit, infinityOrdinal] at h ⊢
  split <;> omega

@[simp] theorem ordinal_ofOrdinal (negative : Bool) (h : n ≤ infinityOrdinal) :
    ordinal (ofOrdinal negative n) = n := by
  rw [ordinal, toNat_toBits_ofOrdinal negative h]
  simp only [signBit, infinityOrdinal] at h ⊢
  split <;> omega

@[simp] theorem isNegative_ofOrdinal (negative : Bool) (h : n ≤ infinityOrdinal) :
    isNegative (ofOrdinal negative n) = negative := by
  rw [isNegative, toNat_toBits_ofOrdinal negative h]
  simp only [signBit, infinityOrdinal] at h ⊢
  cases negative with
  | false =>
    simp
    omega
  | true => simp

end OfOrdinal

/-- The bit pattern of a number. -/
def pattern (x : Float) : BitVec Format.binary64.numBits := x.toBits.toBitVec

theorem toNat_pattern (x : Float) : (pattern x).toNat = x.toBits.toNat := rfl

theorem unpack_toModel (x : Float) :
    x.toModel.unpack = unpack Format.binary64 (pattern x) := rfl

theorem exponent_pattern (x : Float) :
    (pattern x).toNat / binadeSize % 2048 = ordinal x / binadeSize := by
  have hlt := x.toBits.toNat_lt
  simp only [toNat_pattern, ordinal, signBit, binadeSize]
  omega

theorem mantissa_pattern (x : Float) :
    (pattern x).toNat % binadeSize = ordinal x % binadeSize := by
  simp only [toNat_pattern, ordinal, signBit, binadeSize]
  omega

/-- A significand in its place: as long as it may be, or in the last place of all. -/
structure Representable (m : Nat) (q : Int) : Prop where
  pos : 0 < m
  lt : m < 2 ^ 53
  le : -1074 ≤ q
  full : 2 ^ 52 ≤ m ∨ q = -1074

/-- Every number but zero is a significand in its place. -/
theorem exists_representable {n : Nat} (h : 0 < n) :
    ∃ m q, Representable m q ∧ n = (q + 1074).toNat * binadeSize + m := by
  have hsplit := Nat.div_add_mod n binadeSize
  have hlt : n % binadeSize < binadeSize := Nat.mod_lt _ (by decide)
  generalize n / binadeSize = field at hsplit
  generalize n % binadeSize = fraction at hsplit hlt
  simp only [binadeSize] at hsplit hlt ⊢
  cases field with
  | zero => exact ⟨fraction, -1074, ⟨by omega, by omega, le_refl _, .inr rfl⟩, by omega⟩
  | succ k =>
    exact ⟨2 ^ 52 + fraction, k - 1074, ⟨by omega, by omega, by omega, .inl (by omega)⟩, by omega⟩

/-- The sign of a number in its unpacked form. -/
def signOf (x : Float) : UnpackedFloat.Sign := if isNegative x then .negative else .positive

theorem ofBitVec_pattern (x : Float) :
    UnpackedFloat.Sign.ofBitVec (unpackSign (pattern x)) = signOf x := by
  have hlt := x.toBits.toNat_lt
  have hsign := toNat_unpackSign (pattern x)
  rw [toNat_pattern] at hsign
  by_cases h : signBit ≤ x.toBits.toNat
  · have hone : unpackSign (pattern x) = 1#1 := by
      refine BitVec.eq_of_toNat_eq (hsign.trans ?_)
      simp only [signBit] at h ⊢
      show _ = 1
      omega
    rw [hone, signOf, if_pos (by simpa [isNegative] using h)]
    rfl
  · have hzero : unpackSign (pattern x) = 0#1 := by
      refine BitVec.eq_of_toNat_eq (hsign.trans ?_)
      simp only [signBit] at h ⊢
      show _ = 0
      omega
    rw [hzero, signOf, if_neg (by simpa [isNegative] using h)]
    rfl

section Unpack

variable {x : Float}

theorem unpack_of_lt_ordinal (h : infinityOrdinal < ordinal x) :
    x.toModel.unpack = .notANumber := by
  have hlt := ordinal_lt x
  have hones : unpackExponent (pattern x) = -1#_ := by
    rw [exponent_eq_allOnes_iff, exponent_pattern]
    simp only [infinityOrdinal, signBit, binadeSize] at h hlt ⊢
    omega
  have hmantissa : unpackMantissa (pattern x) ≠ 0#_ := by
    rw [Ne, mantissa_eq_zero_iff, mantissa_pattern]
    simp only [infinityOrdinal, signBit, binadeSize] at h hlt ⊢
    omega
  rw [unpack_toModel, unpack_eq_notANumber hones hmantissa]

theorem unpack_of_ordinal_eq_infinity (h : ordinal x = infinityOrdinal) :
    x.toModel.unpack = .infinity (signOf x) := by
  have hones : unpackExponent (pattern x) = -1#_ := by
    rw [exponent_eq_allOnes_iff, exponent_pattern, h]
    rfl
  have hmantissa : unpackMantissa (pattern x) = 0#_ := by
    rw [mantissa_eq_zero_iff, mantissa_pattern, h]
    rfl
  rw [unpack_toModel, unpack_eq_infinity hones hmantissa, ofBitVec_pattern]

theorem unpack_of_ordinal_eq_zero (h : ordinal x = 0) :
    x.toModel.unpack = .zero (signOf x) := by
  have hzero : unpackExponent (pattern x) = 0#_ := by
    rw [exponent_eq_zero_iff, exponent_pattern, h]
    rfl
  have hmantissa : unpackMantissa (pattern x) = 0#_ := by
    rw [mantissa_eq_zero_iff, mantissa_pattern, h]
    rfl
  rw [unpack_toModel, unpack_eq_zero hzero hmantissa, ofBitVec_pattern]

/-- The unpacked form of a number holds its significand and the exponent of its last place. -/
theorem unpack_of_representable {m : Nat} {q : Int} (h : Representable m q)
    (hordinal : ordinal x = (q + 1074).toNat * binadeSize + m)
    (hlt : ordinal x < infinityOrdinal) :
    x.toModel.unpack = .finite (signOf x) m q h.pos := by
  obtain ⟨hpos, hm, hq, hfull⟩ := h
  have hones : ¬ unpackExponent (pattern x) = -1#_ := by
    rw [exponent_eq_allOnes_iff, exponent_pattern]
    simp only [infinityOrdinal, binadeSize] at hlt ⊢
    omega
  have hexponent := (toNat_unpackExponent (pattern x)).trans (exponent_pattern x)
  have hmantissa := (toNat_unpackMantissa (pattern x)).trans (mantissa_pattern x)
  rw [unpack_toModel, ← ofBitVec_pattern]
  simp only [binadeSize] at hordinal hexponent hmantissa
  by_cases hzero : unpackExponent (pattern x) = 0#_
  · rw [hzero] at hexponent
    replace hexponent : 0 = ordinal x / 4503599627370496 := hexponent
    exact unpack_eq_subnormal hzero (by omega) (by omega) hpos
  · have hne : ordinal x / 4503599627370496 ≠ 0 := by
      rw [exponent_eq_zero_iff, exponent_pattern] at hzero
      exact hzero
    have hm' : (1#1 ++ unpackMantissa (pattern x)).toNat = m := by
      rw [toNat_implicit_append, hmantissa]
      omega
    have hq' : ((unpackExponent (pattern x)).toNat : Int) - (1023 + 52) = q := by
      rw [hexponent]
      omega
    exact unpack_eq_normal hones hzero hm' hq' hpos

theorem unpack_of_finite (hpos : 0 < ordinal x) (hlt : ordinal x < infinityOrdinal) :
    ∃ m e h, x.toModel.unpack = .finite (signOf x) m e h := by
  obtain ⟨m, q, h, hordinal⟩ := exists_representable hpos
  exact ⟨m, q, h.pos, unpack_of_representable h hordinal hlt⟩

end Unpack

/-- The four kinds of number, by ordinal. -/
theorem ordinal_cases (x : Float) :
    ordinal x = 0 ∨ (0 < ordinal x ∧ ordinal x < infinityOrdinal) ∨ ordinal x = infinityOrdinal ∨
      infinityOrdinal < ordinal x := by
  have : 0 < infinityOrdinal := by decide
  omega

theorem isNaN_iff (x : Float) : x.isNaN = true ↔ infinityOrdinal < ordinal x := by
  show x.toModel.unpack.isNaN = true ↔ _
  rcases ordinal_cases x with h | ⟨hpos, hlt⟩ | h | h
  · rw [unpack_of_ordinal_eq_zero h, h]
    exact iff_of_false nofun nofun
  · obtain ⟨m, e, hm, hunpack⟩ := unpack_of_finite hpos hlt
    rw [hunpack]
    exact iff_of_false nofun (Nat.not_lt.mpr (Nat.le_of_lt hlt))
  · rw [unpack_of_ordinal_eq_infinity h, h]
    exact iff_of_false nofun (Nat.lt_irrefl _)
  · rw [unpack_of_lt_ordinal h]
    exact iff_of_true rfl h

theorem isInf_iff (x : Float) : x.isInf = true ↔ ordinal x = infinityOrdinal := by
  show x.toModel.unpack.isInf = true ↔ _
  rcases ordinal_cases x with h | ⟨hpos, hlt⟩ | h | h
  · rw [unpack_of_ordinal_eq_zero h, h]
    exact iff_of_false nofun nofun
  · obtain ⟨m, e, hm, hunpack⟩ := unpack_of_finite hpos hlt
    rw [hunpack]
    exact iff_of_false nofun (Nat.ne_of_lt hlt)
  · rw [unpack_of_ordinal_eq_infinity h]
    exact iff_of_true rfl h
  · rw [unpack_of_lt_ordinal h]
    exact iff_of_false nofun (Nat.ne_of_gt h)

theorem isFinite_iff (x : Float) : x.isFinite = true ↔ ordinal x < infinityOrdinal := by
  show x.toModel.unpack.isFinite = true ↔ _
  rcases ordinal_cases x with h | ⟨hpos, hlt⟩ | h | h
  · rw [unpack_of_ordinal_eq_zero h, h]
    exact iff_of_true rfl (by decide)
  · obtain ⟨m, e, hm, hunpack⟩ := unpack_of_finite hpos hlt
    rw [hunpack]
    exact iff_of_true rfl hlt
  · rw [unpack_of_ordinal_eq_infinity h, h]
    exact iff_of_false nofun (Nat.lt_irrefl _)
  · rw [unpack_of_lt_ordinal h]
    exact iff_of_false nofun (Nat.not_lt.mpr (Nat.le_of_lt h))

@[simp] theorem ordinal_zero : ordinal 0 = 0 := by decide

/-- The two zeros are the numbers of ordinal zero. -/
theorem ordinal_eq_zero_iff (x : Float) : ordinal x = 0 ↔ x = 0 ∨ x = -0 := by
  constructor
  · intro h
    cases hsign : isNegative x with
    | false => exact .inl (ext_of_ordinal (hsign.trans (by decide)) (h.trans (by decide)))
    | true => exact .inr (ext_of_ordinal (hsign.trans (by decide)) (h.trans (by decide)))
  · rintro (rfl | rfl) <;> decide

theorem unpack_zero : (0 : Float).toModel.unpack = .zero .positive := by
  have hzero := unpack_of_ordinal_eq_zero ordinal_zero
  exact hzero

/-- Both zeros are equal to zero. -/
theorem beq_zero_iff (x : Float) : (x == 0) = true ↔ ordinal x = 0 := by
  show x.toModel.unpack.beq (0 : Float).toModel.unpack = true ↔ _
  rw [unpack_zero]
  rcases ordinal_cases x with h | ⟨hpos, hlt⟩ | h | h
  · rw [unpack_of_ordinal_eq_zero h]
    exact iff_of_true rfl h
  · obtain ⟨m, e, hm, hunpack⟩ := unpack_of_finite hpos hlt
    rw [hunpack]
    refine iff_of_false ?_ (Nat.ne_of_gt hpos)
    cases signOf x <;> exact nofun
  · rw [unpack_of_ordinal_eq_infinity h, h]
    refine iff_of_false ?_ nofun
    cases signOf x <;> exact nofun
  · rw [unpack_of_lt_ordinal h]
    exact iff_of_false nofun (by omega)

end Reckoner.Binary64
