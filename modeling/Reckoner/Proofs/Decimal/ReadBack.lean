import Mathlib.Data.Nat.Prime.Basic
import Mathlib.Data.Rat.Lemmas
import Reckoner.Decimal.Layout
import Reckoner.Proofs.Decimal.Value
import Reckoner.Proofs.Token.Lexicon

/-!
# Numbers read back from their text

The shortest decimal of a finite number reads back as that number, and its notations spell it, with
or without an exponent. So the text of a finite number without its sign, in any layout, is a number
of the lexicon that stands for it.
-/
namespace Reckoner.Decimal

open Binary64

/-- The denominator of a binary fraction is a power of two. -/
theorem exists_den_eq_two_pow {r : Rat} {n k : Nat} (h : r * 2 ^ k = n) :
    ∃ j, r.den = 2 ^ j := by
  have hr : r = Rat.divInt (n : Int) ((2 ^ k : Nat) : Int) := by
    rw [Rat.divInt_eq_div]
    push_cast
    rw [← h]
    exact (mul_div_cancel_right₀ r (by positivity)).symm
  have hdvd : r.den ∣ 2 ^ k := by
    rw [hr]
    exact_mod_cast Rat.den_dvd (n : Int) ((2 ^ k : Nat) : Int)
  obtain ⟨j, -, hj⟩ := (Nat.dvd_prime_pow Nat.prime_two).mp hdvd
  exact ⟨j, hj⟩

/-- Every finite number is a whole number of units of the last place of all. -/
theorem exists_magnitudeAt_mul (n : Nat) : ∃ m : Nat, magnitudeAt n * 2 ^ 1074 = m := by
  rcases Nat.eq_zero_or_pos n with rfl | hpos
  · exact ⟨0, by rw [magnitudeAt_zero, zero_mul, Nat.cast_zero]⟩
  · obtain ⟨m, q, hm, rfl⟩ := exists_representable hpos
    have hq := hm.le
    refine ⟨m * 2 ^ (q + 1074).toNat, ?_⟩
    rw [hm.magnitudeAt_eq, mul_assoc]
    push_cast
    rw [← zpow_natCast, ← zpow_natCast, Int.toNat_of_nonneg (by omega), ← two_zpow_add]
    rfl

theorem magnitude_nonneg (x : Float) : 0 ≤ magnitude x := by
  rw [magnitude, magnitudeAt]
  split <;> positivity

@[simp] theorem value_exact (x : Float) : (exact x).value = magnitude x := by
  obtain ⟨m, hm⟩ := exists_magnitudeAt_mul (ordinal x)
  obtain ⟨j, hj⟩ : ∃ j, (magnitude x).den = 2 ^ j := exists_den_eq_two_pow hm
  have hnum : ((magnitude x).num.toNat : Rat) = (magnitude x).num := by
    exact_mod_cast Int.toNat_of_nonneg (Rat.num_nonneg.mpr (magnitude_nonneg x))
  have hden : ((magnitude x).den : Rat) = 2 ^ j := by exact_mod_cast hj
  have hplaces : (magnitude x).den.log2 = j := by rw [hj, Nat.log2_two_pow]
  have hten : (10 : Rat) ^ j = 5 ^ j * 2 ^ j := by
    rw [← mul_pow]
    norm_num
  have hfive : (5 : Rat) ^ j ≠ 0 := by positivity
  rw [value, exact, hplaces, Nat.pow_eq]
  push_cast
  rw [hnum, zpow_neg, zpow_natCast, hten, ← Rat.mul_den_eq_num, hden]
  calc magnitude x * 2 ^ j * 5 ^ j * (5 ^ j * 2 ^ j)⁻¹
      = magnitude x * ((5 ^ j * 2 ^ j) * (5 ^ j * 2 ^ j)⁻¹) := by ring
    _ = magnitude x := by rw [mul_inv_cancel₀ (by positivity), mul_one]

@[simp] theorem value_withoutTrailingZeros (d : Decimal) :
    d.withoutTrailingZeros.value = d.value := by
  induction hn : d.digits using Nat.strongRecOn generalizing d with
  | ind n ih =>
    rw [withoutTrailingZeros]
    split
    · next h =>
      have hdigits : d.digits = d.digits / 10 * 10 := by omega
      have hcast : (d.digits : Rat) = ((d.digits / 10 : Nat) : Rat) * 10 := by
        exact_mod_cast hdigits
      rw [ih (d.digits / 10) (by omega) _ rfl, value, value, hcast, zpow_add₀ (by norm_num)]
      ring
    · rfl

theorem readsBack_of_onGrid? {tie : Tie} {x : Float} {r : Rat} {place : Int} {d : Decimal}
    (h : onGrid? tie x r place = some d) : d.readsBack x = true := by
  rw [onGrid?] at h
  split at h
  · next hlower hupper =>
    cases h
    rw [closer]
    split
    · exact hlower
    split
    · exact hupper
    split
    · exact hlower
    · exact hupper
  · next hlower _ =>
    cases h
    exact hlower
  · next _ hupper =>
    cases h
    exact hupper
  · cases h

/-- The shortest decimal reads back, whichever grid it was found on. -/
theorem ordinal_toFloat_shortest (tie : Tie) {x : Float} (h : ordinal x < infinityOrdinal) :
    ordinal (shortest tie x).toFloat = ordinal x := by
  rw [shortest, toFloat_congr (value_withoutTrailingZeros _)]
  cases hfound : (List.range 17).findSome? fun n : Nat =>
      onGrid? tie x (magnitude x) (scale (magnitude x) - 1 - n) with
  | none =>
    rw [Option.getD_none, toFloat_eq_nearest, value_exact, ordinal_nearest]
    exact nearestOrdinal_magnitudeAt h
  | some d =>
    obtain ⟨n, -, hgrid⟩ := List.exists_of_findSome?_eq_some hfound
    rw [Option.getD_some]
    simpa [readsBack] using readsBack_of_onGrid? hgrid

open Lexicon (Digit Mantissa Exponent Number)

theorem digit_of_mem_digitChars {n : Nat} {c : Char} (h : c ∈ digitChars n) : Digit c :=
  (Lexicon.isDigit_iff c).mp (Nat.isDigit_of_mem_toDigits (by decide) (by decide) h)

theorem ofDigitChars_digitChars (n : Nat) : Nat.ofDigitChars 10 (digitChars n) 0 = n :=
  Nat.ofDigitChars_ten_toDigits

theorem digitChars_injective : Function.Injective digitChars := by
  intro m n h
  rw [← ofDigitChars_digitChars m, h, ofDigitChars_digitChars]

theorem digitChars_ne_nil (n : Nat) : digitChars n ≠ [] := Nat.toDigits_ne_nil

theorem digit_of_mem_zeros {n : Nat} {c : Char} (h : c ∈ List.replicate n '0') : Digit c := by
  rw [List.eq_of_mem_replicate h]
  decide

/-- Digits with an optional fraction spell a number without an exponent. -/
theorem number_of_mantissa {m ds fs : List Char} (h : Mantissa m ds fs) :
    Number m ⟨Nat.ofDigitChars 10 (ds ++ fs) 0, -(fs.length : Int)⟩ := by
  have hnumber := Number.mk h .absent
  rwa [List.append_nil, zero_sub] at hnumber

/-- Zeros after the digits of a number multiply it. -/
theorem ofDigitChars_digitChars_append_zeros (n k : Nat) :
    Nat.ofDigitChars 10 (digitChars n ++ List.replicate k '0') 0 = n * 10 ^ k := by
  rw [Nat.ofDigitChars_append, ofDigitChars_digitChars, Nat.ofDigitChars_replicate_zero,
    Nat.mul_comm]

/-- A whole number is written with zeros after its digits, and then perhaps with a point and one
more zero. -/
theorem number_of_exponent_nonneg (pointZero : Bool) {d : Decimal} (h : 0 ≤ d.exponent) :
    ∃ e, Number (positionalChars pointZero d) e ∧ e.value = d.value := by
  have hds : ∀ c ∈ digitChars d.digits ++ List.replicate d.exponent.toNat '0', Digit c := by
    intro c hc
    rcases List.mem_append.mp hc with hc | hc
    · exact digit_of_mem_digitChars hc
    · exact digit_of_mem_zeros hc
  have hne : digitChars d.digits ++ List.replicate d.exponent.toNat '0' ≠ [] := by
    simp [digitChars_ne_nil]
  have hexponent : (10 : Rat) ^ d.exponent = 10 ^ d.exponent.toNat := by
    rw [← zpow_natCast, Int.toNat_of_nonneg h]
  rw [positionalChars]
  simp only [if_pos h]
  cases pointZero with
  | false =>
    refine ⟨_, number_of_mantissa (by simpa using Mantissa.whole hds hne), ?_⟩
    rw [value, value, List.append_nil, ofDigitChars_digitChars_append_zeros, hexponent]
    simp
  | true =>
    have hfs : ∀ c ∈ ['0'], Digit c := List.forall_mem_singleton.mpr (by decide)
    refine ⟨_, number_of_mantissa (.point hds hfs (.inl hne)), ?_⟩
    rw [value, value, ← List.replicate_one, List.append_assoc, ← List.replicate_add,
      ofDigitChars_digitChars_append_zeros, hexponent, pow_succ]
    simp [mul_assoc]

/-- The digits of a number around the point. -/
theorem number_of_take_drop {n w : Nat} (hpos : 0 < w) :
    Number ((digitChars n).take w ++ '.' :: (digitChars n).drop w)
      ⟨n, -(((digitChars n).length - w : Nat) : Int)⟩ := by
  have hds : ∀ c ∈ (digitChars n).take w, Digit c := fun c hc =>
    digit_of_mem_digitChars (List.mem_of_mem_take hc)
  have hfs : ∀ c ∈ (digitChars n).drop w, Digit c := fun c hc =>
    digit_of_mem_digitChars (List.mem_of_mem_drop hc)
  have hne : (digitChars n).take w ≠ [] := fun hnil =>
    (List.take_eq_nil_iff.mp hnil).elim (by omega) (digitChars_ne_nil n)
  have hnumber := number_of_mantissa (.point hds hfs (.inl hne))
  rwa [List.take_append_drop, ofDigitChars_digitChars, List.length_drop] at hnumber

/-- The digits of a number after the point and some zeros. -/
theorem number_of_zeros (n k : Nat) :
    Number ('0' :: '.' :: (List.replicate k '0' ++ digitChars n))
      ⟨n, -((k + (digitChars n).length : Nat) : Int)⟩ := by
  have hds : ∀ c ∈ ['0'], Digit c := List.forall_mem_singleton.mpr (by decide)
  have hfs : ∀ c ∈ List.replicate k '0' ++ digitChars n, Digit c := by
    intro c hc
    rcases List.mem_append.mp hc with hc | hc
    · exact digit_of_mem_zeros hc
    · exact digit_of_mem_digitChars hc
  have hnumber := number_of_mantissa (.point hds hfs (.inl (by simp)))
  have hvalue : Nat.ofDigitChars 10 (['0'] ++ (List.replicate k '0' ++ digitChars n)) 0 = n := by
    rw [Nat.ofDigitChars_append, Nat.ofDigitChars_append]
    show Nat.ofDigitChars 10 (digitChars n) (Nat.ofDigitChars 10 (List.replicate k '0') 0) = n
    rw [Nat.ofDigitChars_replicate_zero, Nat.mul_zero, ofDigitChars_digitChars]
  rwa [hvalue, List.length_append, List.length_replicate] at hnumber

/-- Any other number is written with its digits around the point, or after it. -/
theorem number_of_exponent_neg (pointZero : Bool) {d : Decimal} (h : d.exponent < 0) :
    Number (positionalChars pointZero d) d := by
  obtain ⟨n, exponent⟩ := d
  simp only at h
  rw [positionalChars]
  simp only [if_neg (Int.not_le.mpr h)]
  by_cases hwhole : 0 < ((digitChars n).length : Int) + exponent
  · have hexponent : exponent = -(((digitChars n).length -
        (((digitChars n).length : Int) + exponent).toNat : Nat) : Int) := by omega
    have hpos : 0 < (((digitChars n).length : Int) + exponent).toNat := by omega
    have hnumber := number_of_take_drop (n := n) hpos
    rw [if_pos hwhole]
    rwa [← hexponent] at hnumber
  · have hexponent : exponent = -(((-(((digitChars n).length : Int) + exponent)).toNat +
        (digitChars n).length : Nat) : Int) := by omega
    have hnumber := number_of_zeros n (-(((digitChars n).length : Int) + exponent)).toNat
    rw [if_neg hwhole]
    rwa [← hexponent] at hnumber

/-- The positional notation of a decimal spells its value. -/
theorem exists_number_positionalChars (pointZero : Bool) (d : Decimal) :
    ∃ e, Number (positionalChars pointZero d) e ∧ e.value = d.value := by
  rcases Int.lt_or_le d.exponent 0 with h | h
  · exact ⟨d, number_of_exponent_neg pointZero h, rfl⟩
  · exact number_of_exponent_nonneg pointZero h

/-- One digit, and the others after the point if there are any. -/
theorem mantissa_of_digitChars (n : Nat) :
    Mantissa ((digitChars n).take 1 ++
        if (digitChars n).length = 1 then [] else '.' :: (digitChars n).drop 1)
      ((digitChars n).take 1) ((digitChars n).drop 1) := by
  have hds : ∀ c ∈ (digitChars n).take 1, Digit c := fun c hc =>
    digit_of_mem_digitChars (List.mem_of_mem_take hc)
  have hne : (digitChars n).take 1 ≠ [] := fun hnil =>
    (List.take_eq_nil_iff.mp hnil).elim (by omega) (digitChars_ne_nil n)
  split
  · next hone =>
    rw [List.append_nil, List.drop_of_length_le hone.le]
    exact .whole hds hne
  · exact .point hds (fun c hc => digit_of_mem_digitChars (List.mem_of_mem_drop hc)) (.inl hne)

/-- An exponent has a minus sign if it is negative, and perhaps a plus sign if it is not. -/
theorem exponent_of_leading (plusSign : Bool) (n : Int) :
    Lexicon.Exponent ('e' :: (if n < 0 then ['-'] else if plusSign then ['+'] else []) ++
      digitChars n.natAbs) n := by
  have hds : ∀ c ∈ digitChars n.natAbs, Digit c := fun _ => digit_of_mem_digitChars
  have hne := digitChars_ne_nil n.natAbs
  have hpresent : ∀ sign : Option Char, sign = none ∨ sign = some '+' ∨ sign = some '-' →
      Lexicon.Exponent ('e' :: sign.toList ++ digitChars n.natAbs)
        (if sign = some '-' then -(n.natAbs : Int) else n.natAbs) := by
    intro sign hsign
    have hexponent := Lexicon.Exponent.present (.inl rfl) hsign hds hne
    rwa [ofDigitChars_digitChars] at hexponent
  rcases Int.lt_or_le n 0 with hn | hn
  · have hexponent := hpresent (some '-') (.inr (.inr rfl))
    rw [if_pos rfl, show -(n.natAbs : Int) = n by omega] at hexponent
    rwa [if_pos hn]
  · rw [if_neg (Int.not_lt.mpr hn)]
    have hvalue : (n.natAbs : Int) = n := by omega
    cases plusSign with
    | false =>
      have hexponent := hpresent none (.inl rfl)
      rwa [if_neg nofun, hvalue] at hexponent
    | true =>
      have hexponent := hpresent (some '+') (.inr (.inl rfl))
      rwa [if_neg (by decide), hvalue] at hexponent

/-- The scientific notation of a decimal spells it. -/
theorem number_scientificChars (plusSign : Bool) (d : Decimal) :
    Number (scientificChars plusSign d) d := by
  have hlength : 0 < (digitChars d.digits).length :=
    List.length_pos_iff.mpr (digitChars_ne_nil d.digits)
  have hnumber := Number.mk (mantissa_of_digitChars d.digits)
    (exponent_of_leading plusSign (((digitChars d.digits).length : Int) + d.exponent - 1))
  have hexponent : ((digitChars d.digits).length : Int) + d.exponent - 1 -
      (((digitChars d.digits).drop 1).length : Nat) = d.exponent := by
    rw [List.length_drop]
    omega
  rw [List.take_append_drop, ofDigitChars_digitChars, hexponent] at hnumber
  simpa only [scientificChars, List.append_assoc] using hnumber

/-- The text of a finite number without its sign, in any layout, is a number of the lexicon that
reads back. -/
theorem Layout.exists_number (layout : Layout) {x : Float} (h : ordinal x < infinityOrdinal) :
    ∃ e, Number (layout.magnitudeChars x) e ∧ nearestOrdinal e.value = ordinal x := by
  rw [magnitudeChars]
  by_cases hzero : ordinal x = 0
  · rw [if_pos hzero]
    obtain ⟨e, hnumber, hvalue⟩ := exists_number_positionalChars layout.pointZero ⟨0, 0⟩
    refine ⟨e, hnumber, ?_⟩
    rw [hvalue, value_of_digits_eq_zero rfl, nearestOrdinal_zero, hzero]
  · rw [if_neg hzero]
    have hreads : nearestOrdinal (shortest layout.tie x).value = ordinal x := by
      rw [← ordinal_nearest, ← toFloat_eq_nearest]
      exact ordinal_toFloat_shortest layout.tie h
    dsimp only
    split
    · obtain ⟨e, hnumber, hvalue⟩ :=
        exists_number_positionalChars layout.pointZero (shortest layout.tie x)
      exact ⟨e, hnumber, by rw [hvalue, hreads]⟩
    · exact ⟨_, number_scientificChars layout.plusSign _, hreads⟩

theorem Layout.chars_of_isFinite (layout : Layout) {x : Float} (h : x.isFinite = true) :
    layout.chars x = (if isNegative x then ['-'] else []) ++ layout.magnitudeChars x := by
  have hordinal := (isFinite_iff x).mp h
  have hinf : ¬ x.isInf = true := fun h => Nat.ne_of_lt hordinal ((isInf_iff x).mp h)
  have hnan : ¬ x.isNaN = true := fun h => Nat.lt_asymm hordinal ((isNaN_iff x).mp h)
  rw [chars, if_neg hnan, if_neg hinf]

/-- The plain text of a finite number without a sign spells it. -/
theorem spells_plain {x : Float} (hfinite : x.isFinite = true) (hsign : isNegative x = false) :
    Lexicon.Spells (plain.chars x) (.number x) := by
  obtain ⟨e, hnumber, hvalue⟩ := plain.exists_number ((isFinite_iff x).mp hfinite)
  have hx : nearest e.value = x :=
    ext_of_ordinal ((isNegative_nearest _).trans hsign.symm) ((ordinal_nearest _).trans hvalue)
  have hchars : plain.chars x = plain.magnitudeChars x := by
    rw [plain.chars_of_isFinite hfinite, hsign]
    rfl
  rw [hchars]
  have hspells := Lexicon.Spells.number hnumber
  rwa [hx] at hspells

end Reckoner.Decimal
