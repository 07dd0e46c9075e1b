import Mathlib.Data.List.DropRight
import Reckoner.Decimal.Fixed
import Reckoner.Proofs.Binary64.Closest
import Reckoner.Proofs.Decimal.Canonical

/-!
# The displayed number

What is displayed of a finite number is its exact value rounded to a multiple of the last place, a
half going to the even digit, in canonical form. So the text depends on the rounded value alone, and
greater numbers are not displayed as smaller ones.
-/
namespace Reckoner.Decimal

open Binary64
open Lexicon (Digit)

/-- The multiple of the last place that is closest to a number, with an even last digit where
another one is as close. -/
def RoundsTo (places : Nat) (r q : Rat) : Prop :=
  ∃ n : Int, IsRounded (r * 10 ^ places) n ∧ q = n / 10 ^ places

section RoundsTo

variable {places : Nat} {r s q q' : Rat}

/-- Rounding keeps the order. -/
theorem RoundsTo.le_of_le (hq : RoundsTo places r q) (hq' : RoundsTo places s q') (h : r ≤ s) :
    q ≤ q' := by
  obtain ⟨m, hm, rfl⟩ := hq
  obtain ⟨n, hn, rfl⟩ := hq'
  have hpow : (0 : Rat) < 10 ^ places := by positivity
  have hmn : (m : Rat) ≤ n := by
    exact_mod_cast hm.le_of_le hn (mul_le_mul_of_nonneg_right h hpow.le)
  exact div_le_div_of_nonneg_right hmn hpow.le

/-- A distance in units of the last place. -/
theorem abs_sub_units (places : Nat) (r : Rat) (n : Int) :
    |r * 10 ^ places - n| = |n / 10 ^ places - r| * 10 ^ places := by
  have hpow : (0 : Rat) < 10 ^ places := by positivity
  rw [abs_sub_comm (n / 10 ^ places : Rat), ← abs_of_pos hpow, ← abs_mul, sub_mul, abs_of_pos hpow,
    div_mul_cancel₀ _ hpow.ne']

theorem RoundsTo.near (h : RoundsTo places r q) : |q - r| ≤ 1 / 2 := by
  obtain ⟨n, hn, rfl⟩ := h
  have hone : (1 : Rat) ≤ 10 ^ places := one_le_pow₀ (by norm_num)
  have hnear := hn.near
  rw [abs_sub_units] at hnear
  exact (le_mul_of_one_le_right (abs_nonneg _) hone).trans hnear

/-- A number that is at least as close to the rounded one rounds to it as well. -/
theorem RoundsTo.of_closer (h : RoundsTo places r q) (hcloser : |q - s| ≤ |q - r|) :
    RoundsTo places s q := by
  obtain ⟨n, hn, rfl⟩ := h
  have hle : |s * 10 ^ places - n| ≤ |r * 10 ^ places - n| := by
    rw [abs_sub_units, abs_sub_units]
    exact mul_le_mul_of_nonneg_right hcloser (by positivity)
  refine ⟨n, ⟨hle.trans hn.near, fun htie => hn.even ?_⟩, rfl⟩
  exact le_antisymm hn.near (htie ▸ hle)

theorem RoundsTo.unique (hq : RoundsTo places r q) (hq' : RoundsTo places r q') : q = q' :=
  le_antisymm (hq.le_of_le hq' le_rfl) (hq'.le_of_le hq le_rfl)

end RoundsTo

theorem digit_of_mem_padded {length n : Nat} {c : Char} (h : c ∈ padded length n) : Digit c :=
  (List.mem_append.mp h).elim digit_of_mem_zeros digit_of_mem_digitChars

@[simp] theorem ofDigitChars_padded (length n : Nat) :
    Nat.ofDigitChars 10 (padded length n) 0 = n := by
  rw [padded, Nat.ofDigitChars_append, Nat.ofDigitChars_replicate_zero, Nat.mul_zero,
    ofDigitChars_digitChars]

theorem length_padded {length n : Nat} (hpos : 0 < length) (h : n < 10 ^ length) :
    (padded length n).length = length := by
  have hle : (digitChars n).length ≤ length :=
    (Nat.length_toDigits_le_iff (by decide) hpos).mpr h
  rw [padded, List.length_append, List.length_replicate]
  omega

/-- A text without the zeros at its end. -/
def stripped (cs : List Char) : List Char := cs.rdropWhile (· = '0')

theorem exists_zeros_after_stripped (cs : List Char) :
    ∃ k, cs = stripped cs ++ List.replicate k '0' := by
  refine ⟨(cs.rtakeWhile (· = '0')).length, ?_⟩
  conv_lhs => rw [← List.rdropWhile_append_rtakeWhile (p := (· = '0')) (l := cs)]
  rw [stripped, List.append_cancel_left_eq]
  refine List.eq_replicate_of_mem fun c hc => ?_
  simpa using List.mem_rtakeWhile_imp hc

theorem getLast_stripped (cs : List Char) : (stripped cs).getLast? ≠ some '0' := by
  by_cases hnil : stripped cs = []
  · rw [hnil]
    exact nofun
  · rw [List.getLast?_eq_some_getLast hnil, ne_eq, Option.some.injEq]
    exact fun hlast => List.rdropWhile_last_not (· = '0') cs hnil (decide_eq_true hlast)

theorem mem_of_mem_stripped {cs : List Char} {c : Char} (h : c ∈ stripped cs) : c ∈ cs :=
  (List.rdropWhile_prefix _ _).subset h

/-- Nothing before a point is stripped. -/
theorem stripped_append_point (cs ds : List Char) :
    stripped (cs ++ '.' :: ds) = cs ++ '.' :: stripped ds := by
  induction ds using List.reverseRecOn with
  | nil => exact List.rdropWhile_concat_neg _ _ _ (by decide)
  | append_singleton ds d ih =>
    rw [← List.cons_append, ← List.append_assoc]
    by_cases hd : d = '0'
    · rw [stripped, stripped, List.rdropWhile_concat_pos _ _ _ (by simpa using hd),
        List.rdropWhile_concat_pos _ _ _ (by simpa using hd)]
      exact ih
    · rw [stripped, stripped, List.rdropWhile_concat_neg _ _ _ (by simpa using hd),
        List.rdropWhile_concat_neg _ _ _ (by simpa using hd), List.append_assoc]
      rfl

/-- Only the fraction loses zeros, and with the last of them its point. -/
theorem withoutEndZeros_append_point (cs : List Char) {ds : List Char} (h : ∀ c ∈ ds, Digit c) :
    withoutEndZeros (cs ++ '.' :: ds) =
      cs ++ if stripped ds = [] then [] else '.' :: stripped ds := by
  have hkept : ((cs ++ '.' :: ds).reverse.dropWhile (· = '0')).reverse =
      cs ++ '.' :: stripped ds := stripped_append_point cs ds
  rw [withoutEndZeros, if_pos (by simp), hkept]
  dsimp only
  by_cases hnil : stripped ds = []
  · rw [hnil, List.getLast?_concat, if_pos rfl, List.dropLast_concat, if_pos rfl, List.append_nil]
  · have hpoint : (cs ++ '.' :: stripped ds).getLast? ≠ some '.' := by
      rw [List.getLast?_append_of_ne_nil _ (by simp), List.getLast?_cons_of_ne_nil hnil]
      intro hlast
      exact absurd (h '.' (mem_of_mem_stripped (List.mem_of_getLast? hlast))) (by decide)
    rw [if_neg hpoint, if_neg hnil]

/-- Only zero has neither a whole part nor a fraction. -/
theorem eq_zero_of_parts {places n : Nat} (hwhole : digitChars (n / 10 ^ places) = ['0'])
    (hfraction : stripped (padded places (n % 10 ^ places)) = []) : n = 0 := by
  have hmod : n % 10 ^ places = 0 := by
    obtain ⟨k, hk⟩ := exists_zeros_after_stripped (padded places (n % 10 ^ places))
    rw [← ofDigitChars_padded places (n % 10 ^ places), hk, hfraction, List.nil_append,
      Nat.ofDigitChars_replicate_zero, Nat.mul_zero]
  rw [← Nat.div_add_mod n (10 ^ places), eq_zero_of_digitChars hwhole, hmod, Nat.mul_zero]

theorem stripped_padded_zero (n : Nat) : stripped (padded 0 (n % 10 ^ 0)) = [] := by
  rw [pow_zero, Nat.mod_one]
  decide

namespace Canonical

/-- The canonical text of a number of units of the last place. -/
def ofUnits (negative : Bool) (places n : Nat) : Canonical where
  negative := negative && decide (n ≠ 0)
  whole := digitChars (n / 10 ^ places)
  fraction := stripped (padded places (n % 10 ^ places))
  digit_whole _ hc := digit_of_mem_digitChars hc
  digit_fraction _ hc := digit_of_mem_padded (mem_of_mem_stripped hc)
  whole_ne_nil := digitChars_ne_nil _
  eq_zero_of_head := digitChars_of_head
  getLast_ne_zero := getLast_stripped _
  unsigned hwhole hfraction := by
    have hzero : n = 0 := eq_zero_of_parts hwhole hfraction
    simp [hzero]

variable (negative : Bool) (places n : Nat)

/-- The zeros that were stripped from the digits of the units. -/
theorem exists_digits_ofUnits_mul : ∃ k, (ofUnits negative places n).fraction.length + k = places ∧
    (ofUnits negative places n).digits * 10 ^ k = n := by
  obtain ⟨k, hk⟩ := exists_zeros_after_stripped (padded places (n % 10 ^ places))
  rcases Nat.eq_zero_or_pos places with rfl | hpos
  · have hfraction : (ofUnits negative 0 n).fraction = [] := stripped_padded_zero n
    refine ⟨0, by rw [hfraction]; rfl, ?_⟩
    rw [digits, hfraction]
    simp [ofUnits, ofDigitChars_digitChars]
  · have hmod : n % 10 ^ places < 10 ^ places := Nat.mod_lt _ (by positivity)
    have hlength := congrArg List.length hk
    rw [length_padded hpos hmod, List.length_append, List.length_replicate] at hlength
    refine ⟨k, hlength.symm, ?_⟩
    have hdigits : Nat.ofDigitChars 10
        (digitChars (n / 10 ^ places) ++ padded places (n % 10 ^ places)) 0 = n := by
      rw [Nat.ofDigitChars_append, ofDigitChars_digitChars, Nat.ofDigitChars_eq_ofDigitChars_zero,
        length_padded hpos hmod, ofDigitChars_padded, Nat.div_add_mod]
    rw [hk, ← List.append_assoc, Nat.ofDigitChars_append, Nat.ofDigitChars_replicate_zero] at hdigits
    rw [Nat.mul_comm]
    exact hdigits

theorem length_fraction_ofUnits_le : (ofUnits negative places n).fraction.length ≤ places := by
  obtain ⟨k, hk, -⟩ := exists_digits_ofUnits_mul negative places n
  omega

theorem value_ofUnits : (ofUnits negative places n).value =
    (if negative then -(n : Rat) else n) / 10 ^ places := by
  obtain ⟨k, hplaces, hdigits⟩ := exists_digits_ofUnits_mul negative places n
  have hmagnitude : (ofUnits negative places n).magnitude.value = n / 10 ^ places := by
    have hpow : (10 : Rat) ^ places = 10 ^ (ofUnits negative places n).fraction.length * 10 ^ k := by
      rw [← pow_add, hplaces]
    rw [eq_div_iff (by positivity), hpow, ← mul_assoc, magnitude_value]
    exact_mod_cast hdigits
  rw [value, hmagnitude]
  rcases Nat.eq_zero_or_pos n with rfl | hn
  · simp
  · have hnegative : (ofUnits negative places n).negative = negative := by
      simp [ofUnits, Nat.ne_of_gt hn]
    rw [hnegative]
    split <;> ring

theorem body_ofUnits_eq_zero_iff : (ofUnits negative places n).body = ['0'] ↔ n = 0 := by
  constructor
  · intro h
    have hzero : (ofInt 0).body = ['0'] := rfl
    obtain ⟨hwhole, hfraction⟩ := body_injective (h.trans hzero.symm)
    exact eq_zero_of_parts hwhole hfraction
  · rintro rfl
    have hc : ofUnits negative places 0 = ofInt 0 := by
      refine value_injective ?_
      rw [value_ofUnits, value_ofInt]
      simp
    rw [hc]
    rfl

end Canonical

/-- Without its superfluous characters, the text with all decimals is canonical, but for the sign of
zero. -/
theorem withoutEndZeros_roundedChars (places : Nat) (x : Float) :
    withoutEndZeros (roundedChars places x) = (if isNegative x then ['-'] else []) ++
      (Canonical.ofUnits (isNegative x) places (scaled places x)).body := by
  have hwhole : '.' ∉ digitChars (scaled places x / 10 ^ places) := fun h =>
    absurd (digit_of_mem_digitChars h) (by decide)
  rw [roundedChars, Canonical.body]
  simp only [Nat.pow_eq]
  by_cases hplaces : places = 0
  · subst hplaces
    have hpoint : '.' ∉ (if isNegative x then ['-'] else []) ++
        digitChars (scaled 0 x / 10 ^ 0) := by
      rw [List.mem_append]
      rintro (h | h)
      · split at h <;> simp at h
      · exact hwhole h
    have hfraction : (Canonical.ofUnits (isNegative x) 0 (scaled 0 x)).fraction = [] :=
      stripped_padded_zero _
    rw [if_pos rfl, List.append_nil, withoutEndZeros, if_neg hpoint, if_pos hfraction,
      List.append_nil]
    rfl
  · rw [if_neg hplaces, withoutEndZeros_append_point _ fun c hc => digit_of_mem_padded hc,
      List.append_assoc]
    rfl

/-- The displayed text is canonical. -/
theorem fixedChars_eq (places : Nat) {x : Float} (h : x.isFinite = true) :
    fixedChars places x = (Canonical.ofUnits (isNegative x) places (scaled places x)).chars := by
  have hzero := Canonical.body_ofUnits_eq_zero_iff (isNegative x) places (scaled places x)
  rw [fixedChars, if_pos h, withoutEndZeros_roundedChars, Canonical.chars_eq]
  generalize scaled places x = n at hzero ⊢
  cases hnegative : isNegative x with
  | false =>
    have hsign : (Canonical.ofUnits false places n).negative = false := rfl
    have hne := (Canonical.ofUnits false places n).head_body_ne_minus ['0']
    rw [hsign]
    simp only [Bool.false_eq_true, ↓reduceIte, List.nil_append, if_neg hne]
  | true =>
    have hsign : (Canonical.ofUnits true places n).negative = decide (n ≠ 0) := rfl
    rw [hnegative] at hzero
    rw [hsign]
    simp only [↓reduceIte, List.cons_append, List.nil_append, List.cons.injEq, true_and, hzero]
    by_cases hn : n = 0
    · rw [if_pos hn, hzero.mpr hn, hn]
      rfl
    · rw [if_neg hn, if_pos (by simpa using hn)]
      rfl

/-- The units that are displayed are the rounded ones. -/
theorem isRounded_scaled (places : Nat) (x : Float) :
    IsRounded (Binary64.value x * 10 ^ places)
      (if isNegative x then -(scaled places x : Int) else scaled places x) := by
  have hnonneg : 0 ≤ roundHalfEven (Binary64.magnitude x * 10 ^ places) := by
    refine le_roundHalfEven ?_
    rw [Int.cast_zero]
    exact mul_nonneg (magnitude_nonneg x) (by positivity)
  have hround := isRounded_roundHalfEven (Binary64.magnitude x * 10 ^ places)
  rw [← Int.toNat_of_nonneg hnonneg] at hround
  rw [Binary64.value]
  split
  · rw [neg_mul]
    exact hround.neg
  · exact hround

/-- What is displayed of a number is the canonical text of the rounded number. -/
theorem exists_canonical (places : Nat) {x : Float} (h : x.isFinite = true) :
    ∃ c : Canonical, fixed places x = c.text ∧ RoundsTo places (Binary64.value x) c.value ∧
      c.fraction.length ≤ places := by
  refine ⟨.ofUnits (isNegative x) places (scaled places x), ?_, ⟨_, isRounded_scaled places x, ?_⟩,
    Canonical.length_fraction_ofUnits_le _ _ _⟩
  · rw [fixed, fixedChars_eq places h, Canonical.text]
  · rw [Canonical.value_ofUnits]
    split <;> push_cast <;> rfl

/-- The displayed text is the canonical text of the exact value, rounded to the last place. It is
"0" for zero, it has no more digits after the point than asked for, and none for a whole number. Two
numbers have the same text exactly if they round to the same number, and the order is kept. -/
theorem fixed_is_canonical {x : Float} (hx : x.isFinite = true) (places : Nat) :
    ∃ q : Rat, (∀ r, RoundsTo places (Binary64.value x) r ↔ r = q) ∧
      (∃ c : Canonical, (∀ c' : Canonical, c'.value = q ↔ c' = c) ∧ fixed places x = c.text ∧
        c.whole = digitChars ⌊|q|⌋₊ ∧ c.fraction.length ≤ places ∧
        (c.fraction = [] ↔ ∃ n : Int, q = n)) ∧
      (q = 0 → fixed places x = "0") ∧
      ∀ y : Float, y.isFinite = true →
        (fixed places y = fixed places x ↔ RoundsTo places (Binary64.value y) q) ∧
        (x ≤ y → ∀ r, RoundsTo places (Binary64.value y) r → q ≤ r) := by
  obtain ⟨c, htext, hround, hlength⟩ := exists_canonical places hx
  refine ⟨c.value, fun r => ⟨fun hr => hr.unique hround, fun hr => hr ▸ hround⟩,
    ⟨c, fun c' => Canonical.value_injective.eq_iff, htext, c.whole_eq, hlength,
      c.fraction_eq_nil_iff⟩, fun hzero => ?_, fun y hy => ⟨?_, fun hle r hr => ?_⟩⟩
  · have hc : c = .ofInt 0 := Canonical.value_injective (by rw [hzero, Canonical.value_ofInt]; rfl)
    rw [htext, hc]
    decide
  · obtain ⟨d, htext', hround', -⟩ := exists_canonical places hy
    rw [htext, htext', Canonical.text_injective.eq_iff]
    constructor
    · rintro rfl
      exact hround'
    · exact fun hr => Canonical.value_injective (hround'.unique hr)
  · exact hround.le_of_le hr ((le_iff_value_le hx hy).mp hle)

/-- A half that goes to the even digit, and zeros before the point that stay. -/
theorem fixed_is_canonical_at_half :
    (100.5 : Float).isFinite = true ∧ fixed 0 100.5 = "100" ∧
      ∃ q : Rat, (∀ r, RoundsTo 0 (Binary64.value 100.5) r ↔ r = q) ∧
        ∃ c : Canonical, c.value = q ∧ c.text = "100" := by
  have hfinite : (100.5 : Float).isFinite = true := by decide +kernel
  have htext : fixed 0 100.5 = "100" := by decide +kernel
  obtain ⟨q, hq, ⟨c, hc, hfixed, -⟩, -⟩ := fixed_is_canonical hfinite 0
  exact ⟨hfinite, htext, q, hq, c, (hc c).mpr rfl, hfixed.symm.trans htext⟩

end Reckoner.Decimal
