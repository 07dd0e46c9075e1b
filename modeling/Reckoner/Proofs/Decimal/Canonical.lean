import Mathlib.Algebra.Order.Floor.Semifield
import Mathlib.Data.Rat.Floor
import Reckoner.Proofs.Decimal.ReadBack
import Reckoner.Proofs.Token.Scan

/-!
# Canonical decimal texts

A canonical text has no sign before zero, no zero before its whole part, and no zero at the end of
its fraction. Each number that has a canonical text has one only: from the last digit of a fraction
its length is known, and digits of one length are determined by their value.
-/
namespace Reckoner.Decimal

open Lexicon (Digit Mantissa Number)

section Digits

variable {ds es : List Char}

theorem eq_zero_of_toNat {c : Char} (h : c.toNat = 48) : c = '0' := Char.toNat_inj.mp h

theorem ofDigitChars_concat (ds : List Char) (c : Char) :
    Nat.ofDigitChars 10 (ds ++ [c]) 0 = 10 * Nat.ofDigitChars 10 ds 0 + (c.toNat - 48) := by
  rw [Nat.ofDigitChars_append, Nat.ofDigitChars_cons, Nat.ofDigitChars_nil]
  rfl

theorem ofDigitChars_lt (h : ∀ c ∈ ds, Digit c) : Nat.ofDigitChars 10 ds 0 < 10 ^ ds.length := by
  induction ds using List.reverseRecOn with
  | nil => decide
  | append_singleton ds c ih =>
    have hc := Lexicon.toNat_of_digit (h c (by simp))
    have := ih fun d hd => h d (List.mem_append_left _ hd)
    rw [ofDigitChars_concat, List.length_append, List.length_singleton, Nat.pow_succ]
    omega

/-- Digits of one length are determined by their value. -/
theorem digits_ext (hds : ∀ c ∈ ds, Digit c) (hes : ∀ c ∈ es, Digit c)
    (hlength : ds.length = es.length)
    (h : Nat.ofDigitChars 10 ds 0 = Nat.ofDigitChars 10 es 0) : ds = es := by
  induction ds using List.reverseRecOn generalizing es with
  | nil => exact (List.length_eq_zero_iff.mp hlength.symm).symm
  | append_singleton ds c ih =>
    obtain rfl | ⟨es, e, rfl⟩ := es.eq_nil_or_concat
    · simp at hlength
    rw [List.concat_eq_append] at hes hlength h ⊢
    have hc := Lexicon.toNat_of_digit (hds c (by simp))
    have he := Lexicon.toNat_of_digit (hes e (by simp))
    rw [ofDigitChars_concat, ofDigitChars_concat] at h
    have hlast : c = e := Char.toNat_inj.mp (by omega)
    have hinit : ds = es := by
      refine ih (fun d hd => hds d (List.mem_append_left _ hd))
        (fun d hd => hes d (List.mem_append_left _ hd)) (by simpa using hlength) (by omega)
    rw [hlast, hinit]

/-- The last digit is the value modulo ten. -/
theorem ofDigitChars_mod_ne_zero (h : ∀ c ∈ ds, Digit c) (hne : ds ≠ [])
    (hlast : ds.getLast? ≠ some '0') : Nat.ofDigitChars 10 ds 0 % 10 ≠ 0 := by
  obtain ⟨ds, c, rfl⟩ := ds.eq_nil_or_concat.resolve_left hne
  rw [List.concat_eq_append] at h hlast ⊢
  have hc := Lexicon.toNat_of_digit (h c (by simp))
  have hzero : c.toNat ≠ 48 := fun heq => hlast (by
    rw [List.getLast?_concat, eq_zero_of_toNat heq])
  rw [ofDigitChars_concat]
  omega

/-- Without a zero before them, digits are those of their value. -/
theorem digitChars_ofDigitChars (h : ∀ c ∈ ds, Digit c) (hne : ds ≠ [])
    (hhead : ds.head? = some '0' → ds = ['0']) : digitChars (Nat.ofDigitChars 10 ds 0) = ds := by
  refine digits_ext (fun c hc => digit_of_mem_digitChars hc) h ?_ (ofDigitChars_digitChars _)
  have hpos := List.length_pos_iff.mpr hne
  refine Nat.le_antisymm ((Nat.length_toDigits_le_iff (by decide) hpos).mpr (ofDigitChars_lt h)) ?_
  obtain ⟨c, cs, rfl⟩ := List.exists_cons_of_ne_nil hne
  rcases Nat.eq_zero_or_pos cs.length with hcs | hcs
  · rw [List.length_cons, hcs]
    exact List.length_pos_iff.mpr (digitChars_ne_nil _)
  · have hc := Lexicon.toNat_of_digit (h c List.mem_cons_self)
    have hzero : c.toNat ≠ 48 := fun heq => by
      have hcons := hhead (by rw [List.head?_cons, eq_zero_of_toNat heq])
      rw [(List.cons_eq_cons.mp hcons).2] at hcs
      exact absurd hcs (by decide)
    have hvalue : 10 ^ cs.length ≤ Nat.ofDigitChars 10 (c :: cs) 0 := by
      rw [Nat.ofDigitChars_cons, Nat.ofDigitChars_eq_ofDigitChars_zero]
      have hdigit : 1 ≤ 10 * 0 + (c.toNat - '0'.toNat) := by
        show 1 ≤ 10 * 0 + (c.toNat - 48)
        omega
      exact (Nat.le_mul_of_pos_right _ hdigit).trans (Nat.le_add_right _ _)
    have hlong := mt (Nat.length_toDigits_le_iff (by decide) hcs).mp (Nat.not_lt.mpr hvalue)
    exact Nat.not_le.mp hlong

end Digits

theorem eq_zero_of_digitChars {n : Nat} (h : digitChars n = ['0']) : n = 0 := by
  rw [← ofDigitChars_digitChars n, h]
  rfl

/-- The digits of a number start with a zero only if it is zero. -/
theorem digitChars_of_head {n : Nat} (h : (digitChars n).head? = some '0') :
    digitChars n = ['0'] := by
  induction n using Nat.strongRecOn with
  | ind n ih =>
    rw [digitChars, Nat.toDigits_eq_if (by decide)] at h ⊢
    split at h
    · next hlt =>
      rw [if_pos hlt]
      simpa using h
    · next hge =>
      rw [List.head?_append_of_ne_nil _ Nat.toDigits_ne_nil] at h
      have := eq_zero_of_digitChars (ih (n / 10) (by omega) h)
      omega

/-- The parts of a canonical text. -/
structure Canonical where
  negative : Bool
  whole : List Char
  fraction : List Char
  digit_whole : ∀ c ∈ whole, Digit c
  digit_fraction : ∀ c ∈ fraction, Digit c
  whole_ne_nil : whole ≠ []
  /-- only the whole part zero starts with a zero -/
  eq_zero_of_head : whole.head? = some '0' → whole = ['0']
  /-- a fraction does not end in a zero -/
  getLast_ne_zero : fraction.getLast? ≠ some '0'
  /-- zero has no sign -/
  unsigned : whole = ['0'] → fraction = [] → negative = false

namespace Canonical

def chars (c : Canonical) : List Char :=
  (if c.negative then ['-'] else []) ++ c.whole ++ (if c.fraction = [] then [] else '.' :: c.fraction)

def text (c : Canonical) : String := .ofList c.chars

/-- The digits without the point. -/
def digits (c : Canonical) : Nat := Nat.ofDigitChars 10 (c.whole ++ c.fraction) 0

/-- The number without its sign. -/
def magnitude (c : Canonical) : Decimal := ⟨c.digits, -(c.fraction.length : Int)⟩

/-- The number that a canonical text stands for. -/
def value (c : Canonical) : Rat := if c.negative then -c.magnitude.value else c.magnitude.value

variable (c c' : Canonical)

theorem digit_append : ∀ d ∈ c.whole ++ c.fraction, Digit d := fun d hd =>
  (List.mem_append.mp hd).elim (c.digit_whole d) (c.digit_fraction d)

theorem digits_eq : c.digits = 10 ^ c.fraction.length * Nat.ofDigitChars 10 c.whole 0 +
    Nat.ofDigitChars 10 c.fraction 0 := by
  rw [digits, Nat.ofDigitChars_append, Nat.ofDigitChars_eq_ofDigitChars_zero]

theorem digits_div : c.digits / 10 ^ c.fraction.length = Nat.ofDigitChars 10 c.whole 0 := by
  rw [digits_eq, Nat.mul_add_div (by positivity),
    Nat.div_eq_of_lt (ofDigitChars_lt c.digit_fraction), Nat.add_zero]

theorem digits_mod : c.digits % 10 ^ c.fraction.length = Nat.ofDigitChars 10 c.fraction 0 := by
  rw [digits_eq, Nat.mul_add_mod, Nat.mod_eq_of_lt (ofDigitChars_lt c.digit_fraction)]

theorem digits_mod_ten_ne_zero (h : c.fraction ≠ []) : c.digits % 10 ≠ 0 := by
  refine ofDigitChars_mod_ne_zero c.digit_append (by simp [h]) ?_
  rw [List.getLast?_append_of_ne_nil _ h]
  exact c.getLast_ne_zero

theorem magnitude_value : c.magnitude.value * 10 ^ c.fraction.length = c.digits := by
  rw [Decimal.value, magnitude, zpow_neg, zpow_natCast, mul_assoc, inv_mul_cancel₀ (by positivity),
    mul_one]

theorem magnitude_nonneg : 0 ≤ c.magnitude.value := by
  rw [Decimal.value]
  positivity

variable {c c'}

/-- The shorter of two fractions is not shorter. -/
theorem length_le_of_magnitude_eq (h : c.magnitude.value = c'.magnitude.value) :
    c'.fraction.length ≤ c.fraction.length := by
  by_contra hlt
  have hne : c'.fraction ≠ [] := fun hnil => hlt (by rw [hnil]; exact Nat.zero_le _)
  refine c'.digits_mod_ten_ne_zero hne ?_
  obtain ⟨k, hk⟩ : ∃ k, c'.fraction.length = c.fraction.length + (k + 1) :=
    ⟨c'.fraction.length - c.fraction.length - 1, by omega⟩
  have hdigits : c'.digits = c.digits * 10 ^ k * 10 := by
    have hcast : (c'.digits : Rat) = c.digits * 10 ^ k * 10 := by
      rw [← magnitude_value, ← magnitude_value, ← h, hk, pow_add, pow_succ]
      ring
    exact_mod_cast hcast
  rw [hdigits, Nat.mul_mod_left]

theorem parts_eq (h : c.magnitude.value = c'.magnitude.value) :
    c.whole = c'.whole ∧ c.fraction = c'.fraction := by
  have hlength : c.fraction.length = c'.fraction.length :=
    Nat.le_antisymm (length_le_of_magnitude_eq h.symm) (length_le_of_magnitude_eq h)
  have hdigits : c.digits = c'.digits := by
    have hcast : (c.digits : Rat) = c'.digits := by
      rw [← magnitude_value, ← magnitude_value, h, hlength]
    exact_mod_cast hcast
  constructor
  · rw [← digitChars_ofDigitChars c.digit_whole c.whole_ne_nil c.eq_zero_of_head,
      ← digitChars_ofDigitChars c'.digit_whole c'.whole_ne_nil c'.eq_zero_of_head,
      ← digits_div, ← digits_div, hdigits, hlength]
  · refine digits_ext c.digit_fraction c'.digit_fraction hlength ?_
    rw [← digits_mod, ← digits_mod, hdigits, hlength]

theorem not_negative_of_magnitude_eq_zero (h : c.magnitude.value = 0) : c.negative = false := by
  have hdigits : c.digits = 0 := by
    have hcast : (c.digits : Rat) = 0 := by rw [← magnitude_value, h, zero_mul]
    exact_mod_cast hcast
  have hfraction : c.fraction = [] := by
    by_contra hne
    exact c.digits_mod_ten_ne_zero hne (by rw [hdigits])
  have hwhole : Nat.ofDigitChars 10 c.whole 0 = 0 := by rw [← digits_div, hdigits, Nat.zero_div]
  refine c.unsigned ?_ hfraction
  rw [← digitChars_ofDigitChars c.digit_whole c.whole_ne_nil c.eq_zero_of_head, hwhole]
  rfl

theorem abs_value (c : Canonical) : |c.value| = c.magnitude.value := by
  rw [value]
  split
  · rw [abs_neg, abs_of_nonneg c.magnitude_nonneg]
  · rw [abs_of_nonneg c.magnitude_nonneg]

theorem negative_iff (c : Canonical) : c.negative = true ↔ c.value < 0 := by
  have hnonneg := c.magnitude_nonneg
  constructor
  · intro h
    refine lt_of_le_of_ne ?_ fun hzero => ?_
    · rw [value, if_pos h]
      linarith
    · have := not_negative_of_magnitude_eq_zero (c := c) (by rw [← abs_value, hzero, abs_zero])
      rw [h] at this
      cases this
  · intro h
    by_contra hpositive
    rw [value, if_neg hpositive] at h
    linarith

/-- A number has one canonical text at most. -/
theorem value_injective : Function.Injective value := by
  intro c c' h
  have hmagnitude : c.magnitude.value = c'.magnitude.value := by rw [← abs_value, ← abs_value, h]
  obtain ⟨hwhole, hfraction⟩ := parts_eq hmagnitude
  have hnegative : c.negative = c'.negative := by
    rw [Bool.eq_iff_iff, negative_iff, negative_iff, h]
  cases c
  cases c'
  simp_all

/-- The canonical text of a whole number. -/
def ofInt (n : Int) : Canonical where
  negative := decide (n < 0)
  whole := digitChars n.natAbs
  fraction := []
  digit_whole _ hc := digit_of_mem_digitChars hc
  digit_fraction _ hc := by cases hc
  whole_ne_nil := digitChars_ne_nil _
  eq_zero_of_head := digitChars_of_head
  getLast_ne_zero := by simp
  unsigned h _ := by
    have := eq_zero_of_digitChars h
    rw [decide_eq_false_iff_not]
    omega

@[simp] theorem value_ofInt (n : Int) : (ofInt n).value = n := by
  have hdigits : (ofInt n).digits = n.natAbs := by
    rw [digits, ofInt, List.append_nil, ofDigitChars_digitChars]
  have hmagnitude : (ofInt n).magnitude.value = (n.natAbs : Rat) := by
    have hvalue := (ofInt n).magnitude_value
    rwa [hdigits, show (ofInt n).fraction.length = 0 from rfl, pow_zero, mul_one] at hvalue
  have hnegative : (ofInt n).negative = true ↔ n < 0 := decide_eq_true_iff
  rw [value, hmagnitude, Nat.cast_natAbs]
  by_cases hn : n < 0
  · rw [if_pos (hnegative.mpr hn), abs_of_neg hn]
    push_cast
    ring
  · rw [if_neg (mt hnegative.mp hn), abs_of_nonneg (not_lt.mp hn)]

/-- Only whole numbers have no fraction. -/
theorem fraction_eq_nil_iff (c : Canonical) : c.fraction = [] ↔ ∃ n : Int, c.value = n := by
  constructor
  · intro h
    have hmagnitude : c.magnitude.value = (c.digits : Int) := by
      have hvalue := c.magnitude_value
      rwa [h, List.length_nil, pow_zero, mul_one] at hvalue
    refine ⟨if c.negative then -(c.digits : Int) else c.digits, ?_⟩
    rw [value, hmagnitude]
    split <;> simp
  · rintro ⟨n, hn⟩
    have hc : c = ofInt n := value_injective (hn.trans (value_ofInt n).symm)
    rw [hc]
    rfl

/-- The whole part is the number without its fraction. -/
theorem whole_eq (c : Canonical) : c.whole = digitChars ⌊|c.value|⌋₊ := by
  have hpow : (0 : Rat) < 10 ^ c.fraction.length := by positivity
  have hfloor : ⌊|c.value|⌋₊ = Nat.ofDigitChars 10 c.whole 0 := by
    rw [abs_value, eq_div_of_mul_eq hpow.ne' c.magnitude_value, ← digits_div]
    exact_mod_cast Nat.floor_div_eq_div (K := Rat) c.digits (10 ^ c.fraction.length)
  rw [hfloor, digitChars_ofDigitChars c.digit_whole c.whole_ne_nil c.eq_zero_of_head]

/-- The characters after the sign. -/
def body (c : Canonical) : List Char :=
  c.whole ++ if c.fraction = [] then [] else '.' :: c.fraction

theorem chars_eq (c : Canonical) : c.chars = (if c.negative then ['-'] else []) ++ c.body :=
  List.append_assoc _ _ _

/-- After its sign, a canonical text is a number of the lexicon. -/
theorem number_body (c : Canonical) : Number c.body c.magnitude := by
  rw [body, magnitude, digits]
  split
  · next h =>
    rw [h]
    simpa using number_of_mantissa (.whole c.digit_whole c.whole_ne_nil)
  · exact number_of_mantissa (.point c.digit_whole c.digit_fraction (.inl c.whole_ne_nil))

theorem head_body_ne_minus (c : Canonical) (cs : List Char) : c.body ≠ '-' :: cs := by
  intro h
  obtain ⟨d, following, hbody, hd⟩ := c.number_body.exists_head
  obtain rfl := (List.cons_eq_cons.mp (h.symm.trans hbody)).1
  exact absurd hd (by decide)

/-- The digits up to the point are the whole part. -/
theorem digits_body (c : Canonical) :
    Literal.digits c.body = (c.whole, if c.fraction = [] then [] else '.' :: c.fraction) := by
  have hpoint : Lexicon.Ends Digit (if c.fraction = [] then [] else '.' :: c.fraction) := by
    split
    · exact Lexicon.ends_nil _
    · intro d following heq
      obtain rfl := (List.cons_eq_cons.mp heq).1
      decide
  rw [body, Lexicon.digits_append c.digit_whole, Lexicon.digits_of_ends hpoint, List.append_nil]

theorem body_injective {c c' : Canonical} (h : c.body = c'.body) :
    c.whole = c'.whole ∧ c.fraction = c'.fraction := by
  have hdigits := congrArg Literal.digits h
  rw [digits_body, digits_body] at hdigits
  obtain ⟨hwhole, hpoint⟩ := Prod.mk.inj hdigits
  refine ⟨hwhole, ?_⟩
  split at hpoint <;> split at hpoint <;> simp_all

/-- A canonical text stands for one number. -/
theorem text_injective : Function.Injective text := by
  intro c c' h
  rw [text, text, String.ofList_inj, chars_eq, chars_eq] at h
  have hparts : c.negative = c'.negative ∧ c.body = c'.body := by
    cases hnegative : c.negative <;> cases hnegative' : c'.negative <;>
      simp only [hnegative, hnegative', Bool.false_eq_true, ↓reduceIte, List.nil_append] at h
    · exact ⟨rfl, h⟩
    · exact absurd h (c.head_body_ne_minus _)
    · exact absurd h.symm (c'.head_body_ne_minus _)
    · exact ⟨rfl, List.cons_injective h⟩
  obtain ⟨hwhole, hfraction⟩ := body_injective hparts.2
  obtain ⟨hnegative, -⟩ := hparts
  cases c
  cases c'
  simp_all

end Canonical

end Reckoner.Decimal
