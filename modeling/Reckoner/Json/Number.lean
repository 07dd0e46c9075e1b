import Reckoner.Decimal.Literal
import Reckoner.Json.Basic

/-!
# JSON numbers

A whole number without fraction and exponent is exact if it fits 64 bits. Any other number is a
significand, cut where it would leave 64 bits, scaled by a power of ten in double precision; this is
fast and may miss the nearest double by a few units of the last place. A number too large for double
precision is refused.
-/
namespace Reckoner.Json

/-- The nearest double of a power of ten that double precision has. -/
def powerOfTen (n : Nat) : Float := Decimal.toFloat ⟨1, n⟩

/-- The value times a power of ten, one step for each power that double precision has. -/
def scaleBy (x : Float) (exponent : Int) : Option Float :=
  if exponent < -308 then
    if x == 0 then some x else scaleBy (x / powerOfTen 308) (exponent + 308)
  else if exponent < 0 then some (x / powerOfTen exponent.natAbs)
  else if 308 < exponent then
    if x == 0 then some x else none
  else
    let scaled := x * powerOfTen exponent.natAbs
    if scaled.isInf then none else some scaled
termination_by exponent.natAbs

/-- A significand below 2^64, how many digits went into it, and the rest of the text. -/
structure Significand where
  value : Nat
  taken : Nat
  rest : List Char

/-- Digits appended to a significand while it stays below 2^64. -/
def accumulate (significand : Nat) : List Char → Significand
  | [] => ⟨significand, 0, []⟩
  | c :: cs =>
    let next := significand * 10 + (c.toNat - '0'.toNat)
    if c.isDigit ∧ next < UInt64.size then
      let reached := accumulate next cs
      { reached with taken := reached.taken + 1 }
    else ⟨significand, 0, c :: cs⟩

/-- The exponent at the head of a text, none if its digits are missing. -/
def exponent? (cs : List Char) : Option (Int × List Char) :=
  match cs with
  | mark :: rest =>
    if mark = 'e' ∨ mark = 'E' then
      match Literal.readExponent (mark :: rest) with
      | (some exponent, rest) => some (exponent.value, rest)
      | (none, _) => none
    else some (0, cs)
  | [] => some (0, [])

/-- A whole number: exact if it fits 64 bits, with or without a sign. Zero with a sign is kept as
the negative zero of double precision. -/
def ofWhole (negative : Bool) (significand : Nat) : Json :=
  if !negative then integer significand
  else if 0 < significand ∧ 2 * significand ≤ UInt64.size then integer (-significand)
  else real (-significand.toUInt64.toFloat)

def ofParts (negative : Bool) (significand : Nat) (exponent : Int) : Option Json :=
  (scaleBy significand.toUInt64.toFloat exponent).map fun x => real (if negative then -x else x)

/-- The number at the head of a text that follows an optional sign, and the rest. -/
def unsigned? (negative : Bool) (cs : List Char) : Option (Json × List Char) :=
  let whole := accumulate 0 cs
  let dropped := (Literal.digits whole.rest).1.length
  if whole.taken = 0 ∨ (cs.head? = some '0' ∧ 1 < whole.taken) then none
  else
    match (Literal.digits whole.rest).2 with
    | '.' :: fraction =>
      let all := accumulate whole.value fraction
      if all.taken = 0 ∧ (Literal.digits all.rest).1 = [] then none
      else do
        let (exponent, rest) ← exponent? (Literal.digits all.rest).2
        return (← ofParts negative all.value (dropped - all.taken + exponent), rest)
    | others =>
      if others.head? = some 'e' ∨ others.head? = some 'E' then do
        let (exponent, rest) ← exponent? others
        return (← ofParts negative whole.value (dropped + exponent), rest)
      else if dropped = 0 then some (ofWhole negative whole.value, others)
      else do return (← ofParts negative whole.value dropped, others)

/-- The number at the head of a text, and the rest. -/
def number? (cs : List Char) : Option (Json × List Char) :=
  match cs with
  | '-' :: rest => unsigned? true rest
  | rest => unsigned? false rest

theorem length_accumulate (significand : Nat) (cs : List Char) :
    (accumulate significand cs).taken + (accumulate significand cs).rest.length = cs.length := by
  induction cs generalizing significand with
  | nil => rfl
  | cons c cs ih =>
    simp only [accumulate]
    split
    · simp only [List.length_cons, ← ih (significand * 10 + (c.toNat - '0'.toNat))]
      omega
    · simp

theorem length_digits_le (cs : List Char) : (Literal.digits cs).2.length ≤ cs.length :=
  (List.dropWhile_suffix _).length_le

theorem length_exponent?_le {cs rest : List Char} {exponent : Int}
    (h : exponent? cs = some (exponent, rest)) : rest.length ≤ cs.length := by
  unfold exponent? at h
  split at h
  · next mark tail =>
    split at h
    · split at h
      · next found after hread =>
        cases h
        have := congrArg List.length (Literal.readExponent_append (mark :: tail))
        simp only [hread, List.length_append] at this
        omega
      · cases h
    · cases h; exact Nat.le_refl _
  · cases h; exact Nat.le_refl _

theorem length_lt_of_unsigned? {negative : Bool} {cs rest : List Char} {value : Json}
    (h : unsigned? negative cs = some (value, rest)) : rest.length < cs.length := by
  have htaken := length_accumulate 0 cs
  have hdigits := length_digits_le (accumulate 0 cs).rest
  simp only [unsigned?, bind, pure] at h
  split at h
  · cases h
  · split at h
    · next fraction hpoint =>
      have := length_accumulate (accumulate 0 cs).value fraction
      have := length_digits_le (accumulate (accumulate 0 cs).value fraction).rest
      simp only [hpoint, List.length_cons] at hdigits
      split at h
      · cases h
      · simp only [Option.bind_eq_some_iff, Option.some.injEq, Prod.mk.injEq] at h
        obtain ⟨⟨exponent, after⟩, hexp, -, -, -, rfl⟩ := h
        have := length_exponent?_le hexp
        simp only
        omega
    · split at h
      · simp only [Option.bind_eq_some_iff, Option.some.injEq, Prod.mk.injEq] at h
        obtain ⟨⟨exponent, after⟩, hexp, -, -, -, rfl⟩ := h
        have := length_exponent?_le hexp
        simp only
        omega
      · split at h
        · cases h; omega
        · simp only [Option.bind_eq_some_iff, Option.some.injEq, Prod.mk.injEq] at h
          obtain ⟨-, -, -, rfl⟩ := h
          omega

/-- A number takes at least one character. -/
theorem length_lt_of_number? {cs rest : List Char} {value : Json}
    (h : number? cs = some (value, rest)) : rest.length < cs.length := by
  unfold number? at h
  split at h
  · have := length_lt_of_unsigned? h
    simp only [List.length_cons]
    omega
  · exact length_lt_of_unsigned? h

end Reckoner.Json
