import Reckoner.Decimal.Basic

/-!
# Numeric literals

A literal is digits with an optional fraction, or a point followed by at least one digit, and then
an exponent if at least one digit follows its mark and its optional sign. `Literal.read?` takes the
longest literal at the head of a text; `Literal.chars` is the text it took.
-/
namespace Reckoner

structure Literal.Exponent where
  /-- "e" or "E" -/
  mark : Char
  sign : Option Char
  digits : List Char

structure Literal where
  whole : List Char
  /-- the digits after the point, if there is a point -/
  fraction : Option (List Char)
  exponent : Option Literal.Exponent

namespace Literal

def Exponent.chars (e : Exponent) : List Char := e.mark :: e.sign.toList ++ e.digits

def chars (l : Literal) : List Char :=
  l.whole ++ (l.fraction.elim [] ('.' :: ·)) ++ (l.exponent.elim [] Exponent.chars)

def Exponent.value (e : Exponent) : Int :=
  let n := Nat.ofDigitChars 10 e.digits 0
  if e.sign = some '-' then -(n : Int) else n

/-- The digits without the point, scaled by the exponent. -/
def toDecimal (l : Literal) : Decimal :=
  let fraction := l.fraction.getD []
  ⟨Nat.ofDigitChars 10 (l.whole ++ fraction) 0,
    l.exponent.elim 0 Exponent.value - fraction.length⟩

def toFloat (l : Literal) : Float := l.toDecimal.toFloat

/-- The leading digits of a text, and the rest. -/
def digits (cs : List Char) : List Char × List Char :=
  (cs.takeWhile Char.isDigit, cs.dropWhile Char.isDigit)

/-- The sign of an exponent, if there is one. -/
def sign (cs : List Char) : Option Char × List Char :=
  match cs with
  | '+' :: rest => (some '+', rest)
  | '-' :: rest => (some '-', rest)
  | rest => (none, rest)

def readExponent (cs : List Char) : Option Exponent × List Char :=
  match cs with
  | [] => (none, [])
  | mark :: rest =>
    let (sign, afterSign) := sign rest
    let (power, afterPower) := digits afterSign
    if (mark = 'e' ∨ mark = 'E') ∧ power ≠ [] then (some ⟨mark, sign, power⟩, afterPower)
    else (none, cs)

def readFraction (cs : List Char) : Option (List Char) × List Char :=
  match cs with
  | '.' :: rest => (some (digits rest).1, (digits rest).2)
  | rest => (none, rest)

/-- The longest literal at the head of a text, and the rest. -/
def read? (cs : List Char) : Option (Literal × List Char) :=
  let (whole, afterWhole) := digits cs
  let (fraction, afterFraction) := readFraction afterWhole
  let (exponent, rest) := readExponent afterFraction
  if whole = [] ∧ fraction.getD [] = [] then none
  else some (⟨whole, fraction, exponent⟩, rest)

theorem digits_append (cs : List Char) : (digits cs).1 ++ (digits cs).2 = cs :=
  List.takeWhile_append_dropWhile

theorem sign_append (cs : List Char) : (sign cs).1.toList ++ (sign cs).2 = cs := by
  unfold sign; split <;> rfl

theorem readFraction_append (cs : List Char) :
    (readFraction cs).1.elim [] ('.' :: ·) ++ (readFraction cs).2 = cs := by
  unfold readFraction; split
  · simp [digits_append]
  · rfl

theorem readExponent_append (cs : List Char) :
    (readExponent cs).1.elim [] Exponent.chars ++ (readExponent cs).2 = cs := by
  unfold readExponent; split
  · rfl
  · next mark rest =>
    simp only
    split
    · simp [Exponent.chars, digits_append, sign_append]
    · rfl

/-- The characters of a literal and what follows it are the text that was read. -/
theorem read?_append {cs rest : List Char} {l : Literal} (h : read? cs = some (l, rest)) :
    l.chars ++ rest = cs := by
  simp only [read?, Option.ite_none_left_eq_some, Option.some.injEq, Prod.mk.injEq] at h
  obtain ⟨-, rfl, rfl⟩ := h
  simp only [chars, List.append_assoc, readExponent_append, readFraction_append, digits_append]

theorem chars_ne_nil_of_read? {cs rest : List Char} {l : Literal}
    (h : read? cs = some (l, rest)) : l.chars ≠ [] := by
  simp only [read?, Option.ite_none_left_eq_some, Option.some.injEq, Prod.mk.injEq] at h
  obtain ⟨hdigits, rfl, -⟩ := h
  intro hnil
  simp only [chars, List.append_eq_nil_iff] at hnil
  refine hdigits ⟨hnil.1.1, ?_⟩
  cases hf : (readFraction (digits cs).2).1 with
  | none => rfl
  | some fraction => simp [hf] at hnil

/-- Reads a number as the layouts write it: an optional sign, then a literal that fills the text,
"inf" or "NaN". -/
def readFloat? (cs : List Char) : Option Float :=
  let (negative, magnitude) :=
    match cs with
    | '-' :: rest => (true, rest)
    | '+' :: rest => (false, rest)
    | rest => (false, rest)
  let unsigned : Option Float :=
    if magnitude = ['i', 'n', 'f'] then some Binary64.infinity
    else if magnitude = ['N', 'a', 'N'] then some (Binary64.infinity - Binary64.infinity)
    else match read? magnitude with
      | some (literal, []) => some literal.toFloat
      | _ => none
  unsigned.map fun x => if negative then -x else x

end Literal
end Reckoner
