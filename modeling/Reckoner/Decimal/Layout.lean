import Reckoner.Decimal.Shortest

/-!
# How numbers are written

The digits of a number are the shortest that read back; a layout decides how they are set. Each
text that shows numbers has one layout, defined where that text is written.
-/
namespace Reckoner.Decimal

/-- The decisions of one notation for numbers. -/
structure Layout where
  /-- which exponents of the leading digit are written without an exponent part -/
  positional : Int → Bool
  /-- whether a whole number ends in ".0" -/
  pointZero : Bool
  /-- whether a positive exponent carries its sign -/
  plusSign : Bool
  tie : Tie

def digitChars (n : Nat) : List Char := Nat.toDigits 10 n

/-- The digits with the point at its place, padded with zeros on either side. -/
def positionalChars (pointZero : Bool) (d : Decimal) : List Char :=
  let digits := digitChars d.digits
  let whole := (digits.length : Int) + d.exponent
  if 0 ≤ d.exponent then
    digits ++ List.replicate d.exponent.toNat '0' ++ (if pointZero then ['.', '0'] else [])
  else if 0 < whole then
    digits.take whole.toNat ++ '.' :: digits.drop whole.toNat
  else
    '0' :: '.' :: List.replicate (-whole).toNat '0' ++ digits

/-- One digit, the point and the others if there are any, then the exponent of the first. -/
def scientificChars (plusSign : Bool) (d : Decimal) : List Char :=
  let digits := digitChars d.digits
  let leading := (digits.length : Int) + d.exponent - 1
  let fraction := if digits.length = 1 then [] else '.' :: digits.drop 1
  let sign := if leading < 0 then ['-'] else if plusSign then ['+'] else []
  digits.take 1 ++ fraction ++ 'e' :: sign ++ digitChars leading.natAbs

namespace Layout

/-- The text of a finite number without its sign. -/
def magnitudeChars (layout : Layout) (x : Float) : List Char :=
  if Binary64.ordinal x = 0 then positionalChars layout.pointZero ⟨0, 0⟩
  else
    let d := shortest layout.tie x
    if layout.positional ((digitChars d.digits).length + d.exponent - 1) then
      positionalChars layout.pointZero d
    else scientificChars layout.plusSign d

/-- The text of a number: a sign if the sign bit is set, then the digits or "inf". What is not a
number has no sign. -/
def chars (layout : Layout) (x : Float) : List Char :=
  if x.isNaN then ['N', 'a', 'N']
  else
    (if Binary64.isNegative x then ['-'] else []) ++
      if x.isInf then ['i', 'n', 'f'] else layout.magnitudeChars x

def render (layout : Layout) (x : Float) : String := .ofList (layout.chars x)

end Layout

/-- Numbers inside expressions: never an exponent, and whole numbers without a point. -/
def plain : Layout where
  positional := fun _ => true
  pointZero := false
  plusSign := false
  tie := .up

/-- Numbers as results: positional from 0.0001 up to but not including 10^16, always with a
fraction; beyond that with an exponent that has no plus sign. -/
def result : Layout where
  positional := fun leading => -4 ≤ leading && leading < 16
  pointZero := true
  plusSign := false
  tie := .up

end Reckoner.Decimal
