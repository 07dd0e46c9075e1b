import Reckoner.Decimal.Layout

/-!
# A bounded number of decimals

The exact value is written with a given number of decimals, rounded, a half going to the even digit.
The displayed text is this text without the zeros that end its fraction and without a point that
nothing follows; zero has no sign.
-/
namespace Reckoner.Decimal

/-- The absolute value in units of the last place. -/
def scaled (places : Nat) (x : Float) : Nat :=
  (Binary64.roundHalfEven (Binary64.magnitude x * 10 ^ places)).toNat

/-- Digits padded on the left with zeros to a least length. -/
def padded (length : Nat) (n : Nat) : List Char :=
  let digits := digitChars n
  List.replicate (length - digits.length) '0' ++ digits

/-- The text of a finite number with all its decimals. The sign bit is shown even where all digits
are zero. -/
def roundedChars (places : Nat) (x : Float) : List Char :=
  let n := scaled places x
  let unit := Nat.pow 10 places
  let fraction := if places = 0 then [] else '.' :: padded places (n % unit)
  (if Binary64.isNegative x then ['-'] else []) ++ digitChars (n / unit) ++ fraction

/-- A text with a point, without the zeros at its end and without a point that is then its end. -/
def withoutEndZeros (cs : List Char) : List Char :=
  if '.' ∈ cs then
    let kept := (cs.reverse.dropWhile (· = '0')).reverse
    if kept.getLast? = some '.' then kept.dropLast else kept
  else cs

/-- The text of a number with at most this many decimals; infinities and what is not a number are
written as in an expression. -/
def fixedChars (places : Nat) (x : Float) : List Char :=
  if x.isFinite then
    let shown := withoutEndZeros (roundedChars places x)
    if shown = ['-', '0'] then ['0'] else shown
  else plain.chars x

def fixed (places : Nat) (x : Float) : String := .ofList (fixedChars places x)

end Reckoner.Decimal
