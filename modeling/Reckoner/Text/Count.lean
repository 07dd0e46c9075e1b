/-!
# Counts

Natural numbers in decimal digits, with any number of leading zeros.
-/
namespace Reckoner.Text

/-- The number that a text of digits writes. -/
def count? (cs : List Char) : Option Nat :=
  if cs ≠ [] ∧ cs.all Char.isDigit then some (Nat.ofDigitChars 10 cs 0) else none

/-- The number that digits write, perhaps after a plus sign. -/
def plusCount? : List Char → Option Nat
  | '+' :: digits => count? digits
  | digits => count? digits

end Reckoner.Text
