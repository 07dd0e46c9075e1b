import Reckoner.Binary64

/-!
# Decimal numbers

A decimal is a natural number of digits and a power of ten. Its nearest double-precision number is
the correctly rounded one, whatever the size of the digits and of the exponent.
-/
namespace Reckoner

/-- The number `digits * 10 ^ exponent`. -/
structure Decimal where
  digits : Nat
  exponent : Int
  deriving Repr, DecidableEq

namespace Decimal

def value (d : Decimal) : Rat := (d.digits : Rat) * 10 ^ d.exponent

/-- The nearest double-precision number. The first two cases spare powers of ten that no finite
number needs: there the value is below half the least positive number, or above the greatest. -/
def toFloat (d : Decimal) : Float :=
  if d.digits = 0 ∨ d.exponent < -(400 + d.digits.log2 : Int) then 0
  else if 400 < d.exponent then Binary64.infinity
  else Binary64.nearest d.value

/-- The same number without the zeros at the end of its digits. -/
def withoutTrailingZeros (d : Decimal) : Decimal :=
  if h : d.digits ≠ 0 ∧ d.digits % 10 = 0 then
    withoutTrailingZeros ⟨d.digits / 10, d.exponent + 1⟩
  else d
termination_by d.digits
decreasing_by exact Nat.div_lt_self (Nat.pos_of_ne_zero h.1) (by decide)

end Decimal
end Reckoner
